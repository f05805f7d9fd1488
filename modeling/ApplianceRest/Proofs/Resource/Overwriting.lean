import ApplianceRest.Proofs.Request.Hierarchy
import ApplianceRest.Proofs.Resource.Interleaving
import Mathlib.Data.List.Nodup

/-!
# Name servers that are lost

Of two runs that add name servers nothing keeps one from writing what it read before the other one
wrote, and then the servers of the other run are gone (`not_all_additions_kept`). That is the only way
to lose any: `mem_nameServers_iff` says which servers there are in the end. An invariant carries this
from exchange to exchange (`View.Holds`); it says what a run has seen by reading, from the order of
the exchanges.
-/

namespace ApplianceRest.DnsSettings

open Http (Method)

variable {v : View} {e : Event} {p : Party}

/-- A run has been overwritten: the other one has read before, and written after it wrote. -/
def Overwritten (log : List Event) (p : Party) : Prop :=
  [(p.other, .get), (p, .put), (p.other, .put)].Sublist log

/-! ## The order of events -/

section Order

variable {log : List Event} {e' : Event}

/-- A last event either ends a pattern or is none of it. -/
theorem sublist_concat_concat (pattern : List Event) :
    (pattern ++ [e]).Sublist (log ++ [e']) ↔
      (pattern ++ [e]).Sublist log ∨ e = e' ∧ pattern.Sublist log := by
  rw [← List.reverse_sublist, List.reverse_concat, List.reverse_concat, List.cons_sublist_cons',
    List.reverse_sublist, ← List.reverse_concat, List.reverse_sublist]

/-- Of two different events one stands in front of the other. -/
theorem sublist_pair_or (he : e ∈ log) (he' : e' ∈ log) (hne : e ≠ e') :
    [e, e'].Sublist log ∨ [e', e].Sublist log := by
  induction log with
  | nil => cases he
  | cons first rest ih =>
    rcases List.mem_cons.mp he with rfl | hrest
    · exact Or.inl ((List.singleton_sublist.mpr
        ((List.mem_cons.mp he').resolve_left (Ne.symm hne))).cons_cons e)
    · rcases List.mem_cons.mp he' with rfl | hrest'
      · exact Or.inr ((List.singleton_sublist.mpr hrest).cons_cons e')
      · exact (ih hrest hrest').imp (·.cons first) (·.cons first)

/-- Events that take place once stand in one order only. -/
theorem not_sublist_pair_swap (hnodup : log.Nodup) (h : [e, e'].Sublist log) :
    ¬[e', e].Sublist log := by
  intro hswap
  induction log with
  | nil => cases h
  | cons first rest ih =>
    have hfirst := (List.nodup_cons.mp hnodup).1
    rcases List.cons_sublist_cons'.mp h with hrest | ⟨rfl, hmem⟩
    · rcases List.cons_sublist_cons'.mp hswap with hrest' | ⟨rfl, -⟩
      · exact ih (List.nodup_cons.mp hnodup).2 hrest hrest'
      · exact hfirst (hrest.subset (by simp))
    · rcases List.cons_sublist_cons'.mp hswap with hrest' | ⟨rfl, hmem'⟩
      · exact hfirst (hrest'.subset (by simp))
      · exact hfirst (List.singleton_sublist.mp hmem)

end Order

/-! ## Which servers there are -/

section Servers

variable (added : Party → List String) (initial : List String)

/-- What a run sees by reading: the servers from the start, and those of the other run if that has
written before. -/
def Seen (log : List Event) (p : Party) (server : String) : Prop :=
  server ∈ initial ∨ (server ∈ added p.other ∧ [(p.other, .put), (p, .get)].Sublist log)

/-- What holds of a run after some events: one that is idle takes part in none of them, and one that
has read knows what it has seen. -/
def Phase.Holds (log : List Event) (p : Party) : Phase → Prop
  | .idle => ∀ m, (p, m) ∉ log
  | .holding known =>
    (p, .put) ∉ log ∧ (p, .get) ∈ log ∧ ∀ s, s ∈ known ↔ Seen added initial log p s
  | .done => (p, .put) ∈ log ∨ ∀ s ∈ added p, Seen added initial log p s

/-- What holds after some events, each of which took place once. The servers that are set are those
from the start and those of the runs that have written and are not overwritten. -/
structure View.Holds (log : List Event) (v : View) : Prop where
  nodup : log.Nodup
  phase : ∀ p, (v.phase p).Holds added initial log p
  servers : ∀ s, s ∈ v.servers ↔
    s ∈ initial ∨ ∃ p, (p, .put) ∈ log ∧ s ∈ added p ∧ ¬Overwritten log p

variable {added initial} {log : List Event}

theorem mem_concat_of_ne {e' : Event} (hne : e' ≠ e) : e' ∈ log ++ [e] ↔ e' ∈ log := by
  rw [List.mem_append, List.mem_singleton]
  exact or_iff_left hne

theorem overwritten_concat_of_ne (hne : (p.other, .put) ≠ e) :
    Overwritten (log ++ [e]) p ↔ Overwritten log p :=
  (sublist_concat_concat [(p.other, .get), (p, .put)]).trans (or_iff_left fun h => hne h.1)

/-- What a run has seen does not change when it reads no more. -/
theorem seen_concat_of_ne (hne : (p, .get) ≠ e) {s : String} :
    Seen added initial (log ++ [e]) p s ↔ Seen added initial log p s := by
  have h : [(p.other, .put), (p, .get)].Sublist (log ++ [e]) ↔
      [(p.other, .put), (p, .get)].Sublist log :=
    (sublist_concat_concat [(p.other, .put)]).trans (or_iff_left fun h => hne h.1)
  exact or_congr_right (and_congr_right fun _ => h)

/-- What holds of a run is not changed by what the other one does. -/
theorem Phase.Holds.concat {q : Party} {phase : Phase} (h : phase.Holds added initial log q)
    (hqp : q ≠ p) (m : Method) : phase.Holds added initial (log ++ [(p, m)]) q := by
  have hne : ∀ m', (q, m') ≠ (p, m) := fun m' heq => hqp (congrArg Prod.fst heq)
  cases phase with
  | idle =>
    intro m'
    rw [mem_concat_of_ne (hne m')]
    exact h m'
  | holding known =>
    obtain ⟨hput, hget, hseen⟩ := h
    refine ⟨?_, ?_, fun s => ?_⟩
    · rwa [mem_concat_of_ne (hne _)]
    · rwa [mem_concat_of_ne (hne _)]
    · rw [seen_concat_of_ne (hne _)]
      exact hseen s
  | done =>
    refine h.imp (List.mem_append_left _) fun hall s hs => ?_
    rw [seen_concat_of_ne (hne _)]
    exact hall s hs

theorem View.holds_start (initial : List String) : (View.start initial).Holds added initial [] where
  nodup := List.nodup_nil
  phase _ _ := List.not_mem_nil
  servers s := by simp [View.start]

namespace View.Holds

/-- After an event of one run there is something to show of this run only. -/
theorem phase_update (h : v.Holds added initial log) {phase : Phase} {m : Method}
    (hphase : phase.Holds added initial (log ++ [(p, m)]) p) (q : Party) :
    (Function.update v.phase p phase q).Holds added initial (log ++ [(p, m)]) q := by
  by_cases hqp : q = p
  · subst hqp
    rwa [Function.update_self]
  · rw [Function.update_of_ne hqp]
    exact (h.phase q).concat hqp m

theorem not_mem_of_idle (h : v.Holds added initial log) (hp : v.phase p = .idle) (m : Method) :
    (p, m) ∉ log := by
  have hidle := h.phase p
  rw [hp] at hidle
  exact hidle m

/-- By reading a run sees what is there. -/
theorem seen_iff (h : v.Holds added initial log) (hp : v.phase p = .idle) (s : String) :
    s ∈ v.servers ↔ Seen added initial (log ++ [(p, .get)]) p s := by
  have hnone := h.not_mem_of_idle hp
  rw [h.servers, Seen]
  refine or_congr_right ⟨?_, ?_⟩
  · rintro ⟨q, hput, hs, -⟩
    -- it is the other run that has written
    obtain rfl : q = p.other := Party.eq_other_of_ne fun heq => hnone _ (heq ▸ hput)
    exact ⟨hs, (sublist_concat_concat [(p.other, .put)]).mpr
      (Or.inr ⟨rfl, List.singleton_sublist.mpr hput⟩)⟩
  · rintro ⟨hs, horder⟩
    rcases (sublist_concat_concat [(p.other, .put)]).mp horder with hbefore | ⟨-, hput⟩
    · exact absurd (hbefore.subset (by simp)) (hnone .get)
    · refine ⟨p.other, List.singleton_sublist.mp hput, hs, fun hover => ?_⟩
      exact hnone .get (hover.subset (by simp))

theorem read (h : v.Holds added initial log) (hp : v.phase p = .idle) :
    (⟨v.servers, Function.update v.phase p (.afterReading (added p) v.servers)⟩ : View).Holds
      added initial (log ++ [(p, .get)]) := by
  have hnone := h.not_mem_of_idle hp
  have hne : ∀ q : Party, (q, Method.put) ≠ (p, .get) := nofun
  refine ⟨?_, h.phase_update ?_, fun s => ?_⟩
  · rw [← List.concat_eq_append]
    exact h.nodup.concat (hnone .get)
  · rw [Phase.afterReading]
    split
    · next hknown => exact Or.inr fun s hs => (h.seen_iff hp s).mp (hknown s hs)
    · refine ⟨?_, by simp, h.seen_iff hp⟩
      rw [mem_concat_of_ne (hne p)]
      exact hnone .put
  · -- reading neither adds a write to the log nor puts one behind another
    rw [h.servers s]
    refine or_congr_right (exists_congr fun q => ?_)
    rw [mem_concat_of_ne (hne q), overwritten_concat_of_ne (hne q.other)]

theorem write {known : List String} (h : v.Holds added initial log)
    (hp : v.phase p = .holding known) :
    (⟨(added p).foldl withServer known, Function.update v.phase p .done⟩ : View).Holds
      added initial (log ++ [(p, .put)]) := by
  obtain ⟨hput, hget, hseen⟩ : (p, .put) ∉ log ∧ (p, .get) ∈ log ∧
      ∀ s, s ∈ known ↔ Seen added initial log p s := by
    have hholding := h.phase p
    rwa [hp] at hholding
  -- the other run is overwritten if it has written after this one read
  have hover : Overwritten (log ++ [(p, .put)]) p.other ↔
      [(p, .get), (p.other, .put)].Sublist log := by
    rw [Overwritten, Party.other_other]
    refine (sublist_concat_concat [(p, .get), (p.other, .put)]).trans ?_
    constructor
    · rintro (hall | ⟨-, horder⟩)
      · exact absurd (hall.subset (by simp)) hput
      · exact horder
    · exact fun horder => Or.inr ⟨rfl, horder⟩
  have hkept : ¬Overwritten (log ++ [(p, .put)]) p := by
    rw [overwritten_concat_of_ne (by simp)]
    exact fun hover => hput (hover.subset (by simp))
  refine ⟨?_, h.phase_update (Or.inl (by simp)), fun s => ?_⟩
  · rw [← List.concat_eq_append]
    exact h.nodup.concat hput
  · -- what the run has read comes from the start, or from the other run if that wrote before; in
    -- that case, and in no other, the other run is not overwritten
    rw [mem_foldl_withServer, hseen s]
    constructor
    · rintro ((hs | ⟨hs, horder⟩) | hs)
      · exact Or.inl hs
      · refine Or.inr ⟨p.other, List.mem_append_left _ (horder.subset (by simp)), hs, ?_⟩
        rw [hover]
        exact not_sublist_pair_swap h.nodup horder
      · exact Or.inr ⟨p, by simp, hs, hkept⟩
    · rintro (hs | ⟨q, hq, hs, hqkept⟩)
      · exact Or.inl (Or.inl hs)
      · by_cases hqp : q = p
        · exact Or.inr (hqp ▸ hs)
        · obtain rfl := Party.eq_other_of_ne hqp
          rw [mem_concat_of_ne (by simp)] at hq
          rw [hover] at hqkept
          have horder := (sublist_pair_or hq hget (by simp)).resolve_right hqkept
          exact Or.inl (Or.inr ⟨hs, horder⟩)

/-- When both runs are done, all servers are there but those of a run that is overwritten. -/
theorem mem_servers_iff (h : v.Holds added initial log) (hdone : ∀ p, v.phase p = .done)
    (s : String) :
    s ∈ v.servers ↔ s ∈ initial ∨ ∃ p, s ∈ added p ∧ ¬Overwritten log p := by
  rw [h.servers s]
  constructor
  · rintro (hs | ⟨p, -, hs, hkept⟩)
    · exact Or.inl hs
    · exact Or.inr ⟨p, hs, hkept⟩
  · rintro (hs | ⟨p, hs, hkept⟩)
    · exact Or.inl hs
    · have hp := h.phase p
      rw [hdone p] at hp
      by_cases hput : (p, .put) ∈ log
      · exact Or.inr ⟨p, hput, hs, hkept⟩
      · -- the run has read all its servers: they were there, or the other run has written them
        rcases hp.resolve_left hput s hs with hinitial | ⟨hother, horder⟩
        · exact Or.inl hinitial
        · refine Or.inr ⟨p.other, horder.subset (by simp), hother, fun hover => ?_⟩
          exact hput (hover.subset (by simp))

end View.Holds

theorem View.holds_steps (h : Steps (View.Step added) (View.start initial) log v) :
    v.Holds added initial log := by
  induction h with
  | start => exact View.holds_start initial
  | snoc _ hstep ih =>
    cases hstep with
    | read hphase => exact ih.read hphase
    | write hphase => exact ih.write hphase

/-- The runs do not overwrite each other both. -/
theorem not_overwritten_both (hnodup : log.Nodup) : ¬∀ p, Overwritten log p := by
  intro hover
  have hfirst : [((.first : Party), Method.put), (.second, .put)].Sublist log :=
    (List.sublist_cons_self _ _).trans (hover .first)
  have hsecond : [((.second : Party), Method.put), (.first, .put)].Sublist log :=
    (List.sublist_cons_self _ _).trans (hover .second)
  exact not_sublist_pair_swap hnodup hfirst hsecond

end Servers

/-! ## Two runs on an appliance -/

/-- Settings with one name server. -/
def sampleSettings : DnsSettings := { nameServers := ["10.0.0.1"] }

def sampleDocument : Json.Bytes := (Record.document sampleSettings).toBytes

/-- Two runs that add one server each. -/
def sampleAdditions : Party → Addition
  | .first => ⟨Request.sampleClient, ["10.0.0.2"]⟩
  | .second => ⟨Request.sampleClient, ["10.0.0.3"]⟩

theorem decode_sampleDocument :
    Record.decode DnsSettings sampleDocument = .ok sampleSettings :=
  resets.decode_document sampleSettings

/-- When two runs have finished, the appliance has the servers from the start, and those that were
added by a run that has not been overwritten. At most one of the two runs has been. -/
theorem mem_nameServers_iff (additions : Party → Addition) {document : Json.Bytes}
    {settings : DnsSettings} {log : List Event} {final : System}
    (hdocument : Record.decode DnsSettings document = .ok settings)
    (hsteps : Steps (System.Step additions) (.start document) log final)
    (hfinished : final.IsFinished additions) :
    ∃ last, Record.decode DnsSettings final.settings = .ok last ∧
      (∀ s, s ∈ last.nameServers ↔ s ∈ settings.nameServers ∨
        ∃ p, s ∈ (additions p).servers ∧ ¬Overwritten log p) ∧
      ¬∀ p, Overwritten log p := by
  obtain ⟨v, hview, habs⟩ := (View.abstracts_start hdocument additions).simulates_steps hsteps
  have hholds := View.holds_steps hview
  have hdone := habs.isFinished_iff.mp hfinished
  obtain ⟨last, hdecode, hservers⟩ := habs.settings
  refine ⟨last, hdecode, fun s => ?_, not_overwritten_both hholds.nodup⟩
  rw [hservers]
  exact hholds.mem_servers_iff hdone s

/-- Two runs, one behind the other. -/
theorem mem_nameServers_in_turn :
    ∃ final, Steps (System.Step sampleAdditions) (.start sampleDocument)
        [(.first, .get), (.first, .put), (.second, .get), (.second, .put)] final ∧
      final.IsFinished sampleAdditions ∧
      ∃ last, Record.decode DnsSettings final.settings = .ok last ∧
        ∀ s ∈ ["10.0.0.1", "10.0.0.2", "10.0.0.3"], s ∈ last.nameServers := by
  have hview : Steps (View.Step fun p => (sampleAdditions p).servers)
      (.start sampleSettings.nameServers)
      [(.first, .get), (.first, .put), (.second, .get), (.second, .put)] _ :=
    (((Steps.start.snoc (.read rfl)).snoc (.write rfl)).snoc (.read rfl)).snoc (.write rfl)
  obtain ⟨final, hsteps, hfinished, -⟩ := exists_final decode_sampleDocument hview
    fun p => by cases p <;> rfl
  obtain ⟨last, hdecode, hservers, -⟩ :=
    mem_nameServers_iff sampleAdditions decode_sampleDocument hsteps hfinished
  refine ⟨final, hsteps, hfinished, last, hdecode, ?_⟩
  have hfirst : ¬Overwritten [(.first, .get), (.first, .put), (.second, .get), (.second, .put)]
      .first := by
    rw [Overwritten]
    decide
  have hsecond : ¬Overwritten [(.first, .get), (.first, .put), (.second, .get), (.second, .put)]
      .second := by
    rw [Overwritten]
    decide
  simp only [List.forall_mem_cons, hservers]
  exact ⟨Or.inl (by decide), Or.inr ⟨.first, by decide, hfirst⟩,
    Or.inr ⟨.second, by decide, hsecond⟩, nofun⟩

/-- Two runs that both read before either writes: the server of the first one is gone. -/
theorem not_all_additions_kept :
    ∃ final, Steps (System.Step sampleAdditions) (.start sampleDocument)
        [(.first, .get), (.second, .get), (.first, .put), (.second, .put)] final ∧
      final.IsFinished sampleAdditions ∧
      "10.0.0.2" ∈ (sampleAdditions .first).servers ∧
      ∃ last, Record.decode DnsSettings final.settings = .ok last ∧
        last.nameServers = ["10.0.0.1", "10.0.0.3"] ∧ "10.0.0.2" ∉ last.nameServers := by
  have hview : Steps (View.Step fun p => (sampleAdditions p).servers)
      (.start sampleSettings.nameServers)
      [(.first, .get), (.second, .get), (.first, .put), (.second, .put)] _ :=
    (((Steps.start.snoc (.read rfl)).snoc (.read rfl)).snoc (.write rfl)).snoc (.write rfl)
  obtain ⟨final, hsteps, hfinished, last, hdecode, hservers⟩ :=
    exists_final decode_sampleDocument hview fun p => by cases p <;> rfl
  have hlost : "10.0.0.2" ∉ last.nameServers := by
    rw [hservers]
    decide
  exact ⟨final, hsteps, hfinished, by decide, last, hdecode, hservers, hlost⟩

end ApplianceRest.DnsSettings
