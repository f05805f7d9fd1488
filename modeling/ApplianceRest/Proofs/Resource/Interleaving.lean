import ApplianceRest.Proofs.Resource.NameServers
import Mathlib.Logic.Function.Basic

/-!
# Two runs that add name servers at once

Two runs add name servers to one appliance, and their exchanges take place in any order: reading
gives the settings that the appliance has, and writing puts others in their place. All this is
abstracted to the list of servers and one phase for each run (`View`).

* `View.Abstracts.simulates`: every exchange is a step of the view.
* `View.Abstracts.lifts`: every step of the view is an exchange.
-/

namespace ApplianceRest.DnsSettings

open Http (Method)

/-! ## Runs and exchanges -/

/-- One of two runs. -/
inductive Party where
  | first
  | second
deriving DecidableEq

def Party.other : Party → Party
  | .first => .second
  | .second => .first

@[simp] theorem Party.other_other (p : Party) : p.other.other = p := by cases p <;> rfl

@[simp] theorem Party.other_ne (p : Party) : p.other ≠ p := by cases p <;> decide

theorem Party.eq_other_of_ne {p q : Party} (h : q ≠ p) : q = p.other := by
  cases p <;> cases q <;> first | rfl | exact absurd rfl h

/-- The name servers that a run adds, and the client with which it does. -/
structure Addition where
  client : Client
  servers : List String

/-- What a run does. -/
def Addition.operation (a : Addition) : Operation DnsSettings := addNameServers a.client a.servers

/-- An appliance that has settings answers a message with success, and then has some settings:
reading gives those that it has, and writing puts the body in their place. -/
inductive Serves (address : String) (settings : Json.Bytes) (m : Message) (response : Response) :
    Json.Bytes → Prop
  | get (hmethod : m.method = .get) (htarget : m.target = address)
      (hok : response.failure? = none) (hbody : response.body = settings) :
      Serves address settings m response settings
  | put (hmethod : m.method = .put) (htarget : m.target = address)
      (hok : response.failure? = none) : Serves address settings m response m.body

/-- An appliance with its settings, and the replies that the two runs have had so far. -/
structure System where
  settings : Json.Bytes
  replies : Party → List Reply

/-- Neither run has started. -/
def System.start (settings : Json.Bytes) : System := ⟨settings, fun _ => []⟩

/-- Neither run goes on. -/
def System.IsFinished (additions : Party → Addition) (s : System) : Prop :=
  ∀ p, (additions p).operation.next? (s.replies p) = none

/-- An exchange: whose, and whether it reads or writes. -/
abbrev Event := Party × Method

/-- One of the runs makes its next exchange, with success. -/
inductive System.Step (additions : Party → Addition) (s : System) : Event → System → Prop
  | exchange {p : Party} {m : Message} {response : Response} {settings : Json.Bytes}
      (hnext : (additions p).operation.next? (s.replies p) = some m)
      (hserves : Serves (address (additions p).client) s.settings m response settings) :
      Step additions s (p, m.method)
        ⟨settings, Function.update s.replies p (s.replies p ++ [.answer response])⟩

/-- Steps one after the other, with all events so far. -/
inductive Steps {σ : Type} (step : σ → Event → σ → Prop) (start : σ) : List Event → σ → Prop
  | start : Steps step start [] start
  | snoc {log : List Event} {s s' : σ} {e : Event} (hsteps : Steps step start log s)
      (hstep : step s e s') : Steps step start (log ++ [e]) s'

/-! ## The view -/

/-- How far a run is. -/
inductive Phase where
  | idle
  /-- it has read a list of servers, to which it will add some -/
  | holding (known : List String)
  | done

/-- The servers that are set, and how far the two runs are. -/
structure View where
  servers : List String
  phase : Party → Phase

/-- The phase of a run that has read a list of servers. -/
def Phase.afterReading (added known : List String) : Phase :=
  if ∀ s ∈ added, s ∈ known then .done else .holding known

inductive View.Step (added : Party → List String) (v : View) : Event → View → Prop
  | read {p : Party} (hphase : v.phase p = .idle) :
      Step added v (p, .get)
        ⟨v.servers, Function.update v.phase p (.afterReading (added p) v.servers)⟩
  | write {p : Party} {known : List String} (hphase : v.phase p = .holding known) :
      Step added v (p, .put)
        ⟨(added p).foldl withServer known, Function.update v.phase p .done⟩

/-- The phase of a run, as its replies tell. -/
inductive Phase.Abstracts (a : Addition) : List Reply → Phase → Prop
  | idle : Abstracts a [] .idle
  | read {response : Response} {settings : DnsSettings} (hok : response.failure? = none)
      (hdecode : Record.decode DnsSettings response.body = .ok settings) :
      Abstracts a [.answer response] (.afterReading a.servers settings.nameServers)
  | written (reply reply' : Reply) : Abstracts a [reply, reply'] .done

structure View.Abstracts (additions : Party → Addition) (s : System) (v : View) : Prop where
  settings : ∃ settings, Record.decode DnsSettings s.settings = .ok settings ∧
    settings.nameServers = v.servers
  phase : ∀ p, (v.phase p).Abstracts (additions p) (s.replies p)

variable {additions : Party → Addition} {s s' : System} {v v' : View} {e : Event} {p : Party}

/-- The replies that a run has had in a phase, as far as they matter, and what it does next. -/
def Phase.Prescribes (a : Addition) (replies : List Reply) : Phase → Prop
  | .idle => replies = [] ∧ a.operation.next? replies = some (getMessage a.client)
  | .holding known => (∃ response, replies = [.answer response]) ∧
      ∃ settings, settings.nameServers = a.servers.foldl withServer known ∧
        a.operation.next? replies = some (updateMessage a.client settings)
  | .done => a.operation.next? replies = none

theorem Phase.Abstracts.prescribes {a : Addition} {replies : List Reply} {phase : Phase}
    (h : phase.Abstracts a replies) : phase.Prescribes a replies := by
  cases h with
  | idle => exact ⟨rfl, next?_start⟩
  | @read response settings hok hdecode =>
    by_cases hknown : ∀ s ∈ a.servers, s ∈ settings.nameServers
    · rw [Phase.afterReading, if_pos hknown]
      exact next?_of_known hok hdecode hknown
    · rw [Phase.afterReading, if_neg hknown]
      exact ⟨⟨response, rfl⟩, _, rfl, next?_of_new hok hdecode hknown⟩
  | written reply reply' => exact next?_of_two reply reply'

namespace View.Abstracts

/-- A step of one run leaves the phase of the other one as it is. -/
theorem phase_update (habs : v.Abstracts additions s) {phase : Phase} {replies : List Reply}
    (h : phase.Abstracts (additions p) replies) (q : Party) :
    (Function.update v.phase p phase q).Abstracts (additions q)
      (Function.update s.replies p replies q) := by
  by_cases hq : q = p
  · subst hq
    rwa [Function.update_self, Function.update_self]
  · rw [Function.update_of_ne hq, Function.update_of_ne hq]
    exact habs.phase q

theorem read (habs : v.Abstracts additions s) {response : Response}
    (hok : response.failure? = none) (hbody : response.body = s.settings) :
    (⟨v.servers, Function.update v.phase p (.afterReading (additions p).servers v.servers)⟩ :
      View).Abstracts additions
        ⟨s.settings, Function.update s.replies p ([] ++ [.answer response])⟩ where
  settings := habs.settings
  phase := by
    obtain ⟨settings, hdecode, hservers⟩ := habs.settings
    rw [← hservers]
    exact habs.phase_update (.read hok (hbody ▸ hdecode))

theorem write (habs : v.Abstracts additions s) (client : Client) (settings : DnsSettings)
    (reply reply' : Reply) :
    (⟨settings.nameServers, Function.update v.phase p .done⟩ : View).Abstracts additions
      ⟨(updateMessage client settings).body,
        Function.update s.replies p ([reply] ++ [reply'])⟩ where
  settings := by
    have hdecode : Record.decode DnsSettings (updateMessage client settings).body =
      .ok settings.writable := decode_body_updateMessage
    exact ⟨settings.writable, hdecode, rfl⟩
  phase := habs.phase_update (.written reply reply')

/-- The runs are finished when both are done. -/
theorem isFinished_iff (habs : v.Abstracts additions s) :
    s.IsFinished additions ↔ ∀ p, v.phase p = .done := by
  refine forall_congr' fun p => ?_
  have hnext := (habs.phase p).prescribes
  cases hphase : v.phase p with
  | idle =>
    rw [hphase] at hnext
    rw [hnext.2]
    exact iff_of_false nofun nofun
  | holding known =>
    rw [hphase] at hnext
    obtain ⟨-, settings, -, hput⟩ := hnext
    rw [hput]
    exact iff_of_false nofun nofun
  | done =>
    rw [hphase] at hnext
    exact iff_of_true hnext rfl

/-- Every exchange is a step of the view. -/
theorem simulates (habs : v.Abstracts additions s) (h : s.Step additions e s') :
    ∃ v', v.Step (fun p => (additions p).servers) e v' ∧ v'.Abstracts additions s' := by
  cases h with
  | @exchange p m response settings hnext hserves =>
    have hphase := (habs.phase p).prescribes
    cases hv : v.phase p with
    | idle =>
      -- the message asks for the settings, and the answer brings those that the appliance has
      rw [hv] at hphase
      obtain ⟨hreplies, hget⟩ := hphase
      rw [hnext, Option.some.injEq] at hget
      subst hget
      cases hserves with
      | get hmethod htarget hok hbody =>
        rw [hreplies]
        exact ⟨_, .read hv, habs.read hok hbody⟩
      | put hmethod => cases hmethod
    | holding known =>
      -- the message brings what the run has read with its servers, whatever is there by now
      rw [hv] at hphase
      obtain ⟨⟨earlier, hreplies⟩, settings', hservers, hput⟩ := hphase
      rw [hnext, Option.some.injEq] at hput
      subst hput
      cases hserves with
      | get hmethod => cases hmethod
      | put hmethod htarget hok =>
        rw [hreplies]
        exact ⟨_, .write hv, hservers ▸ habs.write _ settings' _ _⟩
    | done =>
      rw [hv] at hphase
      rw [hphase] at hnext
      cases hnext

/-- Every step of the view is an exchange. -/
theorem lifts (habs : v.Abstracts additions s)
    (h : v.Step (fun p => (additions p).servers) e v') :
    ∃ s', s.Step additions e s' ∧ v'.Abstracts additions s' := by
  cases h with
  | @read p hv =>
    have hphase := (habs.phase p).prescribes
    rw [hv] at hphase
    obtain ⟨hreplies, hget⟩ := hphase
    let response : Response := ⟨⟨200, by decide, by decide⟩, ⟨[]⟩, s.settings⟩
    have hok : response.failure? = none := rfl
    have hstep := System.Step.exchange hget
      (.get method_getMessage target_getMessage hok rfl)
    rw [hreplies] at hstep
    exact ⟨_, hstep, habs.read hok rfl⟩
  | @write p known hv =>
    have hphase := (habs.phase p).prescribes
    rw [hv] at hphase
    obtain ⟨⟨earlier, hreplies⟩, settings', hservers, hput⟩ := hphase
    let response : Response := ⟨⟨200, by decide, by decide⟩, ⟨[]⟩, []⟩
    have hok : response.failure? = none := rfl
    have hstep := System.Step.exchange hput
      (.put method_updateMessage target_updateMessage hok)
    rw [hreplies] at hstep
    exact ⟨_, hstep, hservers ▸ habs.write _ settings' _ _⟩

theorem simulates_steps {start final : System} {log : List Event} (habs : v.Abstracts additions start)
    (h : Steps (System.Step additions) start log final) :
    ∃ v', Steps (View.Step fun p => (additions p).servers) v log v' ∧
      v'.Abstracts additions final := by
  induction h with
  | start => exact ⟨v, .start, habs⟩
  | snoc _ hstep ih =>
    obtain ⟨v', hsteps, habs'⟩ := ih
    obtain ⟨v'', hstep', habs''⟩ := habs'.simulates hstep
    exact ⟨v'', hsteps.snoc hstep', habs''⟩

theorem lifts_steps {start : System} {log : List Event} (habs : v.Abstracts additions start)
    (h : Steps (View.Step fun p => (additions p).servers) v log v') :
    ∃ final, Steps (System.Step additions) start log final ∧ v'.Abstracts additions final := by
  induction h with
  | start => exact ⟨start, .start, habs⟩
  | snoc _ hstep ih =>
    obtain ⟨s, hsteps, habs'⟩ := ih
    obtain ⟨s', hstep', habs''⟩ := habs'.lifts hstep
    exact ⟨s', hsteps.snoc hstep', habs''⟩

end View.Abstracts

/-- Both runs are idle at the start. -/
def View.start (servers : List String) : View := ⟨servers, fun _ => .idle⟩

theorem View.abstracts_start {settings : DnsSettings} {document : Json.Bytes}
    (h : Record.decode DnsSettings document = .ok settings) (additions : Party → Addition) :
    (View.start settings.nameServers).Abstracts additions (.start document) where
  settings := ⟨settings, h, rfl⟩
  phase _ := .idle

/-- Whatever can happen on the view can happen on an appliance. -/
theorem exists_final {additions : Party → Addition} {document : Json.Bytes} {settings : DnsSettings}
    {log : List Event} {v : View} (hdocument : Record.decode DnsSettings document = .ok settings)
    (hview : Steps (View.Step fun p => (additions p).servers) (.start settings.nameServers) log v)
    (hdone : ∀ p, v.phase p = .done) :
    ∃ final, Steps (System.Step additions) (.start document) log final ∧
      final.IsFinished additions ∧
      ∃ last, Record.decode DnsSettings final.settings = .ok last ∧
        last.nameServers = v.servers := by
  obtain ⟨final, hsteps, habs⟩ := (View.abstracts_start hdocument additions).lifts_steps hview
  exact ⟨final, hsteps, habs.isFinished_iff.mpr hdone, habs.settings⟩

end ApplianceRest.DnsSettings
