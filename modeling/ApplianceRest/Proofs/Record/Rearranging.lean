import ApplianceRest.Proofs.Record.Denotation
import ApplianceRest.Proofs.Record.Passing
import ApplianceRest.Resource.Collection
import ApplianceRest.Resource.RouteDomain
import Mathlib.Data.List.Nodup
import Mathlib.Data.List.Perm.Basic

/-!
# The order of members does not matter, and nor do unknown ones

A text is decoded as the same value when the members of its objects are put in another order and
members that nobody knows are put among them, at every depth to which the type looks
(`decode_rearranged`). In a dictionary every key is known, so there the members are only reordered,
and each key has to be there once.
-/

namespace ApplianceRest.Record

open Json (Bytes Written Key Quoted)
open Json.Reader

/-! ## Rearrangements -/

/-- A member of one object and a member of another one are under one key, and `R` relates their
values. -/
def MembersRelated (R : String → Written → Written → Prop) (m m' : Key × Written) : Prop :=
  ∃ key, m.1.body.text? = some key ∧ m'.1.body.text? = some key ∧ R key m.2 m'.2

/-- The members of an object are those of another one in another order, their values related by `R`,
with some more put among them whose keys are none of `keys`. -/
def RearrangedAmong (R : String → Written → Written → Prop) (keys : List String)
    (ms ms' : List (Key × Written)) : Prop :=
  ∃ mid added, List.Forall₂ (MembersRelated R) ms mid ∧ (mid ++ added).Perm ms' ∧
    ∀ m ∈ added, ∃ key, m.1.body.text? = some key ∧ key ∉ keys

mutual

/-- A value as it is written is another one with the members of its objects rearranged, as far down
as a shape looks into it. -/
def Shape.Rearranges : (shape : Shape) → Written → Written → Prop
  | .text, s, t => s.token = t.token
  | .flag, s, t => s.token = t.token
  | .word _, s, t => s.token = t.token
  | .optional content, s, t => s.token = t.token ∨
      (s.atom? ≠ some .null ∧ t.atom? ≠ some .null ∧ content.Rearranges s t)
  | .list item, s, t => s.token = t.token ∨
      (∃ ws ws', s.items? = some ws ∧ t.items? = some ws' ∧ List.Forall₂ item.Rearranges ws ws')
  | .dict item, s, t => s.token = t.token ∨
      (∃ ms mid ms', s.members? = some ms ∧ t.members? = some ms' ∧
        (ms.map fun m => m.1.body.text?).Nodup ∧
        List.Forall₂ (MembersRelated fun _ => item.Rearranges) ms mid ∧ mid.Perm ms')
  | .record _ fields, s, t => s.token = t.token ∨
      (∃ ws ws', s.items? = some ws ∧ t.items? = some ws' ∧ fields.RearrangesItems ws ws') ∨
      (∃ ms ms', s.members? = some ms ∧ t.members? = some ms' ∧
        RearrangedAmong fields.RearrangesAt fields.keys ms ms')

/-- The items of a list of fields are those of another one, each rearranged. -/
def Fields.RearrangesItems : (fields : Fields) → List Written → List Written → Prop
  | .nil, ws, ws' => ws = [] ∧ ws' = []
  | .cons _ _ _ _, [], ws' => ws' = []
  | .cons _ _ content rest, w :: ws, ws' =>
    ∃ w' ws'', ws' = w' :: ws'' ∧ content.Rearranges w w' ∧ rest.RearrangesItems ws ws''

/-- The value under a key is another one rearranged as far as the field with the key looks into it;
under a key of no field it may be any. -/
def Fields.RearrangesAt : (fields : Fields) → String → Written → Written → Prop
  | .nil, _, _, _ => True
  | .cons field _ content rest, key, s, t =>
    if key = field then content.Rearranges s t else rest.RearrangesAt key s t

end

/-! ## Tokens, items and members -/

variable {s t : Written} {ms ms' mid added : List (Key × Written)}
  {R R' : String → Written → Written → Prop}

/-- What a value denotes is a matter of its token. -/
theorem Shape.denotes_of_token {shape : Shape} {x : shape.Carrier} (htoken : s.token = t.token)
    (h : shape.Denotes s x) : shape.Denotes t x := by
  -- a reader of the shape finds what the value denotes, and it is given the token only
  have hs : skipBlank s.token = s.token ++ [] := by
    have hskip := Json.skipBlank_token s []
    rwa [List.append_nil] at hskip ⊢
  have hread := (((shape.isReadAs s).gives_iff hs Json.ends_nil).mpr ⟨rfl, h⟩)
  rw [htoken] at hs
  rw [htoken] at hread
  exact (((shape.isReadAs t).gives_iff hs Json.ends_nil).mp hread).2

theorem forall₂_denotes {item : Shape} {ws ws' : List Written} {xs : List item.Carrier}
    (hitem : ∀ {s t x}, item.Rearranges s t → item.Denotes s x → item.Denotes t x)
    (h : List.Forall₂ item.Rearranges ws ws') (hws : List.Forall₂ item.Denotes ws xs) :
    List.Forall₂ item.Denotes ws' xs := by
  induction h generalizing xs with
  | nil => exact hws
  | cons hhead _ ih =>
    cases hws with
    | cons hx hxs => exact List.Forall₂.cons (hitem hhead hx) (ih hxs)

theorem forall₂_own {key : String} (h : List.Forall₂ (MembersRelated R) ms mid) :
    List.Forall₂ (fun m m' => R key m.2 m'.2) (own key ms) (own key mid) := by
  induction h with
  | nil => exact List.Forall₂.nil
  | @cons m m' ms mid hhead _ ih =>
    rcases hhead with ⟨k, hm, hm', hR⟩
    unfold own at ih ⊢
    by_cases hk : k = key
    · subst hk
      rw [List.filter_cons_of_pos (by simpa using hm), List.filter_cons_of_pos (by simpa using hm')]
      exact List.Forall₂.cons hR ih
    · rw [List.filter_cons_of_neg (by simpa [hm] using hk),
        List.filter_cons_of_neg (by simpa [hm'] using hk)]
      exact ih

theorem forall₂_others {key : String} (hR : ∀ {k s t}, k ≠ key → R k s t → R' k s t)
    (h : List.Forall₂ (MembersRelated R) ms mid) :
    List.Forall₂ (MembersRelated R') (others key ms) (others key mid) := by
  induction h with
  | nil => exact List.Forall₂.nil
  | @cons m m' ms mid hhead _ ih =>
    rcases hhead with ⟨k, hm, hm', hvalue⟩
    unfold others at ih ⊢
    by_cases hk : k = key
    · rw [List.filter_cons_of_neg (by simpa [hm] using hk),
        List.filter_cons_of_neg (by simpa [hm'] using hk)]
      exact ih
    · rw [List.filter_cons_of_pos (by simpa [hm] using hk),
        List.filter_cons_of_pos (by simpa [hm'] using hk)]
      exact List.Forall₂.cons ⟨k, hm, hm', hR hk hvalue⟩ ih

/-- No member whose key is unknown is under a known key. -/
theorem own_eq_nil {key : String} {keys : List String} (hkey : key ∈ keys)
    (h : ∀ m ∈ added, ∃ k, m.1.body.text? = some k ∧ k ∉ keys) : own key added = [] := by
  unfold own
  rw [List.filter_eq_nil_iff]
  intro m hm hown
  rcases h m hm with ⟨k, hk, hnot⟩
  have hsame : m.1.body.text? = some key := by simpa using hown
  cases hk.symm.trans hsame
  exact hnot hkey

/-! ## Dictionaries -/

/-- Puts entries into a dictionary one after another. -/
def insertAll {α : Type} (d : Dict α) (entries : List (String × α)) : Dict α :=
  entries.foldl (fun d e => d.insert e.1 e.2) d

/-- The order of entries does not matter where each key is there once. -/
theorem insertAll_perm {α : Type} {entries entries' : List (String × α)}
    (hkeys : (entries.map (·.1)).Nodup) (hperm : entries.Perm entries') (d : Dict α) :
    insertAll d entries = insertAll d entries' := by
  apply hperm.foldl_eq'
  intro e he e' he' d'
  by_cases hkey : e.1 = e'.1
  · rw [List.inj_on_of_nodup_map hkeys he he' hkey]
  · exact (d'.insert_comm hkey e.2 e'.2)

/-- A member is an entry of a dictionary. -/
def Shape.DenotesEntry (item : Shape) (m : Key × Written) (e : String × item.Carrier) : Prop :=
  m.1.body.text? = some e.1 ∧ item.Denotes m.2 e.2

theorem runs_insert_iff {item : Shape} {known d : Dict item.Carrier} :
    Runs (fun key w known next => ∃ x, item.Denotes w x ∧ next = known.insert key x) ms known d ↔
      ∃ entries, List.Forall₂ item.DenotesEntry ms entries ∧ d = insertAll known entries := by
  induction ms generalizing known with
  | nil =>
    constructor
    · rintro rfl
      exact ⟨[], List.Forall₂.nil, rfl⟩
    · rintro ⟨entries, h, rfl⟩
      cases h
      rfl
  | cons m ms ih =>
    constructor
    · rintro ⟨key, next, hkey, ⟨x, hx, rfl⟩, hruns⟩
      rcases ih.mp hruns with ⟨entries, hentries, rfl⟩
      exact ⟨(key, x) :: entries, List.Forall₂.cons ⟨hkey, hx⟩ hentries, rfl⟩
    · rintro ⟨entries, h, rfl⟩
      cases h with
      | @cons _ e _ entries he hentries =>
        exact ⟨e.1, known.insert e.1 e.2, he.1, ⟨e.2, he.2, rfl⟩, ih.mpr ⟨entries, hentries, rfl⟩⟩

theorem forall₂_entries {item : Shape} {entries : List (String × item.Carrier)}
    (hitem : ∀ {s t x}, item.Rearranges s t → item.Denotes s x → item.Denotes t x)
    (h : List.Forall₂ (MembersRelated fun _ => item.Rearranges) ms mid)
    (hentries : List.Forall₂ item.DenotesEntry ms entries) :
    List.Forall₂ item.DenotesEntry mid entries := by
  induction h generalizing entries with
  | nil => exact hentries
  | @cons m m' ms mid hhead _ ih =>
    cases hentries with
    | cons he hes =>
      rcases hhead with ⟨key, hm, hm', hvalue⟩
      cases hm.symm.trans he.1
      exact List.Forall₂.cons ⟨hm', hitem hvalue he.2⟩ (ih hes)

/-- The keys of the entries are those of the members. -/
theorem map_text?_of_entries {item : Shape} {entries : List (String × item.Carrier)}
    (h : List.Forall₂ item.DenotesEntry ms entries) :
    ms.map (fun m => m.1.body.text?) = (entries.map (·.1)).map some := by
  induction h with
  | nil => rfl
  | cons he _ ih => rw [List.map_cons, List.map_cons, List.map_cons, he.1, ih]

/-- A dictionary is the same whatever the order of its members, each of which is there once. -/
theorem runs_insert_of_rearranged {item : Shape} {d : Dict item.Carrier}
    (hitem : ∀ {s t x}, item.Rearranges s t → item.Denotes s x → item.Denotes t x)
    (hkeys : (ms.map fun m => m.1.body.text?).Nodup)
    (hmid : List.Forall₂ (MembersRelated fun _ => item.Rearranges) ms mid) (hperm : mid.Perm ms')
    (h : Runs (fun key w known next => ∃ x, item.Denotes w x ∧ next = known.insert key x)
      ms .empty d) :
    Runs (fun key w known next => ∃ x, item.Denotes w x ∧ next = known.insert key x)
      ms' .empty d := by
  rcases runs_insert_iff.mp h with ⟨entries, hentries, rfl⟩
  -- the entries are put in order along with the members that they are
  rcases List.perm_comp_forall₂ hperm.symm (forall₂_entries hitem hmid hentries)
    with ⟨entries', hentries', hperm'⟩
  rw [map_text?_of_entries hentries] at hkeys
  exact runs_insert_iff.mpr
    ⟨entries', hentries', insertAll_perm (hkeys.of_map some) hperm'.symm .empty⟩

/-! ## Records -/

/-- What a field holds does not change with the order of the members. -/
theorem Role.holds_of_rearranged {role : Role} {content : Shape} {x : content.Carrier}
    (hcontent : ∀ {s t x}, content.Rearranges s t → content.Denotes s x → content.Denotes t x)
    (hmid : List.Forall₂ (fun m m' : Key × Written => content.Rearranges m.2 m'.2) ms mid)
    (hperm : mid.Perm ms') (h : role.Holds content.default content.Denotes ms x) :
    role.Holds content.default content.Denotes ms' x := by
  match ms, hmid, h with
  | [], .nil, h =>
    rw [hperm.nil_eq] at h
    exact h
  | [m], .cons hvalue .nil, h =>
    rw [List.perm_singleton.mp hperm.symm]
    exact hcontent hvalue h
  | _ :: _ :: _, _, h =>
    -- two members under one key are refused
    cases h

theorem RearrangedAmong.own_perm {keys : List String} {key : String} (hkey : key ∈ keys)
    (h : RearrangedAmong R keys ms ms') :
    ∃ mid, List.Forall₂ (fun m m' => R key m.2 m'.2) (own key ms) mid ∧ mid.Perm (own key ms') := by
  rcases h with ⟨mid, added, hmid, hperm, hadded⟩
  have hown := hperm.filter fun m => m.1.body.text? = some key
  rw [List.filter_append] at hown
  refine ⟨own key mid, forall₂_own hmid, ?_⟩
  have hnil := own_eq_nil hkey hadded
  unfold own at hnil ⊢
  rwa [hnil, List.append_nil] at hown

theorem RearrangedAmong.others {keys : List String} {key : String}
    (hR : ∀ {k s t}, k ≠ key → R k s t → R' k s t) (h : RearrangedAmong R (key :: keys) ms ms') :
    RearrangedAmong R' keys (others key ms) (others key ms') := by
  rcases h with ⟨mid, added, hmid, hperm, hadded⟩
  refine ⟨Record.others key mid, Record.others key added, forall₂_others hR hmid, ?_, ?_⟩
  · have hothers := hperm.filter fun m => ¬m.1.body.text? = some key
    rwa [List.filter_append] at hothers
  · intro m hm
    rcases hadded m (List.mem_of_mem_filter hm) with ⟨k, hk, hnot⟩
    exact ⟨k, hk, fun hmem => hnot (List.mem_cons_of_mem key hmem)⟩

theorem holds_nil_of_rearranged {keys : List String} (h : RearrangedAmong R keys ms ms') :
    ∀ m ∈ ms', m.1.body.text?.isSome := by
  rcases h with ⟨mid, added, hmid, hperm, hadded⟩
  intro m hm
  rcases List.mem_append.mp (hperm.mem_iff.mpr hm) with hm | hm
  · have hright : ∀ m ∈ mid, m.1.body.text?.isSome := by
      clear hperm hm
      induction hmid with
      | nil => exact List.forall_mem_nil _
      | cons hhead _ ih =>
        rcases hhead with ⟨key, -, hkey, -⟩
        rw [List.forall_mem_cons, hkey]
        exact ⟨rfl, ih⟩
    exact hright m hm
  · rcases hadded m hm with ⟨key, hkey, -⟩
    rw [hkey]
    rfl

mutual

/-- A value that is rearranged denotes what it did before. -/
theorem Shape.denotes_of_rearranges : (shape : Shape) → {s t : Written} → {x : shape.Carrier} →
    shape.Rearranges s t → shape.Denotes s x → shape.Denotes t x
  | .text, _, _, _, htoken, h => Shape.denotes_of_token htoken h
  | .flag, _, _, _, htoken, h => Shape.denotes_of_token htoken h
  | .word _, _, _, _, htoken, h => Shape.denotes_of_token htoken h
  | .optional content, s, t, x, hrearranges, h => by
    rcases hrearranges with htoken | ⟨hs, ht, hcontent⟩
    · exact Shape.denotes_of_token htoken h
    · rcases h with ⟨-, hnull⟩ | ⟨-, y, rfl, hy⟩
      · exact absurd hnull hs
      · exact Or.inr ⟨ht, y, rfl, content.denotes_of_rearranges hcontent hy⟩
  | .list item, s, t, xs, hrearranges, h => by
    rcases hrearranges with htoken | ⟨ws, ws', hs, ht, hws⟩
    · exact Shape.denotes_of_token htoken h
    · rcases h with ⟨ws₁, hws₁, hxs⟩
      cases hs.symm.trans hws₁
      exact ⟨ws', ht, forall₂_denotes item.denotes_of_rearranges hws hxs⟩
  | .dict item, s, t, d, hrearranges, h => by
    rcases hrearranges with htoken | ⟨ms, mid, ms', hs, ht, hkeys, hmid, hperm⟩
    · exact Shape.denotes_of_token htoken h
    · rcases h with ⟨ms₁, hms₁, hruns⟩
      cases hs.symm.trans hms₁
      exact ⟨ms', ht, runs_insert_of_rearranged item.denotes_of_rearranges hkeys hmid hperm hruns⟩
  | .record name fields, s, t, values, hrearranges, h => by
    rcases hrearranges with htoken | ⟨ws, ws', hs, ht, hws⟩ | ⟨ms, ms', hs, ht, hms⟩
    · exact Shape.denotes_of_token htoken h
    · rcases h with ⟨ws₁, hws₁, hitems⟩ | ⟨ms₁, hms₁, -⟩
      · cases hs.symm.trans hws₁
        exact Or.inl ⟨ws', ht, fields.denotesItems_of_rearranges hws hitems⟩
      · cases s <;> simp [Written.items?, Written.members?] at hs hms₁
    · rcases h with ⟨ws₁, hws₁, -⟩ | ⟨ms₁, hms₁, hholds⟩
      · cases s <;> simp [Written.items?, Written.members?] at hs hws₁
      · cases hs.symm.trans hms₁
        exact Or.inr ⟨ms', ht, fields.holds_of_rearranged hms hholds⟩

theorem Fields.denotesItems_of_rearranges : (fields : Fields) → {ws ws' : List Written} →
    {values : fields.Carrier} → fields.RearrangesItems ws ws' → fields.DenotesItems ws values →
    fields.DenotesItems ws' values
  | .nil, _, _, (), hws, _ => hws.2
  | .cons _ _ _ _, [], _, (_, _), rfl, h => h
  | .cons _ _ content rest, _ :: _, _, (_, _), ⟨_, _, rfl, hw, hws⟩, h =>
    ⟨content.denotes_of_rearranges hw h.1, rest.denotesItems_of_rearranges hws h.2⟩

/-- The fields of an object are those that they were before its members were rearranged. -/
theorem Fields.holds_of_rearranged : (fields : Fields) → {ms ms' : List (Key × Written)} →
    {values : fields.Carrier} → RearrangedAmong fields.RearrangesAt fields.keys ms ms' →
    fields.Holds ms values → fields.Holds ms' values
  | .nil, _, _, (), hms, _ => holds_nil_of_rearranged hms
  | .cons field role content rest, ms, ms', (x, values), hms, h => by
    rcases hms.own_perm List.mem_cons_self with ⟨mid, hmid, hperm⟩
    simp only [Fields.RearrangesAt, if_pos] at hmid
    have hothers : RearrangedAmong rest.RearrangesAt rest.keys (others field ms)
        (others field ms') := by
      refine hms.others fun {k s t} hk hvalue => ?_
      rwa [Fields.RearrangesAt, if_neg hk] at hvalue
    exact ⟨Role.holds_of_rearranged content.denotes_of_rearranges hmid hperm h.1,
      rest.holds_of_rearranged hothers h.2⟩

end

/-- Left as it is, a value is rearranged too. -/
theorem Shape.rearranges_self (shape : Shape) (w : Written) : shape.Rearranges w w := by
  cases shape with
  | text => rfl
  | flag => rfl
  | word _ => rfl
  | optional _ => exact Or.inl rfl
  | list _ => exact Or.inl rfl
  | dict _ => exact Or.inl rfl
  | record _ _ => exact Or.inl rfl

/-! ## Texts -/

/-- A text that is decoded is some value as it is written. When the members of its objects are put
in another order, at any depth, and others that nobody knows are put among them, the text is decoded
as the same value. -/
theorem decode_rearranged {α : Type} [Wire α] {s : Bytes} {v : α} (h : decode α s = .ok v) :
    (∃ w : Written, w.bytes = s) ∧
      ∀ w t : Written, w.bytes = s → (Wire.shape α).Rearranges w t →
        decode α t.bytes = .ok v := by
  refine ⟨exists_bytes_of_decode h, fun w t hw hrearranges => ?_⟩
  rw [← hw, decode_eq_ok_iff] at h
  exact decode_eq_ok_iff.mpr ((Wire.shape α).denotes_of_rearranges hrearranges h)

/-! A collection with one link in it: as it is, and with members in another order and unknown ones
among them in the collection and in the link. -/

/-- A string without escapes. -/
def plainText (cs : List Char) (h : (Text.bytes cs).all (IsPlainByte ·) = true) : Quoted :=
  .plain (Text.bytes cs) (by simpa using h)

def plainKey (cs : List Char) (h : (Text.bytes cs).all (IsPlainByte ·) = true) : Key :=
  ⟨.none, plainText cs h, .none⟩

def plainValue (cs : List Char) (h : (Text.bytes cs).all (IsPlainByte ·) = true) : Written :=
  .atom .none (.string (plainText cs h)) .none

def kindMember : Key × Written :=
  (plainKey ['k', 'i', 'n', 'd'] (by decide), plainValue ['p', 'l', 'a', 'i', 'n'] (by decide))

def linkMember : Key × Written :=
  (plainKey ['l', 'i', 'n', 'k'] (by decide), plainValue ['a'] (by decide))

def itemsMember (members : List (Key × Written)) : Key × Written :=
  (plainKey ['i', 't', 'e', 'm', 's'] (by decide),
    .list .none [.object .none members .none .none] .none .none)

def unknownMember : Key × Written :=
  (plainKey ['x'] (by decide), .list .none [.object .none [] .none .none] .none .none)

/-- The text `{"kind":"plain","items":[{"link":"a"}]}`. -/
def linksAsListed : Written :=
  .object .none [kindMember, itemsMember [linkMember]] .none .none

/-- The text `{"x":[{}],"items":[{"x":[{}],"link":"a"}],"kind":"plain"}`. -/
def linksRearranged : Written :=
  .object .none [unknownMember, itemsMember [unknownMember, linkMember], kindMember] .none .none

theorem text?_plainKey {cs : List Char} {h : (Text.bytes cs).all (IsPlainByte ·) = true} :
    (plainKey cs h).body.text? = some (String.ofList cs) :=
  Json.Quoted.text?_plain cs _

theorem denotes_plainValue {cs : List Char} {h : (Text.bytes cs).all (IsPlainByte ·) = true} :
    Shape.text.Denotes (plainValue cs h) (String.ofList cs) :=
  ⟨_, rfl, Json.Quoted.text?_plain cs _⟩

theorem decode_linksAsListed :
    decode (Collection Reference) linksAsListed.bytes = .ok ⟨"plain", "", [⟨"a"⟩]⟩ := by
  have hlink : Reference.fields.Holds [linkMember] ("a", ()) := by
    simpa [Reference.fields, Fields.Holds, own, others, linkMember, text?_plainKey, Role.Holds]
      using denotes_plainValue
  rw [decode_eq_ok_iff]
  have hitems : (Shape.list (Wire.shape Reference)).Denotes (itemsMember [linkMember]).2
      [("a", ())] :=
    ⟨_, rfl, List.Forall₂.cons (Or.inr ⟨_, rfl, hlink⟩) List.Forall₂.nil⟩
  have hmembers : (Collection.fields Reference).Holds [kindMember, itemsMember [linkMember]]
      ("plain", "", [("a", ())], ()) := by
    simpa [Collection.fields, Fields.Holds, own, others, kindMember, itemsMember, text?_plainKey,
      Role.Holds, Role.mayBeMissing, Shape.default] using ⟨denotes_plainValue, hitems⟩
  exact Or.inr ⟨_, rfl, hmembers⟩

theorem rearranges_links :
    (Wire.shape (Collection Reference)).Rearranges linksAsListed linksRearranged := by
  have hunknown : ∀ {keys : List String}, "x" ∉ keys → ∀ m ∈ [unknownMember],
      ∃ key, m.1.body.text? = some key ∧ key ∉ keys := by
    intro keys hx m hm
    rw [List.mem_singleton.mp hm]
    exact ⟨"x", text?_plainKey, hx⟩
  have hlink : (Shape.record "Reference" Reference.fields).Rearranges
      (.object .none [linkMember] .none .none)
      (.object .none [unknownMember, linkMember] .none .none) := by
    refine Or.inr (Or.inr ⟨_, _, rfl, rfl, [linkMember], [unknownMember],
      List.Forall₂.cons ⟨"link", text?_plainKey, text?_plainKey, ?_⟩ List.Forall₂.nil,
      List.Perm.swap _ _ _, hunknown (by decide)⟩)
    exact Shape.rearranges_self .text _
  refine Or.inr (Or.inr ⟨_, _, rfl, rfl,
    [kindMember, itemsMember [unknownMember, linkMember]], [unknownMember],
    List.Forall₂.cons ⟨"kind", text?_plainKey, text?_plainKey, ?_⟩
      (List.Forall₂.cons ⟨"items", text?_plainKey, text?_plainKey, ?_⟩ List.Forall₂.nil),
    List.reverse_perm [unknownMember, itemsMember [unknownMember, linkMember], kindMember],
    hunknown (by decide)⟩)
  · exact Shape.rearranges_self .text _
  · exact Or.inr ⟨_, _, rfl, rfl, List.Forall₂.cons hlink List.Forall₂.nil⟩

theorem decode_rearranged_links :
    decode (Collection Reference) linksAsListed.bytes = .ok ⟨"plain", "", [⟨"a"⟩]⟩ ∧
      decode (Collection Reference) linksRearranged.bytes = .ok ⟨"plain", "", [⟨"a"⟩]⟩ :=
  ⟨decode_linksAsListed,
    (decode_rearranged decode_linksAsListed).2 linksAsListed linksRearranged rfl rearranges_links⟩

end ApplianceRest.Record
