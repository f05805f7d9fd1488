import ApplianceRest.Proofs.Json.Meaning
import ApplianceRest.Proofs.Record.Members

/-!
# What a written value denotes

What a value that is written is decoded as, said without reading it (`Shape.Denotes`): an object
denotes a record if under the key of each field it has at most one member, if that member denotes
what the record holds, and if the field may be missing where there is none; what else stands in the
object, and where, does not matter. A text is decoded as just that (`decode_eq_ok_iff`).
-/

namespace ApplianceRest.Record

open Json (Bytes Gives Written Key Ends ends_blanks ends_restItems skipBlank_token not_gives_error)
open Json.Reader

variable {s r rest : Bytes} {w : Written} {ms : List (Key × Written)}

/-! ## Members by key -/

/-- The members of an object under a key. -/
def own (key : String) (ms : List (Key × Written)) : List (Key × Written) :=
  ms.filter fun m => m.1.body.text? = some key

/-- The members of an object that are not under a key. -/
def others (key : String) (ms : List (Key × Written)) : List (Key × Written) :=
  ms.filter fun m => ¬m.1.body.text? = some key

theorem own_others {key other : String} (hne : key ≠ other) :
    own key (others other ms) = own key ms := by
  unfold own others
  rw [List.filter_filter]
  apply List.filter_congr
  intro m _
  by_cases hkey : m.1.body.text? = some key <;> simp [hkey, hne]

/-- Members that are under one key have texts as keys, so only the others are left to look at. -/
theorem forall_mem_others_iff {key : String} :
    (∀ m ∈ others key ms, m.1.body.text?.isSome) ↔ ∀ m ∈ ms, m.1.body.text?.isSome := by
  unfold others
  constructor
  · intro h m hm
    by_cases hkey : m.1.body.text? = some key
    · exact Option.isSome_of_eq_some hkey
    · exact h m (List.mem_filter.mpr ⟨hm, by simpa using hkey⟩)
  · intro h m hm
    exact h m (List.mem_of_mem_filter hm)

/-- What a field holds that has some members of an object under its key: what the member denotes if
there is one, and its default if there is none and it may be missing. -/
def Role.Holds (role : Role) {α : Type} (default : α) (Denotes : Written → α → Prop) :
    List (Key × Written) → α → Prop
  | [], x => role.mayBeMissing = true ∧ x = default
  | [m], x => Denotes m.2 x
  | _ :: _ :: _, _ => False

mutual

/-- A value as it is written denotes a value of a shape. -/
def Shape.Denotes : (shape : Shape) → Written → shape.Carrier → Prop
  | .text, w, x => ∃ body, w.atom? = some (.string body) ∧ body.text? = some x
  | .flag, w, x => w.atom? = some (.boolean x)
  | .word word, w, x =>
    ∃ n i, w.atom? = some (.number n) ∧ n.value? = some (.whole i) ∧ word.ofInt? i = some x
  | .optional content, w, x =>
    (x = none ∧ w.atom? = some .null) ∨
      (w.atom? ≠ some .null ∧ ∃ y, x = some y ∧ content.Denotes w y)
  | .list item, w, xs => ∃ ws, w.items? = some ws ∧ List.Forall₂ item.Denotes ws xs
  | .dict item, w, d => ∃ ms, w.members? = some ms ∧
      Runs (fun key w known next => ∃ x, item.Denotes w x ∧ next = known.insert key x) ms .empty d
  | .record _ fields, w, values =>
    (∃ ws, w.items? = some ws ∧ fields.DenotesItems ws values) ∨
      (∃ ms, w.members? = some ms ∧ fields.Holds ms values)

/-- The items of a list are the fields of a record in order, but for some at the end that may be
missing there. -/
def Fields.DenotesItems : (fields : Fields) → List Written → fields.Carrier → Prop
  | .nil, ws, () => ws = []
  | .cons _ role content rest, [], (x, values) =>
    role.mayEndList = true ∧ x = content.default ∧ rest.DenotesItems [] values
  | .cons _ _ content rest, w :: ws, (x, values) =>
    content.Denotes w x ∧ rest.DenotesItems ws values

/-- The members of an object, whose keys are texts, are the fields of a record under their keys,
but for some that may be missing, and others under other keys. -/
def Fields.Holds : (fields : Fields) → List (Key × Written) → fields.Carrier → Prop
  | .nil, ms, () => ∀ m ∈ ms, m.1.body.text?.isSome
  | .cons key role content rest, ms, (x, values) =>
    role.Holds content.default content.Denotes (own key ms) x ∧
      rest.Holds (others key ms) values

end

/-! ## Members are read into slots -/

/-- A member fills a slot that was empty with what its value denotes. -/
def Shape.FillsSlot (content : Shape) (_key : String) (w : Written)
    (slot slot' : Option content.Carrier) : Prop :=
  slot = none ∧ ∃ x, content.Denotes w x ∧ slot' = some x

/-- What a member under a key makes of the slots of some fields: it fills the one of the first field
with its key, and if there is none it is passed over. -/
def Fields.Takes : (fields : Fields) → String → Written → fields.Slots → fields.Slots → Prop
  | .nil, _, _, (), () => True
  | .cons field _ content rest, key, w, (slot, slots), (slot', slots') =>
    if key = field then content.FillsSlot key w slot slot' ∧ slots' = slots
    else slot' = slot ∧ rest.Takes key w slots slots'

theorem isReadAs_skip (w : Written) : IsReadAs skip w fun _ => True := by
  constructor
  intro s r x rest hs hr
  have hskip := Json.gives_skip_written w hs hr
  constructor
  · intro h
    exact ⟨(h.unique hskip).2, trivial⟩
  · rintro ⟨rfl, -⟩
    exact hskip

/-- The members of an object under the key of a field fill its slot, and the others are read as if
there were no such field. -/
theorem Fields.runs_cons_iff {field : String} {role : Role} {content : Shape} {fields : Fields}
    {slot slot' : Option content.Carrier} {slots slots' : fields.Slots} :
    Runs (Fields.cons field role content fields).Takes ms (slot, slots) (slot', slots') ↔
      Runs content.FillsSlot (own field ms) slot slot' ∧
        Runs fields.Takes (others field ms) slots slots' := by
  induction ms generalizing slot slots with
  | nil => exact Prod.mk.injEq _ _ _ _ ▸ Iff.rfl
  | cons m ms ih =>
    rcases m with ⟨k, w⟩
    -- the member goes to one side: into the slot of the field, or on to the other fields
    by_cases hkey : k.body.text? = some field
    · have hown : own field ((k, w) :: ms) = (k, w) :: own field ms := by simp [own, hkey]
      have hothers : others field ((k, w) :: ms) = others field ms := by simp [others, hkey]
      rw [hown, hothers]
      constructor
      · rintro ⟨key, ⟨slot₁, slots₁⟩, hk, htakes, hruns⟩
        cases hk.symm.trans hkey
        rw [Fields.Takes, if_pos rfl] at htakes
        rcases htakes with ⟨hfills, rfl⟩
        rcases ih.mp hruns with ⟨hfirst, hrest⟩
        exact ⟨⟨field, slot₁, hkey, hfills, hfirst⟩, hrest⟩
      · rintro ⟨⟨key, slot₁, hk, hfills, hfirst⟩, hrest⟩
        refine ⟨field, (slot₁, slots), hkey, ?_, ih.mpr ⟨hfirst, hrest⟩⟩
        rw [Fields.Takes, if_pos rfl]
        exact ⟨hfills, rfl⟩
    · have hown : own field ((k, w) :: ms) = own field ms := by simp [own, hkey]
      have hothers : others field ((k, w) :: ms) = (k, w) :: others field ms := by
        simp [others, hkey]
      rw [hown, hothers]
      constructor
      · rintro ⟨key, ⟨slot₁, slots₁⟩, hk, htakes, hruns⟩
        have hne : key ≠ field := by
          rintro rfl
          exact hkey hk
        rw [Fields.Takes, if_neg hne] at htakes
        rcases htakes with ⟨rfl, htakes⟩
        rcases ih.mp hruns with ⟨hfirst, hrest⟩
        exact ⟨hfirst, key, slots₁, hk, htakes, hrest⟩
      · rintro ⟨hfirst, key, slots₁, hk, htakes, hrest⟩
        have hne : key ≠ field := by
          rintro rfl
          exact hkey hk
        refine ⟨key, (slot, slots₁), hk, ?_, ih.mpr ⟨hfirst, hrest⟩⟩
        rw [Fields.Takes, if_neg hne]
        exact ⟨rfl, htakes⟩

theorem Fields.runs_nil_iff :
    Runs Fields.nil.Takes ms () () ↔ ∀ m ∈ ms, m.1.body.text?.isSome := by
  induction ms with
  | nil => exact iff_of_true rfl (List.forall_mem_nil _)
  | cons m ms ih =>
    rw [List.forall_mem_cons, ← ih, Option.isSome_iff_exists]
    constructor
    · rintro ⟨key, next, hk, -, hruns⟩
      exact ⟨⟨key, hk⟩, hruns⟩
    · rintro ⟨⟨key, hk⟩, hruns⟩
      exact ⟨key, (), hk, trivial, hruns⟩

/-- What becomes of the slot of a field that the members under its key have filled. -/
theorem Role.holds_iff {role : Role} {content : Shape} {key : String} {x : content.Carrier}
    (hms : ∀ m ∈ ms, m.1.body.text? = some key) :
    role.Holds content.default content.Denotes ms x ↔
      ∃ slot, Runs content.FillsSlot ms none slot ∧
        (slot = some x ∨ slot = none ∧ role.mayBeMissing = true ∧ x = content.default) := by
  match ms, hms with
  | [], _ =>
    constructor
    · intro h
      exact ⟨none, rfl, Or.inr ⟨rfl, h⟩⟩
    · rintro ⟨slot, rfl, hslot | ⟨-, h⟩⟩
      · cases hslot
      · exact h
  | [(k, w)], hms =>
    constructor
    · intro h
      exact ⟨some x, ⟨key, some x, hms _ List.mem_cons_self, ⟨rfl, x, h, rfl⟩, rfl⟩, Or.inl rfl⟩
    · rintro ⟨slot, ⟨_, next, _, ⟨-, y, hy, rfl⟩, rfl⟩, hslot | ⟨hslot, -⟩⟩
      · cases hslot
        exact hy
      · cases hslot
  | (k, w) :: (k', w') :: ms, _ =>
    -- the first of them has filled the slot, and then the second one may not
    constructor
    · intro h
      cases h
    · rintro ⟨slot, ⟨_, next, _, ⟨-, y, hy, rfl⟩, _, next', _, ⟨hfilled, -⟩, -⟩, -⟩
      cases hfilled

/-- The members of an object are the fields of a record just where they fill slots from which the
record can be made. -/
theorem Fields.holds_iff : (fields : Fields) → {ms : List (Key × Written)} →
    {values : fields.Carrier} → (fields.Holds ms values ↔
      ∃ slots, Runs fields.Takes ms fields.noSlots slots ∧ fields.fromSlots slots = .ok values)
  | .nil, ms, () => by
    rw [Fields.Holds, ← Fields.runs_nil_iff]
    constructor
    · intro h
      exact ⟨(), h, rfl⟩
    · rintro ⟨slots, h, -⟩
      exact h
  | .cons field role content fields, ms, (x, values) => by
    have hown : ∀ m ∈ own field ms, m.1.body.text? = some field := by
      intro m hm
      simpa [own] using List.of_mem_filter hm
    rw [Fields.Holds, Role.holds_iff hown, fields.holds_iff]
    constructor
    · rintro ⟨⟨slot, hfirst, hslot⟩, slots, hrest, hvalues⟩
      exact ⟨(slot, slots), Fields.runs_cons_iff.mpr ⟨hfirst, hrest⟩,
        Fields.fromSlots_cons_eq_ok.mpr ⟨hslot, hvalues⟩⟩
    · rintro ⟨⟨slot, slots⟩, hruns, hvalues⟩
      rcases Fields.runs_cons_iff.mp hruns with ⟨hfirst, hrest⟩
      rcases Fields.fromSlots_cons_eq_ok.mp hvalues with ⟨hslot, hvalues⟩
      exact ⟨⟨slot, hfirst, hslot⟩, slots, hrest, hvalues⟩

/-! ## Fields from a list -/

/-- A list of fields ends where all fields that are left may be missing. -/
theorem Fields.beyondList_eq_ok : (fields : Fields) → (name : String) → (size index : Nat) →
    {values : fields.Carrier} →
      (fields.beyondList name size index = .ok values ↔ fields.DenotesItems [] values)
  | .nil, _, _, _, () => by
    rw [Fields.beyondList, Fields.DenotesItems]
    exact iff_of_true rfl rfl
  | .cons field role content fields, name, size, index, (x, values) => by
    rw [Fields.beyondList, Fields.DenotesItems, ← fields.beyondList_eq_ok name size (index + 1)]
    split
    · next hrole =>
      have hpair : (do return (← Except.ok content.default,
            ← fields.beyondList name size (index + 1))) = .ok (x, values) ↔
          (Except.ok content.default : Except Json.Error content.Carrier) = .ok x ∧
            fields.beyondList name size (index + 1) = .ok values := pair_eq_ok
      refine hpair.trans ?_
      simp [hrole, eq_comm]
    · next hrole =>
      constructor
      · intro h
        cases h
      · rintro ⟨h, -⟩
        exact absurd h hrole

/-- Fields are read from the items of a list as `Fields.DenotesItems` says. -/
structure Fields.ReadsItems (fields : Fields) : Prop where
  gives_iff : ∀ {name size index s r rest ws values}, ItemsAt (index == 0) s r ws →
    (Gives (fields.readList name size index s) values rest ↔
      rest = r ∧ fields.DenotesItems ws values)

theorem readsItems_nil : Fields.nil.ReadsItems := by
  constructor
  intro name size index s r rest ws values hs
  rw [Fields.readList, gives_endOfList_iff, Fields.DenotesItems]
  cases ws with
  | nil =>
    change skipBlank s = closeBracket :: r at hs
    rw [hs, List.cons.injEq]
    exact ⟨fun h => ⟨h.2.symm, rfl⟩, fun h => ⟨rfl, h.1.symm⟩⟩
  | cons w ws =>
    rcases hs with ⟨within, hnext⟩
    constructor
    · intro h
      rcases nextItem_last (index == 0) h with ⟨shorter, hlast⟩
      rw [hnext] at hlast
      cases hlast
    · rintro ⟨-, hnil⟩
      cases hnil

section Cons

variable {field : String} {role : Role} {content : Shape} {fields : Fields}

theorem readsItems_cons (hcontent : ∀ w, IsReadAs content.read w (content.Denotes w))
    (hfields : fields.ReadsItems) : (Fields.cons field role content fields).ReadsItems := by
  constructor
  rintro name size index s r rest ws ⟨x, values⟩ hs
  cases ws with
  | nil =>
    rcases nextItem_last (index == 0) hs with ⟨shorter, hlast⟩
    rw [← (Fields.cons field role content fields).beyondList_eq_ok name size index]
    constructor
    · intro h
      rcases Fields.readList_cases h with ⟨_, hlast', hvalues⟩ | ⟨_, _, _, _, _, hitem, -⟩
      · cases hlast.symm.trans hlast'
        exact ⟨rfl, hvalues⟩
      · cases hlast.symm.trans hitem
    · rintro ⟨rfl, hvalues⟩
      rw [Fields.readList]
      dsimp only
      rw [hlast]
      change Gives ((Fields.cons field role content fields).beyondList name size index >>= _) _ _
      rw [hvalues]
      exact ⟨shorter, rfl⟩
  | cons w ws =>
    rcases hs with ⟨within, hnext⟩
    have hends := ends_blanks w.behind (ends_restItems ws r)
    have hitems : ItemsAt (index + 1 == 0) _ r ws := itemsAt_restItems w.behind ws r
    constructor
    · intro h
      rcases Fields.readList_cases h with ⟨_, hlast, -⟩ | ⟨t, _, y, r', ys, hitem, hy, hys, hvalues⟩
      · cases hnext.symm.trans hlast
      · cases hnext.symm.trans hitem
        cases hvalues
        rcases ((hcontent w).gives_iff (skipBlank_token w _) hends).mp hy with ⟨rfl, hfirst⟩
        rcases (hfields.gives_iff hitems).mp hys with ⟨rfl, hothers⟩
        exact ⟨rfl, hfirst, hothers⟩
    · rintro ⟨rfl, hfirst, hothers⟩
      rw [Fields.readList]
      dsimp only
      rw [hnext]
      refine (((hcontent w).gives_iff (skipBlank_token w _) hends).mpr ⟨rfl, hfirst⟩).bind
        fun _ => ?_
      exact ((hfields.gives_iff hitems).mpr ⟨rfl, hothers⟩).bind fun _ => ⟨_, rfl⟩

/-- If members are read as they should be for some fields, then also with one more field in front,
whose content is. -/
theorem takesMember_cons (hcontent : ∀ w, IsReadAs content.read w (content.Denotes w))
    (hfields : TakesMember (fun key slots t => fields.readMember key slots t) fields.Takes) :
    TakesMember (fun key slots t => (Fields.cons field role content fields).readMember key slots t)
      (Fields.cons field role content fields).Takes := by
  constructor
  rintro key w ⟨slot, slots⟩ s r ⟨slot', slots'⟩ rest hs hr
  rw [Fields.readMember, Fields.Takes]
  dsimp only
  by_cases hkey : key = field
  · rw [if_pos hkey, if_pos hkey]
    have hvalue : ∀ x, Gives (memberValue content.read s) x rest ↔ rest = r ∧ content.Denotes w x :=
      fun x => gives_memberValue_iff (hcontent w) hs hr
    split
    · next hfilled =>
      refine iff_of_false not_gives_error ?_
      rintro ⟨-, ⟨rfl, -⟩, -⟩
      cases hfilled
    · next hempty =>
      constructor
      · intro h
        rcases h.of_map fun _ => rfl with ⟨x, _, hx, hslots⟩
        cases hslots
        rcases (hvalue x).mp hx with ⟨hrest, hx⟩
        exact ⟨hrest, ⟨by simpa using hempty, x, hx, rfl⟩, rfl⟩
      · rintro ⟨hrest, ⟨-, x, hx, rfl⟩, rfl⟩
        exact ((hvalue x).mpr ⟨hrest, hx⟩).map fun value => (some value, slots')
  · rw [if_neg hkey, if_neg hkey]
    have hothers : ∀ slots', Gives (fields.readMember key slots s) slots' rest ↔
        rest = r ∧ fields.Takes key w slots slots' := fun slots' => hfields.gives_iff hs hr
    constructor
    · intro h
      rcases h.of_map fun _ => rfl with ⟨slots₁, _, hread, hslots⟩
      cases hslots
      rcases (hothers slots₁).mp hread with ⟨hrest, htakes⟩
      exact ⟨hrest, rfl, htakes⟩
    · rintro ⟨hrest, rfl, htakes⟩
      exact ((hothers slots').mpr ⟨hrest, htakes⟩).map fun slots => (slot', slots)

end Cons

theorem isReadAs_dict {item : Shape} (hitem : ∀ w, IsReadAs item.read w (item.Denotes w))
    (w : Written) : IsReadAs (Shape.dict item).read w ((Shape.dict item).Denotes w) := by
  have hmember : TakesMember (fun key (known : Dict item.Carrier) t =>
        (memberValue item.read t).map (·.map (known.insert key)))
      (fun key w known next => ∃ x, item.Denotes w x ∧ next = known.insert key x) := by
    constructor
    intro key w known s r next rest hs hr
    have hvalue : ∀ x, Gives (memberValue item.read s) x rest ↔ rest = r ∧ item.Denotes w x :=
      fun x => gives_memberValue_iff (hitem w) hs hr
    constructor
    · intro h
      rcases h.of_map fun _ => rfl with ⟨x, _, hx, rfl⟩
      rcases (hvalue x).mp hx with ⟨hrest, hx⟩
      exact ⟨hrest, x, hx, rfl⟩
    · rintro ⟨hrest, x, hx, rfl⟩
      exact ((hvalue x).mpr ⟨hrest, hx⟩).map (known.insert key)
  constructor
  intro s r d rest hs hr
  rw [Shape.gives_dict_iff, hs, Shape.Denotes]
  constructor
  · rintro ⟨t, ht, h⟩
    rcases membersAt_of_openBrace ht with ⟨ms, hms, hmembers⟩
    rcases (gives_members_iff hmember hmembers).mp h with ⟨hrest, hruns⟩
    exact ⟨hrest, ms, hms, hruns⟩
  · rintro ⟨rfl, ms, hms, hruns⟩
    rcases membersAt_start hms rest with ⟨t, ht, hmembers⟩
    exact ⟨t, ht, (gives_members_iff hmember hmembers).mpr ⟨rfl, hruns⟩⟩

theorem isReadAs_record {name : String} {fields : Fields} (hitems : fields.ReadsItems)
    (hmembers : TakesMember (fun key slots t => fields.readMember key slots t) fields.Takes)
    (w : Written) :
    IsReadAs (Shape.record name fields).read w ((Shape.record name fields).Denotes w) := by
  constructor
  intro s r values rest hs hr
  have hread : ∀ {t r rest ws}, ItemsAt true t r ws →
      (Gives (fields.readList name fields.length 0 t) values rest ↔
        rest = r ∧ fields.DenotesItems ws values) := fun hat => hitems.gives_iff hat
  rw [Shape.gives_record_iff, hs, Shape.Denotes]
  constructor
  · rintro (⟨t, ht, h⟩ | ⟨t, slots, ht, h, hvalues⟩)
    · rcases itemsAt_of_openBracket ht with ⟨ws, hws, hat⟩
      rcases (hread hat).mp h with ⟨hrest, hdenotes⟩
      exact ⟨hrest, Or.inl ⟨ws, hws, hdenotes⟩⟩
    · rcases membersAt_of_openBrace ht with ⟨ms, hms, hat⟩
      rcases (gives_members_iff hmembers hat).mp h with ⟨hrest, hruns⟩
      exact ⟨hrest, Or.inr ⟨ms, hms, fields.holds_iff.mpr ⟨slots, hruns, hvalues⟩⟩⟩
  · rintro ⟨rfl, ⟨ws, hws, hdenotes⟩ | ⟨ms, hms, hholds⟩⟩
    · rcases itemsAt_start hws rest with ⟨t, ht, hat⟩
      exact Or.inl ⟨t, ht, (hread hat).mpr ⟨rfl, hdenotes⟩⟩
    · rcases membersAt_start hms rest with ⟨t, ht, hat⟩
      rcases fields.holds_iff.mp hholds with ⟨slots, hruns, hvalues⟩
      exact Or.inr ⟨t, slots, ht, (gives_members_iff hmembers hat).mpr ⟨rfl, hruns⟩, hvalues⟩

mutual

/-- A value of a shape is read as what it denotes. -/
theorem Shape.isReadAs : (shape : Shape) → (w : Written) →
    IsReadAs shape.read w (shape.Denotes w)
  | .text, w => isReadAs_textValue w
  | .flag, w => isReadAs_flagValue w
  | .word word, w => isReadAs_wordValue word w
  | .optional content, w => isReadAs_optionalValue (content.isReadAs w)
  | .list item, w => isReadAs_listValue item.isReadAs w
  | .dict item, w => isReadAs_dict item.isReadAs w
  | .record _ fields, w => isReadAs_record fields.readsItems fields.takesMember w

/-- A member takes the slots of some fields on as `Fields.Takes` says. -/
theorem Fields.takesMember : (fields : Fields) →
    TakesMember (fun key slots t => fields.readMember key slots t) fields.Takes
  | .nil => ⟨fun hs hr => gives_memberValue_iff (isReadAs_skip _) hs hr⟩
  | .cons _ _ content fields => takesMember_cons content.isReadAs fields.takesMember

/-- Fields are read from the items of a list. -/
theorem Fields.readsItems : (fields : Fields) → fields.ReadsItems
  | .nil => readsItems_nil
  | .cons _ _ content fields => readsItems_cons content.isReadAs fields.readsItems

end

/-- A text is decoded as what it denotes. -/
theorem decode_eq_ok_iff {α : Type} [Wire α] {v : α} :
    decode α w.bytes = .ok v ↔ (Wire.shape α).Denotes w (Wire.row v) := by
  rw [decode_eq_ok]
  exact ((Wire.shape α).isReadAs w).whole_eq_ok

end ApplianceRest.Record
