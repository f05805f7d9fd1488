import ApplianceRest.Proofs.Json.Documents
import ApplianceRest.Proofs.Record.RoundTrip

/-!
# What a record holds of an object

A record that is read from an object holds, under each of its keys, what the members of the object
under that key denote (`Fields.Matches`), whatever else stands in the object and in whatever order.
This is so where the fields are plain: atoms, options and lists, which are read as documents
wherever they are read at all (`Shape.gives_document`).
-/

namespace ApplianceRest.Record

open Json (Bytes Gives greatestDepth not_gives_error)
open Json.Reader

/-! ## Plain values -/

/-- Whether no value of the shape holds an object. -/
def Shape.isPlain : Shape → Bool
  | .text => true
  | .flag => true
  | .word _ => true
  | .optional content => content.isPlain
  | .list item => item.isPlain
  | .dict _ => false
  | .record _ _ => false

/-- How deep lists nest in a plain value. -/
def Shape.nesting : Shape → Nat
  | .optional content => content.nesting
  | .list item => item.nesting + 1
  | _ => 0

/-- A plain value is read as the document that is written of it. -/
theorem Shape.gives_document : (shape : Shape) → shape.isPlain = true → {depth : Nat} →
    shape.nesting ≤ depth → {s rest : Bytes} → {x : shape.Carrier} →
    Gives (shape.read s) x rest → Gives (Json.Reader.document depth s) (shape.document x) rest
  | .text, _, _, _, _, _, _, h => gives_document_text h
  | .flag, _, _, _, _, _, _, h => gives_document_flag h
  | .word _, _, _, _, _, _, _, h => gives_document_word h
  | .optional content, hplain, depth, hdepth, s, rest, x, h => by
    have hvalue := gives_document_option
      (fun {s x rest} hread => content.gives_document hplain hdepth hread) h
    cases x with
    | none => exact hvalue
    | some y => exact hvalue
  | .list item, hplain, 0, hdepth, _, _, _, _ => absurd hdepth (Nat.not_succ_le_zero _)
  | .list item, hplain, depth + 1, hdepth, _, _, _, h =>
    gives_document_list (fun {s x rest} hread =>
      item.gives_document hplain (Nat.le_of_succ_le_succ hdepth) hread) h

/-- Whether some fields hold plain values only, none of which nests deeper than documents may. -/
def Fields.isPlain : Fields → Bool
  | .nil => true
  | .cons _ _ content rest => content.isPlain && content.nesting ≤ greatestDepth && rest.isPlain

/-! ## Members and fields -/

/-- Every member that was found under the key of a field has filled the slot of the field. -/
def Fields.Fills : (fields : Fields) → fields.Slots → List (String × Option Json) → Prop
  | .nil, (), _ => True
  | .cons key _ content rest, (slot, slots), found =>
    (∀ value, (key, value) ∈ found → ∃ x, slot = some x ∧ value = some (content.document x)) ∧
      rest.Fills slots found

/-- Every member that was found under the key of a field denotes what the field holds. -/
def Fields.Matches : (fields : Fields) → fields.Carrier → List (String × Option Json) → Prop
  | .nil, (), _ => True
  | .cons key _ content rest, (x, values), found =>
    (∀ value, (key, value) ∈ found → value = some (content.document x)) ∧ rest.Matches values found

theorem Fields.fills_noSlots : (fields : Fields) → fields.Fills fields.noSlots []
  | .nil => trivial
  | .cons _ _ _ rest => ⟨fun _ h => absurd h List.not_mem_nil, rest.fills_noSlots⟩

/-- A member under no key of the fields fills no slot. -/
theorem Fields.fills_append : {fields : Fields} → {slots : fields.Slots} →
    {found : List (String × Option Json)} → {key : String} → (value : Option Json) →
    key ∉ fields.keys → fields.Fills slots found → fields.Fills slots (found ++ [(key, value)])
  | .nil, (), _, _, _, _, _ => trivial
  | .cons field _ content rest, (slot, slots), found, key, value, hkey, h => by
    rw [Fields.keys, List.mem_cons, not_or] at hkey
    refine ⟨fun v hv => ?_, Fields.fills_append value hkey.2 h.2⟩
    rcases List.mem_append.mp hv with hv | hv
    · exact h.1 v hv
    · rw [List.mem_singleton] at hv
      exact absurd (Prod.mk.inj hv).1.symm hkey.1

/-- A member that is read fills the slot of its field with what it denotes. -/
theorem Fields.fills_readMember : {fields : Fields} → fields.isSound = true →
    fields.isPlain = true → {slots slots' : fields.Slots} →
    {found : List (String × Option Json)} → {key : String} → {s rest : Bytes} →
    fields.Fills slots found → Gives (fields.readMember key slots s) slots' rest →
    ∃ value, Gives (memberValue denoted s) value rest ∧
      fields.Fills slots' (found ++ [(key, value)])
  | .nil, _, _, (), (), found, key, s, rest, _, h => by
    obtain ⟨r, hs, hskip⟩ := memberValue_cases h
    exact ⟨_, gives_memberValue hs (hskip.map _), trivial⟩
  | .cons field role content fields, hsound, hplain, (slot, slots), (slot', slots'), found, key, s,
      rest, hfills, h => by
    rw [Fields.isSound, Bool.and_eq_true, Bool.and_eq_true, Bool.not_eq_true'] at hsound
    rw [Fields.isPlain, Bool.and_eq_true, Bool.and_eq_true, decide_eq_true_eq] at hplain
    have hfield : field ∉ fields.keys := by
      intro hmem
      rw [List.contains_iff_mem.mpr hmem] at hsound
      cases hsound.1.1
    rw [Fields.readMember] at h
    split at h
    · next hkey =>
      subst hkey
      split at h
      · exact absurd h not_gives_error
      · next hempty =>
        obtain ⟨x, _, hvalue, hslots⟩ := h.of_map fun _ => rfl
        cases hslots
        obtain ⟨r, hs, hread⟩ := memberValue_cases hvalue
        have hdocument := content.gives_document hplain.1.1 hplain.1.2 hread
        refine ⟨_, gives_memberValue hs (gives_denoted hdocument), ?_,
          Fields.fills_append _ hfield hfills.2⟩
        intro v hv
        rcases List.mem_append.mp hv with hv | hv
        · -- the slot was still empty, so no member had been found under this key
          obtain ⟨y, hy, -⟩ := hfills.1 v hv
          rw [hy] at hempty
          exact absurd rfl hempty
        · rw [List.mem_singleton] at hv
          exact ⟨x, rfl, (Prod.mk.inj hv).2⟩
    · next hkey =>
      obtain ⟨_, _, hrest, hslots⟩ := h.of_map fun _ => rfl
      cases hslots
      obtain ⟨value, hvalue, hfills'⟩ := Fields.fills_readMember hsound.2 hplain.2 hfills.2 hrest
      refine ⟨value, hvalue, fun v hv => ?_, hfills'⟩
      rcases List.mem_append.mp hv with hv | hv
      · exact hfills.1 v hv
      · rw [List.mem_singleton] at hv
        exact absurd (Prod.mk.inj hv).1.symm hkey

/-- A member under no key of the fields is passed over. -/
theorem Fields.readsMember_unknown : {fields : Fields} → {key : String} → {d : Json} →
    key ∉ fields.keys → IsReadBack d → (slots : fields.Slots) →
    ReadsMember (fun key slots t => fields.readMember key slots t) (key, d) slots slots
  | .nil, _, _, _, hd, () => fun r hr =>
    gives_memberValue (skipBlank_cons (by decide) _) (gives_skip_of_document (hd r hr))
  | .cons field role content rest, key, d, hkey, hd, (slot, slots) => by
    rw [Fields.keys, List.mem_cons, not_or] at hkey
    intro r hr
    simp only [Fields.readMember, if_neg hkey.1]
    exact (Fields.readsMember_unknown hkey.2 hd slots r hr).map fun slots => (slot, slots)

/-- A pair is there if both of its parts are. -/
theorem pair_eq_ok {ε α β : Type} {first : Except ε α} {second : Except ε β} {a : α} {b : β} :
    (do return (← first, ← second)) = Except.ok (a, b) ↔ first = .ok a ∧ second = .ok b := by
  cases first <;> cases second <;> simp [bind, Except.bind, pure, Except.pure]

/-- Each field comes from its slot, or from its default where nothing has filled the slot. -/
theorem Fields.fromSlots_cons_eq_ok {field : String} {role : Role} {content : Shape}
    {fields : Fields} {slot : Option content.Carrier} {slots : fields.Slots}
    {x : content.Carrier} {values : fields.Carrier} :
    (Fields.cons field role content fields).fromSlots (slot, slots) = .ok (x, values) ↔
      (slot = some x ∨ slot = none ∧ role.mayBeMissing = true ∧ x = content.default) ∧
        fields.fromSlots slots = .ok values := by
  cases slot with
  | some y =>
    rw [Fields.fromSlots]
    exact pair_eq_ok.trans (and_congr_left' (by simp))
  | none =>
    rw [Fields.fromSlots]
    dsimp only
    split
    · next hmissing => exact pair_eq_ok.trans (and_congr_left' (by simp [hmissing, eq_comm]))
    · next hmissing => exact pair_eq_ok.trans (and_congr_left' (by simp [hmissing]))

/-- What was found by the end of an object is what the fields hold. -/
theorem Fields.matches_of_fills : {fields : Fields} → {slots : fields.Slots} →
    {values : fields.Carrier} → {found : List (String × Option Json)} →
    fields.Fills slots found → fields.fromSlots slots = .ok values → fields.Matches values found
  | .nil, (), (), _, _, _ => trivial
  | .cons key role content rest, (slot, slots), (x, values), found, hfills, h => by
    obtain ⟨hslot, hvalues⟩ := Fields.fromSlots_cons_eq_ok.mp h
    refine ⟨fun v hv => ?_, Fields.matches_of_fills hfills.2 hvalues⟩
    obtain ⟨y, rfl, hvalue⟩ := hfills.1 v hv
    rcases hslot with hslot | ⟨hslot, -⟩
    · cases hslot
      exact hvalue
    · cases hslot

/-- A record is read from a list of its fields, or from an object that fills its slots. -/
theorem Shape.gives_record_iff {name : String} {fields : Fields} {values : fields.Carrier}
    {s rest : Bytes} : Gives ((Shape.record name fields).read s) values rest ↔
      (∃ r, skipBlank s = openBracket :: r ∧
        Gives (fields.readList name fields.length 0 r) values rest) ∨
      (∃ r slots, skipBlank s = openBrace :: r ∧ Gives (members
          (fun key slots t => fields.readMember key slots t) true fields.noSlots r) slots rest ∧
        fields.fromSlots slots = .ok values) := by
  rw [Shape.read]
  constructor
  · intro h
    obtain ⟨b, r, hs, h⟩ := token_of_gives not_gives_error h
    dsimp only at h
    split at h
    · next hb => exact .inl ⟨r, by rw [hs, hb], h.of_behind⟩
    · split at h
      · next hb =>
        obtain ⟨slots, r', _, hmembers, h⟩ := Gives.of_bind h
        cases hvalues : fields.fromSlots slots with
        | error e =>
          rw [hvalues] at h
          exact absurd h not_gives_error
        | ok values' =>
          rw [hvalues] at h
          obtain ⟨rfl, rfl⟩ := Gives.of_ok h
          exact .inr ⟨r, slots, by rw [hs, hb], hmembers, hvalues⟩
      · exact absurd h not_gives_error
  · rintro (⟨r, hs, h⟩ | ⟨r, slots, hs, hmembers, hvalues⟩)
    · rw [gives_fromToken_iff, hs]
      dsimp only
      rw [if_pos rfl]
      exact h.behind openBracket
    · rw [gives_fromToken_iff, hs]
      dsimp only
      rw [if_neg (by decide), if_pos rfl]
      refine hmembers.bind fun shorter => ?_
      simp only [hvalues]
      exact ⟨_, rfl⟩

/-- A list of fields ends where the fields that are left may be missing, or has a field and others
behind it. -/
theorem Fields.readList_cases {field name : String} {role : Role} {content : Shape}
    {fields : Fields} {size index : Nat} {s rest : Bytes}
    {values : (Fields.cons field role content fields).Carrier}
    (h : Gives ((Fields.cons field role content fields).readList name size index s) values rest) :
    (∃ shorter, nextItem (index == 0) s = .ok (.last rest shorter) ∧
      (Fields.cons field role content fields).beyondList name size index = .ok values) ∨
    ∃ t within x r others, nextItem (index == 0) s = .ok (.item t within) ∧
      Gives (content.read t) x r ∧ Gives (fields.readList name size (index + 1) r) others rest ∧
      values = (x, others) := by
  rw [Fields.readList] at h
  dsimp only at h
  cases hnext : nextItem (index == 0) s with
  | error e =>
    rw [hnext] at h
    exact absurd h not_gives_error
  | ok next =>
    rw [hnext] at h
    cases next with
    | last rest' shorter =>
      change Gives ((Fields.cons field role content fields).beyondList name size index >>= _)
        values rest at h
      cases hvalues : (Fields.cons field role content fields).beyondList name size index with
      | error e =>
        rw [hvalues] at h
        exact absurd h not_gives_error
      | ok values' =>
        rw [hvalues] at h
        obtain ⟨rfl, rfl⟩ := Gives.of_ok h
        exact .inl ⟨shorter, rfl, rfl⟩
    | item t within =>
      obtain ⟨x, r, _, hx, h⟩ := Gives.of_bind h
      obtain ⟨others, _, _, hothers, h⟩ := Gives.of_bind h
      obtain ⟨_, h⟩ := h
      cases h
      exact .inr ⟨t, within, x, r, others, rfl, hx, hothers, rfl⟩

/-- The closing bracket is all that may stand behind the last field. -/
theorem gives_endOfList_iff {s rest : Bytes} :
    Gives (endOfList s) () rest ↔ skipBlank s = closeBracket :: rest := by
  unfold endOfList
  constructor
  · intro h
    split at h
    · exact absurd h not_gives_error
    · next b r hs =>
      split at h
      · next hb =>
        obtain ⟨-, rfl⟩ := h.of_ok
        rw [hs, hb]
      · split at h
        · exact absurd h not_gives_error
        · exact absurd h not_gives_error
  · intro hs
    split
    · next hnil => rw [hs] at hnil; cases hnil
    · next hcons =>
      rw [hs] at hcons
      cases hcons
      rw [if_pos rfl]
      exact ⟨_, rfl⟩

/-- A dictionary is read from an object. -/
theorem Shape.gives_dict_iff {item : Shape} {d : Dict item.Carrier} {s rest : Bytes} :
    Gives ((Shape.dict item).read s) d rest ↔ ∃ r, skipBlank s = openBrace :: r ∧
      Gives (members (fun key (known : Dict item.Carrier) t =>
        (memberValue item.read t).map (·.map (known.insert key))) true .empty r) d rest := by
  rw [Shape.read]
  exact gives_fromToken_first_iff not_gives_error fun _ _ => rfl

/-- A record with plain fields that was read from an object holds what the members of the object
denote. -/
theorem Fields.gives_objectMembers {name : String} {fields : Fields} {values : fields.Carrier}
    {s rest : Bytes} (hsound : fields.isSound = true) (hplain : fields.isPlain = true)
    (hobject : (skipBlank s).head? = some openBrace)
    (h : Gives ((Shape.record name fields).read s) values rest) :
    ∃ found, Gives (objectMembers s) found rest ∧ fields.Matches values found := by
  rcases Shape.gives_record_iff.mp h with ⟨r, hs, -⟩ | ⟨r, slots, hs, hmembers, hvalues⟩
  · rw [hs] at hobject
    exact absurd (Option.some.inj hobject) (by decide)
  · have hstep : ∀ {key slots found s slots' rest}, fields.Fills slots found →
        Gives (fields.readMember key slots s) slots' rest →
        ∃ found', Gives (collect key found s) found' rest ∧ fields.Fills slots' found' := by
      intro key slots found s slots' rest hfills hread
      obtain ⟨value, hvalue, hfills'⟩ := Fields.fills_readMember hsound hplain hfills hread
      exact ⟨_, hvalue.map fun value => found ++ [(key, value)], hfills'⟩
    obtain ⟨found, hfound, hfills⟩ := gives_members_along hstep fields.fills_noSlots hmembers
    have hgives : Gives (objectMembers s) found rest := by
      rw [objectMembers, gives_fromToken_iff, hs]
      dsimp only
      rw [if_pos rfl]
      exact hfound.behind openBrace
    exact ⟨found, hgives, Fields.matches_of_fills hfills hvalues⟩

theorem Fields.objectMembers?_eq_some {name : String} {fields : Fields} {values : fields.Carrier}
    {s : Bytes} (hsound : fields.isSound = true) (hplain : fields.isPlain = true)
    (hobject : (skipBlank s).head? = some openBrace)
    (h : whole (Shape.record name fields).read s = .ok values) :
    ∃ found, objectMembers? s = some found ∧ fields.Matches values found := by
  obtain ⟨rest, hread, hrest⟩ := whole_eq_ok.mp h
  obtain ⟨found, hfound, hmatches⟩ := Fields.gives_objectMembers hsound hplain hobject hread
  have hwhole : whole objectMembers s = .ok found := whole_eq_ok.mpr ⟨rest, hfound, hrest⟩
  exact ⟨found, by rw [objectMembers?, hwhole]; rfl, hmatches⟩

/-- What is decoded is what is read. -/
theorem decode_eq_ok {α : Type} [Wire α] {s : Bytes} {v : α} :
    decode α s = .ok v ↔ whole (Wire.shape α).read s = .ok (Wire.row v) := by
  rw [decode]
  cases whole (Wire.shape α).read s with
  | error e =>
    constructor
    · intro h
      cases h
    · intro h
      cases h
  | ok r =>
    constructor
    · intro h
      cases h
      rw [Wire.row_ofRow]
    · intro h
      cases h
      exact congrArg Except.ok (Wire.ofRow_row v)

/-! ## Members that are written -/

theorem Fields.mem_documents_cons {field key : String} {role : Role} {content : Shape}
    {rest : Fields} {x : content.Carrier} {values : rest.Carrier} {d : Json} :
    (key, d) ∈ (Fields.cons field role content rest).documents (x, values) ↔
      (role.isWritten (content.isEmpty x) = true ∧ key = field ∧ d = content.document x) ∨
        (key, d) ∈ rest.documents values := by
  rw [Fields.documents]
  split
  · next hwritten => simp [hwritten]
  · next hwritten => simp [hwritten]

/-- Only what is missing is written as `null`. -/
theorem Shape.document_ne_null {shape : Shape} (h : shape.isOptional = false) (x : shape.Carrier) :
    shape.document x ≠ .null := by
  cases shape with
  | optional content => cases h
  | _ => exact nofun

/-- An optional field is written unless it would say `null`. -/
theorem Fields.mem_documents_optional {field key : String} {content : Shape} {rest : Fields}
    {x : Option content.Carrier} {values : rest.Carrier} {d : Json}
    (h : content.isOptional = false) :
    (key, d) ∈ (Fields.cons field .optional (.optional content) rest).documents (x, values) ↔
      (key = field ∧ d = (Shape.optional content).document x ∧ d ≠ .null) ∨
        (key, d) ∈ rest.documents values := by
  rw [Fields.mem_documents_cons]
  cases x with
  | none => simp [Role.isWritten, Shape.isEmpty, Shape.document]
  | some y =>
    refine or_congr_left ?_
    constructor
    · rintro ⟨-, hkey, rfl⟩
      exact ⟨hkey, rfl, Shape.document_ne_null h y⟩
    · rintro ⟨hkey, hd, -⟩
      exact ⟨rfl, hkey, hd⟩

/-- What is written of a plain value is read back as a document. -/
theorem Shape.isReadBack (shape : Shape) (hsound : shape.isSound = true)
    (hplain : shape.isPlain = true) (hnesting : shape.nesting ≤ greatestDepth)
    (x : shape.Carrier) : IsReadBack (shape.document x) := by
  intro rest hrest
  have hread := (shape.reads_document hsound x).gives rest hrest
  rw [← shape.document_reset x] at hread ⊢
  exact shape.gives_document hplain hnesting hread

theorem Fields.isReadBack : {fields : Fields} → fields.isSound = true → fields.isPlain = true →
    {values : fields.Carrier} → ∀ m ∈ fields.documents values, IsReadBack m.2
  | .nil, _, _, (), m, hm => absurd hm List.not_mem_nil
  | .cons key role content rest, hsound, hplain, (x, values), m, hm => by
    rw [Fields.isSound, Bool.and_eq_true, Bool.and_eq_true] at hsound
    rw [Fields.isPlain, Bool.and_eq_true, Bool.and_eq_true, decide_eq_true_eq] at hplain
    rcases Fields.mem_documents_cons.mp hm with ⟨-, -, hd⟩ | hm
    · rw [hd]
      exact content.isReadBack hsound.1.2 hplain.1.1 hplain.1.2 x
    · exact Fields.isReadBack hsound.2 hplain.2 m hm

/-- The members of the object that is written for some plain fields. -/
theorem Fields.objectMembers?_documents {fields : Fields} (hsound : fields.isSound = true)
    (hplain : fields.isPlain = true) (values : fields.Carrier) :
    objectMembers? (Json.object (fields.documents values)).toBytes =
      some ((fields.documents values).map fun m => (m.1, some m.2)) :=
  objectMembers?_toBytes (Fields.isReadBack hsound hplain)

end ApplianceRest.Record
