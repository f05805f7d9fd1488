import ApplianceRest.Proofs.Json.Grammar
import ApplianceRest.Proofs.Record.Members

/-!
# Every text that is decoded is written by the grammar

A value of a shape is passed over wherever it is read (`Shape.isPassedOver`), so a text that is
decoded is some value as it is written (`exists_bytes_of_decode`).
-/

namespace ApplianceRest.Record

open Json (Bytes Gives Reader Word Written not_gives_error)
open Json.Reader

variable {s t r rest : Bytes}

/-! ## Atoms, lists and options -/

theorem isPassedOver_textValue : IsPassedOver textValue := by
  intro s t x rest hblank h
  rcases gives_textValue_iff.mp h with ⟨r, hs, hstring⟩
  exact gives_skip_string (hblank ▸ hs) (gives_skipString_of_string hstring)

theorem isPassedOver_flagValue : IsPassedOver flagValue := by
  intro s t x rest hblank h
  rcases gives_flagValue_iff.mp h with ⟨-, hs⟩ | ⟨-, hs⟩
  · exact gives_skip_word (hblank ▸ hs) (Or.inr (Or.inl ⟨rfl, rfl⟩))
  · exact gives_skip_word (hblank ▸ hs) (Or.inr (Or.inr ⟨rfl, rfl⟩))

theorem isPassedOver_wordValue (word : Word) : IsPassedOver (wordValue word) := by
  intro s t x rest hblank h
  rcases gives_wordValue_iff.mp h with ⟨b, r, i, hs, hb, hnumber, -⟩
  exact gives_skip_number (hblank ▸ hs) hb (gives_skipNumber hnumber)

theorem isPassedOver_optionalValue {α : Type} {read : Reader α} (hread : IsPassedOver read) :
    IsPassedOver (optionalValue read) := by
  intro s t x rest hblank h
  rcases gives_optionalValue_iff.mp h with ⟨-, hs⟩ | ⟨-, y, -, hy⟩
  · exact gives_skip_word (hblank ▸ hs) (Or.inl ⟨rfl, rfl⟩)
  · exact hread ((skipBlank_skipBlank s).trans hblank) hy

theorem isPassedOver_listValue {α : Type} {read : Reader α} (hread : IsPassedOver read) :
    IsPassedOver (listValue read) := by
  intro s t xs rest hblank h
  rcases gives_listValue_iff.mp h with ⟨r, hs, hitems⟩
  exact gives_skip_list hread (hblank ▸ hs) hitems

/-! ## Dictionaries and records -/

theorem isPassedOver_dict {item : Shape} (hitem : IsPassedOver item.read) :
    IsPassedOver (Shape.dict item).read := by
  intro s t d rest hblank h
  rcases Shape.gives_dict_iff.mp h with ⟨r, hs, hmembers⟩
  refine gives_skip_object (fun {key acc s next rest} hentry => ?_) (hblank ▸ hs) hmembers
  rcases hentry.of_map fun _ => rfl with ⟨_, _, hvalue, -⟩
  rcases memberValue_cases hvalue with ⟨u, hu, hread⟩
  exact gives_memberValue hu (hitem rfl hread)

/-- Whatever member is read into some fields is passed over. -/
structure Fields.PassesMembers (fields : Fields) : Prop where
  gives_skip : ∀ {key slots s slots' rest}, Gives (fields.readMember key slots s) slots' rest →
    Gives (memberValue skip s) () rest

/-- Whatever items of a list are read as some fields are passed over: those of a whole list, and
those behind an item of it. -/
structure Fields.PassesItems (fields : Fields) : Prop where
  gives_skip : ∀ {name size s r values rest}, skipBlank s = openBracket :: r →
    Gives (fields.readList name size 0 r) values rest → Gives (skip s) () rest
  gives_skipItems : ∀ {name size index s values rest},
    Gives (fields.readList name size (index + 1) s) values rest → Gives (skipItems s) () rest

theorem isPassedOver_record {name : String} {fields : Fields} (hmembers : fields.PassesMembers)
    (hitems : fields.PassesItems) : IsPassedOver (Shape.record name fields).read := by
  intro s t values rest hblank h
  rcases Shape.gives_record_iff.mp h with ⟨r, hs, hlist⟩ | ⟨r, slots, hs, hobject, -⟩
  · exact hitems.gives_skip (hblank ▸ hs) hlist
  · exact gives_skip_object hmembers.gives_skip (hblank ▸ hs) hobject

section Cons

variable {field : String} {role : Role} {content : Shape} {fields : Fields}

theorem passesMembers_nil : Fields.nil.PassesMembers := by
  constructor
  intro key slots s slots' rest h
  exact h

theorem passesMembers_cons (hcontent : IsPassedOver content.read) (hfields : fields.PassesMembers) :
    (Fields.cons field role content fields).PassesMembers := by
  constructor
  rintro key ⟨slot, slots⟩ s slots' rest h
  rw [Fields.readMember] at h
  dsimp only at h
  split at h
  · split at h
    · exact absurd h not_gives_error
    · rcases h.of_map fun _ => rfl with ⟨_, _, hvalue, -⟩
      rcases memberValue_cases hvalue with ⟨u, hu, hread⟩
      exact gives_memberValue hu (hcontent rfl hread)
  · rcases h.of_map fun _ => rfl with ⟨_, _, hmember, -⟩
    exact hfields.gives_skip hmember

theorem passesItems_nil : Fields.nil.PassesItems := by
  constructor
  · intro name size s r values rest hs h
    exact gives_skip_list_nil hs (gives_endOfList_iff.mp h)
  · intro name size index s values rest h
    exact gives_skipItems_last (gives_endOfList_iff.mp h)

theorem passesItems_cons (hcontent : IsPassedOver content.read) (hfields : fields.PassesItems) :
    (Fields.cons field role content fields).PassesItems := by
  constructor
  · intro name size s r values rest hs h
    rcases Fields.readList_cases h with ⟨_, hlast, -⟩ | ⟨t, _, x, r', others, hitem, hx, hothers, -⟩
    · exact gives_skip_list_nil hs (skipBlank_of_nextItem_last hlast)
    · rcases skipBlank_of_nextItem_first hitem with ⟨c, u, hr, hc, rfl⟩
      have hblank : skipBlank (c :: u) = skipBlank r := by rw [← hr, skipBlank_skipBlank]
      exact gives_skip_list_cons hs hr hc (hcontent hblank hx) (hfields.gives_skipItems hothers)
  · intro name size index s values rest h
    rcases Fields.readList_cases h with ⟨_, hlast, -⟩ | ⟨t, _, x, r', others, hitem, hx, hothers, -⟩
    · exact gives_skipItems_last (skipBlank_of_nextItem_last hlast)
    · rcases skipBlank_of_nextItem_comma hitem with ⟨u, hs, rfl⟩
      exact gives_skipItems_comma hs (hcontent (skipBlank_skipBlank u) hx)
        (hfields.gives_skipItems hothers)

end Cons

mutual

/-- A value of a shape is passed over wherever it is read. -/
theorem Shape.isPassedOver : (shape : Shape) → IsPassedOver shape.read
  | .text => isPassedOver_textValue
  | .flag => isPassedOver_flagValue
  | .word w => isPassedOver_wordValue w
  | .optional content => isPassedOver_optionalValue content.isPassedOver
  | .list item => isPassedOver_listValue item.isPassedOver
  | .dict item => isPassedOver_dict item.isPassedOver
  | .record _ fields => isPassedOver_record fields.passesMembers fields.passesItems

theorem Fields.passesMembers : (fields : Fields) → fields.PassesMembers
  | .nil => passesMembers_nil
  | .cons _ _ content fields => passesMembers_cons content.isPassedOver fields.passesMembers

theorem Fields.passesItems : (fields : Fields) → fields.PassesItems
  | .nil => passesItems_nil
  | .cons _ _ content fields => passesItems_cons content.isPassedOver fields.passesItems

end

/-- A text that is decoded is some value as it is written. -/
theorem exists_bytes_of_decode {α : Type} [Wire α] {v : α} (h : decode α s = .ok v) :
    ∃ w : Written, w.bytes = s := by
  rcases whole_eq_ok.mp (decode_eq_ok.mp h) with ⟨rest, hread, hrest⟩
  exact Json.exists_bytes ((Wire.shape α).isPassedOver rfl hread) hrest

end ApplianceRest.Record
