import ApplianceRest.Proofs.Path.FullPath
import Mathlib.Data.List.Nodup

/-!
# How often a broken rule is reported

The reserved names in a part of a full path are reported in the order in which they stand there.
Equal ones side by side are reported once, but a name that comes back behind the other one is
reported again. Hence each broken rule is reported once exactly if no reserved name comes back.

* `nodup_dropRepeats`: when dropping what equals its neighbour leaves no repetition at all.
* `fullPathViolations_texts`: which rules are reported, in which order, and when each is reported
  once.
-/

namespace ApplianceRest.Path

/-! ## Dropping neighbours -/

section Repetitions

variable {α : Type}

/-- Whether no item comes back behind another one. -/
def ComesBackNowhere (xs : List α) : Prop := ∀ a b, a ≠ b → ¬[a, b, a].Sublist xs

/-- A neighbour like the first item changes nothing. -/
theorem comesBackNowhere_cons_self {x : α} {rest : List α} :
    ComesBackNowhere (x :: x :: rest) ↔ ComesBackNowhere (x :: rest) := by
  constructor
  · intro h a b hab hback
    exact h a b hab (hback.cons x)
  · intro h a b hab hback
    apply h a b hab
    rcases List.cons_sublist_cons'.mp hback with hrest | ⟨rfl, hrest⟩
    · exact hrest
    · -- the item between the two is another one, so it stands behind both neighbours
      rcases List.cons_sublist_cons'.mp hrest with hrest | ⟨hba, -⟩
      · exact hrest.cons_cons a
      · exact absurd hba.symm hab

/-- Where the first item has another neighbour, it may not be among the others. -/
theorem comesBackNowhere_cons_of_ne {x y : α} {rest : List α} (hxy : x ≠ y) :
    ComesBackNowhere (x :: y :: rest) ↔ x ∉ y :: rest ∧ ComesBackNowhere (y :: rest) := by
  constructor
  · intro h
    refine ⟨?_, ?_⟩
    · intro hmem
      rcases List.mem_cons.mp hmem with heq | hrest
      · exact hxy heq
      · exact h x y hxy (((List.singleton_sublist.mpr hrest).cons_cons y).cons_cons x)
    · intro a b hab hback
      exact h a b hab (hback.cons x)
  · rintro ⟨hmem, h⟩ a b hab hback
    rcases List.cons_sublist_cons'.mp hback with hrest | ⟨rfl, hrest⟩
    · exact h a b hab hrest
    · exact hmem (hrest.subset (by simp))

variable [DecidableEq α] {xs : List α}

/-- Only repetitions are dropped. -/
theorem mem_dropRepeats {a : α} : a ∈ dropRepeats xs ↔ a ∈ xs := by
  induction xs with
  | nil => rfl
  | cons x xs ih =>
    cases xs with
    | nil => rfl
    | cons y rest =>
      by_cases hxy : x = y
      · rw [dropRepeats, if_pos hxy, ih, hxy]
        simp
      · rw [dropRepeats, if_neg hxy, List.mem_cons, ih, ← List.mem_cons]

/-- Dropping what equals its neighbour leaves no repetition exactly if no item comes back behind
another one. -/
theorem nodup_dropRepeats : (dropRepeats xs).Nodup ↔ ComesBackNowhere xs := by
  induction xs with
  | nil =>
    refine iff_of_true List.nodup_nil ?_
    intro a b _ hback
    cases hback
  | cons x xs ih =>
    cases xs with
    | nil =>
      refine iff_of_true (List.nodup_singleton x) ?_
      intro a b _ hback
      have hlength := hback.length_le
      simp at hlength
    | cons y rest =>
      by_cases hxy : x = y
      · subst hxy
        rw [dropRepeats, if_pos rfl, ih, comesBackNowhere_cons_self]
      · rw [dropRepeats, if_neg hxy, List.nodup_cons, mem_dropRepeats, ih,
          comesBackNowhere_cons_of_ne hxy]

end Repetitions

/-! ## Reserved names -/

/-- Whether an element of a path stands for a place and not for a thing. -/
def isReserved (e : List Char) : Bool := e = here ∨ e = parent

/-- The report of an element that is reserved. -/
def reservedReport (e : List Char) : Violation := .reserved (.ofList e)

theorem isReserved_iff {e : List Char} : isReserved e = true ↔ e = here ∨ e = parent :=
  decide_eq_true_iff

theorem reservedReport_injective : Function.Injective reservedReport := by
  intro e e' h
  exact String.ofList_injective (Violation.reserved.inj h)

theorem find_reservedNames (e : List Char) :
    (reservedNames.find? (·.toList == e)).map Violation.reserved =
      if isReserved e then some (reservedReport e) else none := by
  by_cases hhere : e = here
  · subst hhere
    decide
  · by_cases hparent : e = parent
    · subst hparent
      decide
    · have hno : isReserved e = false := by simp [isReserved, hhere, hparent]
      have hdot : ".".toList = here := by decide
      have hdots : "..".toList = parent := by decide
      have hnone : reservedNames.find? (·.toList == e) = none := by
        simp [reservedNames, hdot, hdots, Ne.symm hhere, Ne.symm hparent]
      rw [hno, hnone]
      rfl

/-- The reserved names of a part are reported in the order in which they stand there. -/
theorem fullPathViolations_eq (part : String) :
    fullPathViolations part =
      dropRepeats (((elements part.toList).filter isReserved).map reservedReport) ++
        if tilde ∈ part.toList then [.forbidden tilde] else [] := by
  have hfound : ∀ es : List (List Char),
      (es.filterMap fun e => (reservedNames.find? (·.toList == e)).map Violation.reserved) =
        (es.filter isReserved).map reservedReport := by
    intro es
    simp only [find_reservedNames]
    induction es with
    | nil => rfl
    | cons e es ih => cases he : isReserved e <;> simp [he, ih]
  rw [fullPathViolations, hfound]
  simp

/-- Between reserved names, the one that comes back and the one between are `.` and `..`. -/
theorem comesBackNowhere_reported (es : List (List Char)) :
    ComesBackNowhere ((es.filter isReserved).map reservedReport) ↔
      ¬[here, parent, here].Sublist es ∧ ¬[parent, here, parent].Sublist es := by
  constructor
  · intro h
    have hnone : ∀ a b, a ≠ b → isReserved a = true → isReserved b = true →
        ¬[a, b, a].Sublist es := by
      intro a b hab ha hb hback
      apply h (reservedReport a) (reservedReport b) (reservedReport_injective.ne hab)
      have hfiltered := hback.filter isReserved
      simp only [List.filter_cons, ha, hb, List.filter_nil, if_true] at hfiltered
      exact hfiltered.map reservedReport
    exact ⟨hnone here parent (by decide) (by decide) (by decide),
      hnone parent here (by decide) (by decide) (by decide)⟩
  · rintro ⟨hhere, hparent⟩ v w hvw hback
    rcases List.sublist_map_iff.mp hback with ⟨found, hfound, hreported⟩
    -- the three reports are those of three reserved elements, the first and the last the same
    rcases List.map_eq_cons_iff.mp hreported.symm with ⟨a, behind, rfl, rfl, hbehind⟩
    rcases List.map_eq_cons_iff.mp hbehind with ⟨b, last, rfl, rfl, hlast⟩
    rcases List.map_eq_singleton_iff.mp hlast with ⟨c, rfl, hc⟩
    have hca : c = a := reservedReport_injective hc
    subst hca
    have hall : ∀ e ∈ [c, b, c], e = here ∨ e = parent := by
      intro e he
      exact isReserved_iff.mp (List.mem_filter.mp (hfound.subset he)).2
    have hes := hfound.trans List.filter_sublist
    rcases hall c (by simp) with rfl | rfl
    · rcases hall b (by simp) with rfl | rfl
      · exact hvw rfl
      · exact hhere hes
    · rcases hall b (by simp) with rfl | rfl
      · exact hparent hes
      · exact hvw rfl

/-! ## Reports -/

/-- Different rules have different texts. -/
theorem message_injOn {part : String} :
    ∀ v ∈ fullPathViolations part, ∀ w ∈ fullPathViolations part,
      v.message = w.message → v = w := by
  have hcases : ∀ v ∈ fullPathViolations part,
      v ∈ [Violation.reserved ".", .reserved "..", .forbidden tilde] := by
    intro v hv
    rw [fullPathViolations_eq, List.mem_append, mem_dropRepeats, List.mem_map] at hv
    rcases hv with ⟨e, he, rfl⟩ | hv
    · rcases isReserved_iff.mp (List.mem_filter.mp he).2 with rfl | rfl <;> decide
    · split at hv
      · rw [List.mem_singleton.mp hv]
        decide
      · cases hv
  have hdistinct : ∀ v ∈ [Violation.reserved ".", .reserved "..", .forbidden tilde],
      ∀ w ∈ [Violation.reserved ".", .reserved "..", .forbidden tilde],
        v.message = w.message → v = w := by
    decide
  intro v hv w hw
  exact hdistinct v (hcases v hv) w (hcases w hw)

/-- A tilde is reported once and is no reserved name, so only these may be reported twice. -/
theorem nodup_fullPathViolations (part : String) :
    (fullPathViolations part).Nodup ↔
      ComesBackNowhere (((elements part.toList).filter isReserved).map reservedReport) := by
  rw [fullPathViolations_eq, List.nodup_append, nodup_dropRepeats]
  refine and_iff_left ⟨?_, ?_⟩
  · split
    · exact List.nodup_singleton _
    · exact List.nodup_nil
  · intro v hv w hw heq
    rcases List.mem_map.mp (mem_dropRepeats.mp hv) with ⟨e, -, rfl⟩
    split at hw
    · rw [List.mem_singleton.mp hw] at heq
      cases heq
    · cases hw

/-- The texts of what a part of a full path breaks. -/
def reportedTexts (part : String) : List String :=
  (fullPathViolations part).map Violation.message

/-- The texts of the reserved names that are reported. -/
def reservedTexts (part : String) : List String :=
  (dropRepeats (((elements part.toList).filter isReserved).map reservedReport)).map
    Violation.message

theorem reportedTexts_eq (part : String) :
    reportedTexts part =
      reservedTexts part ++ if tilde ∈ part.toList then ["may not contain '~'"] else [] := by
  rw [reportedTexts, fullPathViolations_eq, List.map_append]
  split <;> rfl

/-- Different rules have different texts, so repeated texts are repeated reports. -/
theorem nodup_reportedTexts (part : String) :
    (reportedTexts part).Nodup ↔ (fullPathViolations part).Nodup := by
  constructor
  · intro h
    exact h.of_map
  · intro h
    exact h.map_on message_injOn

theorem mem_reportedTexts {part text : String} :
    text ∈ reportedTexts part ↔
      text ∈ reservedTexts part ∨ (tilde ∈ part.toList ∧ text = "may not contain '~'") := by
  rw [reportedTexts_eq, List.mem_append]
  split
  · next htilde => simp [htilde]
  · next htilde => simp [htilde]

/-- Each reserved name is reported exactly if an element is that name. -/
theorem mem_reservedTexts {part text : String} :
    text ∈ reservedTexts part ↔
      (text = "may not be '.'" ∧ here ∈ elements part.toList) ∨
        (text = "may not be '..'" ∧ parent ∈ elements part.toList) := by
  have hdot : (reservedReport here).message = "may not be '.'" := by decide
  have hdots : (reservedReport parent).message = "may not be '..'" := by decide
  simp only [reservedTexts, List.mem_map, mem_dropRepeats, List.mem_filter]
  constructor
  · rintro ⟨_, ⟨e, ⟨he, hreserved⟩, rfl⟩, rfl⟩
    rcases isReserved_iff.mp hreserved with rfl | rfl
    · exact Or.inl ⟨hdot, he⟩
    · exact Or.inr ⟨hdots, he⟩
  · rintro (⟨rfl, he⟩ | ⟨rfl, he⟩)
    · exact ⟨_, ⟨here, ⟨he, by decide⟩, rfl⟩, hdot⟩
    · exact ⟨_, ⟨parent, ⟨he, by decide⟩, rfl⟩, hdots⟩

/-- What is reported of a part of a full path. The reserved names come first, each of them exactly
if an element of the part is that name, and the tilde last, exactly if the part holds one; there is
nothing else. Each report stands there once exactly if neither reserved name comes back behind the
other one. -/
theorem fullPathViolations_texts (part : String) :
    ((reportedTexts part).Nodup ↔
      ¬[here, parent, here].Sublist (elements part.toList) ∧
        ¬[parent, here, parent].Sublist (elements part.toList)) ∧
    ("may not be '.'" ∈ reportedTexts part ↔ here ∈ elements part.toList) ∧
    ("may not be '..'" ∈ reportedTexts part ↔ parent ∈ elements part.toList) ∧
    ("may not contain '~'" ∈ reportedTexts part ↔ tilde ∈ part.toList) ∧
    ∃ names,
      reportedTexts part =
        names ++ (if tilde ∈ part.toList then ["may not contain '~'"] else []) ∧
      ∀ text ∈ names, text = "may not be '.'" ∨ text = "may not be '..'" := by
  refine ⟨?_, ?_, ?_, ?_, reservedTexts part, reportedTexts_eq part, ?_⟩
  · rw [nodup_reportedTexts, nodup_fullPathViolations, comesBackNowhere_reported]
  · simp [mem_reportedTexts, mem_reservedTexts]
  · simp [mem_reportedTexts, mem_reservedTexts]
  · simp [mem_reportedTexts, mem_reservedTexts]
  · intro text htext
    rcases mem_reservedTexts.mp htext with ⟨rfl, -⟩ | ⟨rfl, -⟩
    · exact Or.inl rfl
    · exact Or.inr rfl

/-- A name that comes back behind the other one is reported twice. -/
theorem not_nodup_fullPathViolations_back :
    reportedTexts "./../." = ["may not be '.'", "may not be '..'", "may not be '.'"] ∧
      ¬(reportedTexts "./../.").Nodup := by
  decide

end ApplianceRest.Path
