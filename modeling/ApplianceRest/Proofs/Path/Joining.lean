import ApplianceRest.Proofs.Path.NormalForm
import Mathlib.Data.List.Induction

/-!
# Joining step by step

Fragments may be joined all at once or in groups. What has been joined in front may always be used
again as one fragment (`join_join`), so a join can be done from the left. What has been joined behind
may be used as one fragment if cleaning it for itself takes nothing back that it should not: if it
does not start at the root, or holds no `..` (`IsDetachable`, `join_append_join`).

The reason is one fact about the elements of a path without a root: pushing what cleaning has left of
them does the same to any path in front as pushing all of them (`foldl_push_foldl`).
-/

namespace ApplianceRest.Path

/-! ## What stands behind -/

/-- A push onto what is itself pushed later: it makes no difference which of the two comes first. -/
theorem foldl_push_push {rooted : Bool} {above : List (List Char)} {e : List Char}
    (h : IsNormal false above.reverse) (done : List (List Char)) :
    (push false above e).reverse.foldl (push rooted) done =
      push rooted (above.reverse.foldl (push rooted) done) e := by
  cases hc : counts e with
  | false => rw [push_of_not_counts hc, push_of_not_counts hc]
  | true =>
    by_cases hup : e = parent
    · subst hup
      cases above with
      | nil => rfl
      | cons last before =>
        by_cases hlast : last = parent
        · -- steps up only: one more is kept
          have hkept : push false (last :: before) parent = parent :: last :: before := by
            rw [hlast]
            rfl
          rw [hkept, List.reverse_cons, List.foldl_append]
          rfl
        · -- a name is taken back, before it is pushed or after
          obtain ⟨-, hlastcounts⟩ := h.mem (e := last) (by simp)
          rw [push_parent_name hlast, List.reverse_cons, List.foldl_append, List.foldl_cons,
            List.foldl_nil, push_name hlastcounts hlast, push_parent_name hlast]
    · rw [push_name hc hup, List.reverse_cons, List.foldl_append]
      rfl

/-- What cleaning has left of elements without a root does the same to a path in front as the
elements themselves. -/
theorem foldl_push_foldl {es : List (List Char)} (hes : ∀ e ∈ es, '/' ∉ e) (rooted : Bool)
    (done : List (List Char)) :
    (es.foldl (push false) []).reverse.foldl (push rooted) done = es.foldl (push rooted) done := by
  induction es using List.reverseRec with
  | nil => rfl
  | append_singleton before e ih =>
    have hbefore : ∀ x ∈ before, '/' ∉ x := fun x hx => hes x (List.mem_append_left _ hx)
    have hnormal : IsNormal false (before.foldl (push false) []).reverse :=
      isNormal_foldl_push hbefore (isNormal_nil false)
    rw [List.foldl_concat, foldl_push_push hnormal, ih hbefore, List.foldl_concat]

/-- Whether a path does the same to a path in front when it has been cleaned for itself: it has no
root of its own to stop at, or takes nothing back. -/
def IsDetachable (q : List Char) : Prop := isRooted q = false ∨ parent ∉ elements q

theorem foldl_push_cleanChars {q : List Char} (h : IsDetachable q) (rooted : Bool)
    (done : List (List Char)) :
    (elements (cleanChars q)).foldl (push rooted) done = (elements q).foldl (push rooted) done := by
  rw [foldl_push_filter, ← names, names_cleanChars]
  rcases h with hroot | hup
  · rw [cleanElements, hroot]
    exact foldl_push_foldl (fun e he => no_slash_of_mem_elements he) rooted done
  · rw [isSettled_of_no_parent hup, names, ← foldl_push_filter]

/-- A path may be cleaned before it is put behind another one. -/
theorem cleanChars_behind {q : List Char} (h : IsDetachable q) (p : List Char) :
    cleanChars (p ++ '/' :: cleanChars q) = cleanChars (p ++ '/' :: q) := by
  have hroot := isRooted_append_slash p
  refine cleanChars_congr (by simp) (by simp) ((hroot _).trans (hroot _).symm) ?_
  rw [cleanElements, cleanElements, hroot (cleanChars q), hroot q, elements_append_slash,
    elements_append_slash, List.foldl_append, List.foldl_append, foldl_push_cleanChars h]

/-! ## What stands in front -/

theorem isRooted_append {p : List Char} (hp : p ≠ []) (w : List Char) :
    isRooted (p ++ w) = isRooted p := by
  rw [isRooted, List.head?_append_of_ne_nil _ hp, isRooted]

/-- A path may be cleaned before another one is put behind it. -/
theorem cleanChars_in_front {p : List Char} (hp : p ≠ []) (q : List Char) :
    cleanChars (cleanChars p ++ '/' :: q) = cleanChars (p ++ '/' :: q) := by
  have hroot : isRooted (cleanChars p ++ '/' :: q) = isRooted (p ++ '/' :: q) := by
    rw [isRooted_append (cleanChars_ne_nil p), isRooted_append hp, isRooted_cleanChars]
  have hsame : (elements (cleanChars p)).foldl (push (isRooted p)) [] =
      (elements p).foldl (push (isRooted p)) [] := by
    rw [foldl_push_filter, ← names, names_cleanChars,
      foldl_push_normal (isNormal_cleanElements p), cleanElements, List.reverse_reverse]
  refine cleanChars_congr (by simp) (by simp) hroot ?_
  rw [cleanElements, cleanElements, hroot, isRooted_append hp, elements_append_slash,
    elements_append_slash, List.foldl_append, List.foldl_append, hsame]

/-! ## Fragments put together -/

/-- A path behind another one, with a slash between them if both have a text. -/
def behind (p q : List Char) : List Char :=
  if p = [] then q else if q = [] then p else p ++ '/' :: q

/-- Fragments put together with slashes, the empty ones left out. -/
def together (fragments : List (List Char)) : List Char := fragments.foldr behind []

/-- A path cleaned, if there is one. -/
def settle (p : List Char) : List Char := if p = [] then [] else cleanChars p

@[simp] theorem nil_behind (q : List Char) : behind [] q = q := rfl

@[simp] theorem behind_nil (p : List Char) : behind p [] = p := by
  rw [behind]
  split
  · next hp => exact hp.symm
  · rfl

theorem behind_of_ne {p q : List Char} (hp : p ≠ []) (hq : q ≠ []) :
    behind p q = p ++ '/' :: q := by
  rw [behind, if_neg hp, if_neg hq]

theorem behind_assoc (p q w : List Char) : behind (behind p q) w = behind p (behind q w) := by
  by_cases hp : p = []
  · simp [hp]
  · by_cases hq : q = []
    · simp [hq]
    · by_cases hw : w = []
      · simp [hw]
      · rw [behind_of_ne hp hq, behind_of_ne hq hw, behind_of_ne (by simp) hw,
          behind_of_ne hp (by simp), List.append_assoc]
        rfl

theorem together_append (a b : List (List Char)) :
    together (a ++ b) = behind (together a) (together b) := by
  induction a with
  | nil => rfl
  | cons f rest ih =>
    show behind f (together (rest ++ b)) = behind (behind f (together rest)) (together b)
    rw [ih, behind_assoc]

theorem together_singleton (f : List Char) : together [f] = f := behind_nil f

theorem intercalate_filter (fragments : List (List Char)) :
    List.intercalate ['/'] (fragments.filter (· ≠ [])) = together fragments := by
  induction fragments with
  | nil => rfl
  | cons f rest ih =>
    show _ = behind f (together rest)
    by_cases hf : f = []
    · rw [List.filter_cons_of_neg (by simp [hf]), ih, hf, nil_behind]
    · rw [List.filter_cons_of_pos (by simpa using hf), ← ih]
      cases hrest : rest.filter (· ≠ []) with
      | nil => simp
      | cons x xs =>
        have hx : x ≠ [] := by
          have hmem : x ∈ rest.filter (· ≠ []) := hrest ▸ List.mem_cons_self
          simpa using (List.mem_filter.mp hmem).2
        rw [List.intercalate_cons_cons, behind_of_ne hf (by simp [intercalate_cons, hx]),
          List.append_assoc]
        rfl

/-- Joined fragments are what they are together, cleaned. -/
theorem joinChars_eq (fragments : List (List Char)) :
    joinChars fragments = settle (together fragments) := by
  rw [← intercalate_filter, settle]
  rcases joinChars_cases fragments with ⟨hall, hnil⟩ | ⟨hparts, hclean⟩
  · have hparts : fragments.filter (· ≠ []) = [] :=
      List.filter_eq_nil_iff.mpr fun f hf => by simp [hall f hf]
    rw [hnil, hparts]
    rfl
  · obtain ⟨x, xs, hxs⟩ := List.exists_cons_of_ne_nil hparts
    have hx : x ≠ [] := by
      have hmem : x ∈ fragments.filter (· ≠ []) := hxs ▸ List.mem_cons_self
      simpa using (List.mem_filter.mp hmem).2
    rw [hclean, hxs, if_neg (by simp [intercalate_cons, hx])]

theorem settle_of_ne {p : List Char} (hp : p ≠ []) : settle p = cleanChars p := if_neg hp

theorem settle_settle (p : List Char) : settle (settle p) = settle p := by
  by_cases hp : p = []
  · rw [hp]
    rfl
  · rw [settle_of_ne hp, settle_of_ne (cleanChars_ne_nil p), cleanChars_cleanChars]

/-- What stands in front may be settled first. -/
theorem settle_behind_left (p q : List Char) :
    settle (behind (settle p) q) = settle (behind p q) := by
  by_cases hp : p = []
  · rw [hp]
    rfl
  · by_cases hq : q = []
    · rw [hq, behind_nil, behind_nil, settle_settle]
    · rw [settle_of_ne hp, behind_of_ne (cleanChars_ne_nil p) hq, behind_of_ne hp hq,
        settle_of_ne (by simp), settle_of_ne (by simp), cleanChars_in_front hp]

/-- What stands behind may be settled first if it can do without what stands in front. -/
theorem settle_behind_right {q : List Char} (h : IsDetachable q) (p : List Char) :
    settle (behind p (settle q)) = settle (behind p q) := by
  by_cases hp : p = []
  · rw [hp, nil_behind, nil_behind, settle_settle]
  · by_cases hq : q = []
    · rw [hq]
      rfl
    · rw [settle_of_ne hq, behind_of_ne hp (cleanChars_ne_nil q), behind_of_ne hp hq,
        settle_of_ne (by simp), settle_of_ne (by simp), cleanChars_behind h]

/-! ## Joining in groups -/

/-- Whether fragments may be joined for themselves before they are put behind others: the first one
that is not empty does not start with a slash, or there is no `..` in any of them. -/
def IsGroup (parts : List String) : Prop :=
  startsAtRoot parts = false ∨ ∀ part ∈ parts, parent ∉ elements part.toList

variable {parts : List String}

theorem startsAtRoot_cons (part : String) (rest : List String) :
    startsAtRoot (part :: rest) = if part = "" then startsAtRoot rest else isRooted part.toList := by
  by_cases hpart : part = "" <;> simp [startsAtRoot, hpart]

theorem startsAtRoot_append {a : List String} (ha : startsAtRoot a = false)
    (hparts : startsAtRoot parts = false) : startsAtRoot (a ++ parts) = false := by
  induction a with
  | nil => exact hparts
  | cons part rest ih =>
    rw [startsAtRoot_cons] at ha
    rw [List.cons_append, startsAtRoot_cons]
    split at ha
    · next hpart => rw [if_pos hpart, ih ha]
    · next hpart => rw [if_neg hpart, ha]

/-- Fragments that start at the root do so whatever follows them. -/
theorem startsAtRoot_append_left {front : List String} (h : startsAtRoot front = true)
    (behind : List String) : startsAtRoot (front ++ behind) = true := by
  induction front with
  | nil => cases h
  | cons part rest ih =>
    rw [startsAtRoot_cons] at h
    rw [List.cons_append, startsAtRoot_cons]
    split at h
    · next hpart => rw [if_pos hpart, ih h]
    · next hpart => rw [if_neg hpart, h]

/-- Fragments put together start at the root exactly if the first one with a text does. -/
theorem isRooted_together (parts : List String) :
    isRooted (together (parts.map String.toList)) = startsAtRoot parts := by
  induction parts with
  | nil => rfl
  | cons part rest ih =>
    show isRooted (behind part.toList (together (rest.map String.toList))) = _
    rw [startsAtRoot_cons]
    by_cases hpart : part = ""
    · rw [if_pos hpart, hpart, ← ih]
      rfl
    · rw [if_neg hpart, behind, if_neg (toList_ne_nil hpart)]
      split
      · rfl
      · rw [isRooted_append (toList_ne_nil hpart)]

theorem parent_not_mem_together (h : ∀ part ∈ parts, parent ∉ elements part.toList) :
    parent ∉ elements (together (parts.map String.toList)) := by
  rw [← intercalate_filter]
  refine parent_not_mem_intercalate fun f hf => ?_
  obtain ⟨part, hpart, rfl⟩ := List.mem_map.mp (List.mem_of_mem_filter hf)
  exact h part hpart

theorem IsGroup.isDetachable (h : IsGroup parts) :
    IsDetachable (together (parts.map String.toList)) := by
  rcases h with hroot | hup
  · exact Or.inl ((isRooted_together parts).trans hroot)
  · exact Or.inr (parent_not_mem_together hup)

/-- What has been joined may stand in front of other fragments as one. -/
theorem join_join (a b : List String) : join (join a :: b) = join (a ++ b) := by
  rw [← String.toList_inj, toList_join, toList_join, List.map_cons, List.map_append, toList_join]
  show joinChars ([joinChars _] ++ _) = _
  rw [joinChars_eq, joinChars_eq (_ ++ _), together_append, together_append, together_singleton,
    joinChars_eq (a.map String.toList), settle_behind_left]

/-- What has been joined may stand behind other fragments as one if it is a group. -/
theorem join_append_join (h : IsGroup parts) (a : List String) :
    join (a ++ [join parts]) = join (a ++ parts) := by
  rw [← String.toList_inj, toList_join, toList_join, List.map_append, List.map_append,
    List.map_singleton, toList_join, joinChars_eq, joinChars_eq (_ ++ _), together_append,
    together_append, together_singleton, joinChars_eq (parts.map String.toList),
    settle_behind_right h.isDetachable]

/-- Fragments may be joined in two groups. -/
theorem join_pair (h : IsGroup parts) (a : List String) :
    join [join a, join parts] = join (a ++ parts) := by
  rw [join_join, join_append_join h]

/-- Fragments may be joined one after the other, from the left. -/
theorem join_eq_foldl (parts : List String) :
    join parts = parts.foldl (fun done part => join [done, part]) "" := by
  induction parts using List.reverseRec with
  | nil => rfl
  | append_singleton before part ih =>
    rw [List.foldl_concat, ← ih, join_join]

/-! What a joined group is like itself. -/

theorem isRooted_join (parts : List String) : isRooted (join parts).toList = startsAtRoot parts := by
  rw [toList_join, joinChars_eq, ← isRooted_together, settle]
  split
  · next hnil => rw [hnil]
  · exact isRooted_cleanChars _

/-- A step up in a joined path is one that cleaning has left. -/
theorem parent_mem_cleanElements (h : parent ∈ elements (join parts).toList) :
    parent ∈ cleanElements (together (parts.map String.toList)) := by
  rw [toList_join, joinChars_eq, settle] at h
  split at h
  · exact absurd h (by decide)
  · rw [← names_cleanChars]
    exact List.mem_filter.mpr ⟨h, counts_parent⟩

theorem parent_not_mem_join_of_root (h : startsAtRoot parts = true) :
    parent ∉ elements (join parts).toList := by
  intro hmem
  have hleft := parent_mem_cleanElements hmem
  rw [← isRooted_together] at h
  -- a path from the root is left without steps up
  obtain ⟨ups, ns, hes, hzero, hns⟩ := isNormal_cleanElements (together (parts.map String.toList))
  rw [hes, hzero h] at hleft
  exact (hns parent (by simpa using hleft)).2.1 rfl

theorem parent_not_mem_join (h : ∀ part ∈ parts, parent ∉ elements part.toList) :
    parent ∉ elements (join parts).toList := by
  intro hmem
  have hleft := parent_mem_cleanElements hmem
  exact parent_not_mem_together h (mem_elements_of_mem_cleanElements hleft)

/-- Two joined groups make a group if neither starts at the root, or the second takes nothing
back. -/
theorem isGroup_pair {a : List String}
    (h : (startsAtRoot a = false ∧ startsAtRoot parts = false) ∨
      ∀ part ∈ parts, parent ∉ elements part.toList) : IsGroup [join a, join parts] := by
  rcases h with ⟨ha, hparts⟩ | hup
  · -- the first of the two that is not empty does not start at the root
    refine Or.inl ?_
    rw [startsAtRoot_cons, startsAtRoot_cons, isRooted_join, isRooted_join, ha, hparts]
    simp [startsAtRoot]
  · have hsecond := parent_not_mem_join hup
    by_cases ha : startsAtRoot a = true
    · -- a root leaves no step up in the first group
      refine Or.inr ?_
      rw [List.forall_mem_cons, List.forall_mem_singleton]
      exact ⟨parent_not_mem_join_of_root ha, hsecond⟩
    · by_cases hempty : join a = ""
      · refine Or.inr ?_
        rw [List.forall_mem_cons, List.forall_mem_singleton, hempty]
        exact ⟨by decide, hsecond⟩
      · refine Or.inl ?_
        rw [startsAtRoot_cons, if_neg hempty, isRooted_join]
        simpa using ha

end ApplianceRest.Path
