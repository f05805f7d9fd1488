import ApplianceRest.Proofs.Path.FullPath

/-!
# The normal form of a path

Each path has one normal form, and cleaning finds it. The texts in normal form are those that
cleaning leaves as they are, and what leads nowhere may be written between any two parts of a path
without changing its normal form: nothing at all, `.`, a name with `..` behind it, and at the root
`..` alone.

* `cleanChars_insert`: elements that have no effect where they stand do not matter.
* `clean_normalizes`: the normal form and its equations.
-/

namespace ApplianceRest.Path

/-- Elements that are put together end as the last one does. -/
theorem intercalate_concat (front : List (List Char)) (e : List Char) :
    ∃ before, List.intercalate ['/'] (front ++ [e]) = before ++ e := by
  cases front with
  | nil => exact ⟨[], List.intercalate_singleton⟩
  | cons x xs =>
    rw [intercalate_append (List.cons_ne_nil x xs), List.flatMap_singleton]
    exact ⟨List.intercalate ['/'] (x :: xs) ++ ['/'], by simp⟩

/-- A path in normal form ends in a slash only where it is nothing but one. -/
theorem IsNormalForm.eq_slash {rooted : Bool} {text : List Char} (h : IsNormalForm rooted text)
    (hlast : text.getLast? = some '/') : text = ['/'] := by
  rcases h with ⟨-, rfl⟩ | ⟨-, htext⟩ | ⟨es, hes, hnormal, htext⟩
  · exact absurd hlast (by decide)
  · exact htext
  · -- the text ends in its last element, which has a text and no slash
    obtain ⟨front, e, rfl⟩ := (List.eq_nil_or_concat es).resolve_left hes
    rw [List.concat_eq_append] at hnormal htext
    obtain ⟨hslash, hcounts⟩ := hnormal.mem (e := e) (by simp)
    obtain ⟨hne, -⟩ := counts_iff.mp hcounts
    obtain ⟨before, hends⟩ := intercalate_concat front e
    rw [htext, hends, ← List.append_assoc, List.getLast?_append_of_ne_nil _ hne] at hlast
    exact absurd (List.mem_of_getLast? hlast) hslash

/-! ## What leads nowhere -/

theorem isRooted_append_slash (u w : List Char) :
    isRooted (u ++ '/' :: w) = isRooted (u ++ ['/']) := by
  cases u with
  | nil => rfl
  | cons c u => rfl

/-- Paths that start alike and leave the same elements have the same normal form. -/
theorem cleanChars_congr {p q : List Char} (hp : p ≠ []) (hq : q ≠ [])
    (hroot : isRooted p = isRooted q) (helements : cleanElements p = cleanElements q) :
    cleanChars p = cleanChars q := by
  rw [cleanChars, cleanChars, if_neg hp, if_neg hq, hroot, helements]

/-- Paths from the root with the same names have the same normal form. -/
theorem cleanChars_eq_of_names {p q : List Char} (hp : isRooted p = true) (hq : isRooted q = true)
    (hnames : names p = names q) : cleanChars p = cleanChars q := by
  have hne : ∀ path, isRooted path = true → path ≠ [] := by
    rintro _ hroot rfl
    cases hroot
  refine cleanChars_congr (hne p hp) (hne q hq) (hp.trans hq.symm) ?_
  rw [cleanElements, cleanElements, hp, hq, foldl_push_filter, foldl_push_filter _ (elements q),
    ← names, ← names, hnames]

/-- Whatever has no effect behind one part of a path may be left out there. -/
theorem cleanChars_insert {u m : List Char}
    (h : (elements m).foldl (push (isRooted (u ++ ['/'])))
        ((elements u).foldl (push (isRooted (u ++ ['/']))) []) =
      (elements u).foldl (push (isRooted (u ++ ['/']))) []) (v : List Char) :
    cleanChars (u ++ '/' :: (m ++ '/' :: v)) = cleanChars (u ++ '/' :: v) := by
  have hroot := isRooted_append_slash u
  refine cleanChars_congr (by simp) (by simp) ((hroot _).trans (hroot _).symm) ?_
  rw [cleanElements, cleanElements, hroot (m ++ '/' :: v), hroot v, elements_append_slash,
    elements_append_slash, elements_append_slash, List.foldl_append, List.foldl_append, h,
    List.foldl_append]

/-- A name is taken back by the `..` behind it, whatever stands before. -/
theorem foldl_push_name_parent {x : List Char} (hx : IsName x) (rooted : Bool)
    (done : List (List Char)) : (elements (x ++ '/' :: parent)).foldl (push rooted) done = done := by
  have hcounts : counts x = true := counts_iff.mpr ⟨hx.1, hx.2.1⟩
  have hsplit : elements (x ++ '/' :: parent) = [x, parent] := by
    rw [elements_append_slash, hx.elements_eq]
    rfl
  rw [hsplit, List.foldl_cons, push_name hcounts hx.2.2.1, List.foldl_cons,
    push_parent_name hx.2.2.1, List.foldl_nil]

/-! ## Equations -/

theorem toList_slash (u v : String) : (u ++ "/" ++ v).toList = u.toList ++ '/' :: v.toList := by
  rw [String.toList_append, String.toList_append, List.append_assoc]
  rfl

/-- A doubled slash is one slash. -/
theorem clean_slash_slash (u v : String) : clean (u ++ "//" ++ v) = clean (u ++ "/" ++ v) := by
  have htext : (u ++ "//" ++ v).toList = u.toList ++ '/' :: ([] ++ '/' :: v.toList) := by
    rw [String.toList_append, String.toList_append, List.append_assoc]
    rfl
  rw [← String.toList_inj, toList_clean, toList_clean, htext, toList_slash]
  exact cleanChars_insert rfl _

/-- An element that stands for the place itself may be left out. -/
theorem clean_slash_here (u v : String) : clean (u ++ "/./" ++ v) = clean (u ++ "/" ++ v) := by
  have htext : (u ++ "/./" ++ v).toList = u.toList ++ '/' :: (here ++ '/' :: v.toList) := by
    rw [String.toList_append, String.toList_append, List.append_assoc]
    rfl
  rw [← String.toList_inj, toList_clean, toList_clean, htext, toList_slash]
  exact cleanChars_insert rfl _

/-- A name that is taken back may be left out. -/
theorem clean_slash_parent (u v : String) {x : String} (hx : IsName x.toList) :
    clean (u ++ "/" ++ x ++ "/../" ++ v) = clean (u ++ "/" ++ v) := by
  have htext : (u ++ "/" ++ x ++ "/../" ++ v).toList =
      u.toList ++ '/' :: ((x.toList ++ '/' :: parent) ++ '/' :: v.toList) := by
    simp only [String.toList_append, List.append_assoc]
    rfl
  rw [← String.toList_inj, toList_clean, toList_clean, htext, toList_slash]
  exact cleanChars_insert (foldl_push_name_parent hx _ _) _

/-- There is nothing above the root. -/
theorem clean_root_parent (v : String) : clean ("/../" ++ v) = clean ("/" ++ v) := by
  have htext : ("/../" ++ v).toList = [] ++ '/' :: (parent ++ '/' :: v.toList) := by
    rw [String.toList_append]
    rfl
  have hslash : ("/" ++ v).toList = [] ++ '/' :: v.toList := by
    rw [String.toList_append]
    rfl
  rw [← String.toList_inj, toList_clean, toList_clean, htext, hslash]
  exact cleanChars_insert rfl _

/-- A slash at the end may be left out where it is not all there is. -/
theorem clean_append_slash {u : String} (hu : u ≠ "") : clean (u ++ "/") = clean u := by
  have hne := toList_ne_nil hu
  have htext : (u ++ "/").toList = u.toList ++ '/' :: [] := String.toList_append
  have hroot : isRooted (u.toList ++ '/' :: []) = isRooted u.toList := by
    rw [isRooted, List.head?_append_of_ne_nil _ hne, isRooted]
  rw [← String.toList_inj, toList_clean, toList_clean, htext]
  refine cleanChars_congr (by simp) hne hroot ?_
  -- the slash adds one empty element
  rw [cleanElements, cleanElements, hroot, elements_append_slash, List.foldl_append]
  rfl

/-- Cleaning brings every path into its normal form, which starts at the root exactly if the path
does and ends in no slash unless it is one, and leaves exactly the texts in normal form as they are.
The normal form stays the same where a slash is doubled, where `.` or a name with `..` behind it is
put between two slashes, where `..` is put behind a slash at the root, and where a slash is put at
the end of a path that is not empty. -/
theorem clean_normalizes :
    (∀ p, IsNormalForm (isRooted p.toList) (clean p).toList ∧
      isRooted (clean p).toList = isRooted p.toList ∧
      ((clean p).toList.getLast? = some '/' → clean p = "/") ∧
      clean (clean p) = clean p ∧
      (clean p = p ↔ ∃ rooted, IsNormalForm rooted p.toList)) ∧
    (∀ u v, clean (u ++ "//" ++ v) = clean (u ++ "/" ++ v) ∧
      clean (u ++ "/./" ++ v) = clean (u ++ "/" ++ v) ∧
      ∀ x, IsName x.toList → clean (u ++ "/" ++ x ++ "/../" ++ v) = clean (u ++ "/" ++ v)) ∧
    (∀ v, clean ("/../" ++ v) = clean ("/" ++ v)) ∧
    ∀ u, u ≠ "" → clean (u ++ "/") = clean u := by
  refine ⟨?_, ?_, clean_root_parent, fun u => clean_append_slash⟩
  · intro p
    have hform := isNormalForm_cleanChars p.toList
    rw [← toList_clean] at hform
    refine ⟨hform, ?_, ?_, ?_, ?_, ?_⟩
    · rw [toList_clean, isRooted_cleanChars]
    · intro hlast
      exact String.toList_inj.mp (hform.eq_slash hlast)
    · rw [← String.toList_inj, toList_clean, toList_clean, cleanChars_cleanChars]
    · intro hfixed
      rw [hfixed] at hform
      exact ⟨_, hform⟩
    · rintro ⟨rooted, hnormal⟩
      rw [← String.toList_inj, toList_clean, cleanChars_of_isNormalForm hnormal]
  · intro u v
    exact ⟨clean_slash_slash u v, clean_slash_here u v, fun x hx => clean_slash_parent u v hx⟩

example : clean "a/../../b//./c/" = "../b/c" := by decide

end ApplianceRest.Path
