import ApplianceRest.Path.Rule
import Mathlib.Data.List.Basic

/-!
# The elements of a cleaned path

What cleaning does is seen through the elements of a path that lead anywhere, its `names`: the
others, an empty one and `.`, are dropped, and `..` takes back a name.

* `IsNormal` says what the names of a cleaned path look like, and `isNormal_cleanElements` that
  cleaning brings them there.
* `IsSettled` is a path in which cleaning takes nothing back. Cleaned paths are settled
  (`isSettled_cleanChars`), and so is a path without `..`.
* `names_joinChars`: behind a settled path, fragments without `..` are joined without any loss.
-/

namespace ApplianceRest.Path

/-- Whether an element of a path leads anywhere. -/
def counts (element : List Char) : Bool := element ≠ [] ∧ element ≠ here

/-- The elements of a path that lead anywhere. -/
def names (path : List Char) : List (List Char) := (elements path).filter counts

/-- A path from which cleaning drops only what leads nowhere. -/
def IsSettled (path : List Char) : Prop := cleanElements path = names path

theorem counts_iff {e : List Char} : counts e = true ↔ e ≠ [] ∧ e ≠ here := by
  simp [counts]

theorem counts_parent : counts parent = true := by decide

/-! ## Elements -/

@[simp] theorem elements_nil : elements [] = [[]] := rfl

theorem elements_append_slash (p q : List Char) :
    elements (p ++ '/' :: q) = elements p ++ elements q :=
  List.splitOn_append_cons_self p q

theorem elements_slash (p : List Char) : elements ('/' :: p) = [] :: elements p :=
  elements_append_slash [] p

theorem elements_of_no_slash {p : List Char} (h : '/' ∉ p) : elements p = [p] :=
  List.splitOn_eq_singleton h

theorem elements_intercalate {es : List (List Char)} (hne : es ≠ [])
    (h : ∀ e ∈ es, '/' ∉ e) : elements (List.intercalate ['/'] es) = es :=
  List.splitOn_intercalate '/' h hne

/-- Fragments keep their elements when they are joined. -/
theorem elements_intercalate_flatMap {parts : List (List Char)} (hne : parts ≠ []) :
    elements (List.intercalate ['/'] parts) = parts.flatMap elements := by
  induction parts with
  | nil => exact absurd rfl hne
  | cons p rest ih =>
    cases rest with
    | nil => simp
    | cons q rest =>
      rw [List.intercalate_cons_cons, List.append_assoc, List.singleton_append,
        elements_append_slash, ih (by simp)]
      simp only [List.flatMap_cons]

theorem intercalate_cons (e : List Char) (es : List (List Char)) :
    List.intercalate ['/'] (e :: es) = e ++ es.flatMap ('/' :: ·) := by
  induction es generalizing e with
  | nil => simp
  | cons x xs ih =>
    rw [List.intercalate_cons_cons, ih x, List.flatMap_cons, List.append_assoc]
    rfl

/-- More elements are put behind a path one by one, each with a slash in front. -/
theorem intercalate_append {es : List (List Char)} (hne : es ≠ []) (more : List (List Char)) :
    List.intercalate ['/'] (es ++ more) =
      List.intercalate ['/'] es ++ more.flatMap ('/' :: ·) := by
  obtain ⟨e, rest, rfl⟩ := List.exists_cons_of_ne_nil hne
  rw [List.cons_append, intercalate_cons, intercalate_cons, List.flatMap_append,
    List.append_assoc]

/-- Fragments put together start at the root exactly if the first one does. -/
theorem isRooted_intercalate {e : List Char} (he : e ≠ []) (es : List (List Char)) :
    isRooted (List.intercalate ['/'] (e :: es)) = isRooted e := by
  rw [intercalate_cons, isRooted, List.head?_append_of_ne_nil _ he, isRooted]

/-- Any other character than a slash goes in front of the first element. -/
theorem elements_cons {c : Char} (hc : c ≠ '/') (p : List Char) :
    ∃ first rest, elements p = first :: rest ∧ elements (c :: p) = (c :: first) :: rest := by
  obtain ⟨first, rest, hp⟩ := List.exists_cons_of_ne_nil (List.splitOn_ne_nil '/' p)
  refine ⟨first, rest, hp, ?_⟩
  rw [elements, List.splitOn_cons_eq_if_modifyHead, if_neg (by simpa using hc), hp]
  rfl

theorem no_slash_of_mem_elements {p e : List Char} (h : e ∈ elements p) : '/' ∉ e := by
  induction p generalizing e with
  | nil =>
    have he : e = [] := by simpa using h
    simp [he]
  | cons c p ih =>
    by_cases hc : c = '/'
    · rw [hc, elements_slash] at h
      rcases List.mem_cons.mp h with he | hmem
      · simp [he]
      · exact ih hmem
    · obtain ⟨first, rest, hp, hcons⟩ := elements_cons hc p
      rw [hcons] at h
      rcases List.mem_cons.mp h with he | hmem
      · have hfirst : '/' ∉ first := ih (by simp [hp])
        simp [he, hfirst, Ne.symm hc]
      · exact ih (by simp [hp, hmem])

/-- The characters of an element are those of the path. -/
theorem mem_of_mem_elements {p e : List Char} {c : Char} (he : e ∈ elements p) (hc : c ∈ e) :
    c ∈ p := by
  induction p generalizing e with
  | nil =>
    have hnil : e = [] := by simpa using he
    simp [hnil] at hc
  | cons d p ih =>
    by_cases hd : d = '/'
    · rw [hd, elements_slash] at he
      rcases List.mem_cons.mp he with hnil | hmem
      · simp [hnil] at hc
      · exact List.mem_cons_of_mem _ (ih hmem hc)
    · obtain ⟨first, rest, hp, hcons⟩ := elements_cons hd p
      rw [hcons] at he
      rcases List.mem_cons.mp he with hfirst | hmem
      · rw [hfirst] at hc
        rcases List.mem_cons.mp hc with hcd | hc
        · simp [hcd]
        · exact List.mem_cons_of_mem _ (ih (by simp [hp]) hc)
      · exact List.mem_cons_of_mem _ (ih (by simp [hp, hmem]) hc)

/-- A path that starts with something else than a slash has a first element with a text. -/
theorem exists_mem_elements_ne_nil {p : List Char} (hne : p ≠ []) (hroot : isRooted p = false) :
    ∃ e ∈ elements p, e ≠ [] := by
  cases p with
  | nil => exact absurd rfl hne
  | cons c p =>
    have hc : c ≠ '/' := by simpa [isRooted] using hroot
    obtain ⟨first, rest, _, hcons⟩ := elements_cons hc p
    exact ⟨c :: first, by simp [hcons], by simp⟩

/-! ## Names -/

@[simp] theorem names_nil : names [] = [] := rfl

theorem names_slash (p : List Char) : names ('/' :: p) = names p := by
  rw [names, elements_slash]
  rfl

theorem names_append_slash (p : List Char) : names (p ++ ['/']) = names p := by
  have h : names (p ++ ['/']) = (elements p ++ elements []).filter counts :=
    congrArg (List.filter counts) (elements_append_slash p [])
  rw [h, List.filter_append, names]
  simp [counts]

theorem mem_names {p e : List Char} : e ∈ names p ↔ e ∈ elements p ∧ e ≠ [] ∧ e ≠ here := by
  rw [names, List.mem_filter, counts_iff]

theorem no_slash_of_mem_names {p e : List Char} (h : e ∈ names p) : '/' ∉ e :=
  no_slash_of_mem_elements (mem_names.mp h).1

/-- The names of names that are joined are those names. -/
theorem names_intercalate {es : List (List Char)}
    (h : ∀ e ∈ es, '/' ∉ e ∧ counts e = true) :
    names (List.intercalate ['/'] es) = es := by
  by_cases hes : es = []
  · subst hes
    rfl
  · rw [names, elements_intercalate hes fun e he => (h e he).1]
    exact List.filter_eq_self.mpr fun e he => (h e he).2

/-! ## Pushing elements -/

theorem push_of_not_counts {e : List Char} (h : counts e = false) (rooted : Bool)
    (done : List (List Char)) : push rooted done e = done := by
  have he : e = [] ∨ e = here := by
    by_contra hno
    have htrue : counts e = true := counts_iff.mpr (not_or.mp hno)
    simp [h] at htrue
  rw [push.eq_def, if_pos he]

/-- A step up from where only steps up are left is kept, unless the path is rooted. -/
theorem push_parent_replicate (ups : Nat) :
    push false (List.replicate ups parent) parent = List.replicate (ups + 1) parent := by
  cases ups with
  | zero => rfl
  | succ k => rfl

theorem push_parent_name {last : List Char} (h : last ≠ parent) (rooted : Bool)
    (before : List (List Char)) : push rooted (last :: before) parent = before := by
  have hcounts : ¬(parent = [] ∨ parent = here) := by decide
  rw [push.eq_def, if_neg hcounts, if_pos rfl]
  exact if_neg h

theorem push_name {e : List Char} (h : counts e = true) (hup : e ≠ parent) (rooted : Bool)
    (done : List (List Char)) : push rooted done e = e :: done := by
  have he : ¬(e = [] ∨ e = here) := not_or.mpr (counts_iff.mp h)
  rw [push.eq_def, if_neg he, if_neg hup]

/-- Elements that lead nowhere do not matter. -/
theorem foldl_push_filter (rooted : Bool) (es done : List (List Char)) :
    es.foldl (push rooted) done = (es.filter counts).foldl (push rooted) done := by
  induction es generalizing done with
  | nil => rfl
  | cons e es ih =>
    cases hc : counts e with
    | true => rw [List.filter_cons_of_pos hc, List.foldl_cons, List.foldl_cons, ih]
    | false =>
      rw [List.filter_cons_of_neg (by simp [hc]), List.foldl_cons, push_of_not_counts hc, ih]

/-- Without `..`, every name is kept. -/
theorem foldl_push_of_no_parent (rooted : Bool) {es : List (List Char)} (h : parent ∉ es)
    (done : List (List Char)) :
    es.foldl (push rooted) done = (es.filter counts).reverse ++ done := by
  induction es generalizing done with
  | nil => rfl
  | cons e es ih =>
    have hes : parent ∉ es := fun hmem => h (List.mem_cons_of_mem _ hmem)
    rw [List.foldl_cons]
    cases hc : counts e with
    | true =>
      have hup : e ≠ parent := fun he => h (by simp [he])
      rw [push_name hc hup, ih hes, List.filter_cons_of_pos hc]
      simp
    | false => rw [push_of_not_counts hc, ih hes, List.filter_cons_of_neg (by simp [hc])]

/-! ## The normal form -/

/-- What the elements of a cleaned path look like: first the steps up that were left over, of which
a path from the root has none, then names. -/
def IsNormal (rooted : Bool) (es : List (List Char)) : Prop :=
  ∃ ups ns, es = List.replicate ups parent ++ ns ∧ (rooted = true → ups = 0) ∧
    ∀ n ∈ ns, counts n = true ∧ n ≠ parent ∧ '/' ∉ n

/-- One element keeps the normal form. The path that is cleaned so far stands in reverse. -/
theorem isNormal_push {rooted : Bool} {done : List (List Char)} {e : List Char}
    (hdone : IsNormal rooted done.reverse) (he : '/' ∉ e) :
    IsNormal rooted (push rooted done e).reverse := by
  obtain ⟨ups, ns, hes, hroot, hns⟩ := hdone
  have hdone : done = ns.reverse ++ List.replicate ups parent := by
    have hback : done = done.reverse.reverse := done.reverse_reverse.symm
    rw [hback, hes]
    simp
  cases hc : counts e with
  | false =>
    rw [push_of_not_counts hc]
    exact ⟨ups, ns, hes, hroot, hns⟩
  | true =>
    by_cases hup : e = parent
    · subst hup
      rcases List.eq_nil_or_concat ns with hnil | ⟨front, last, hlast⟩
      · -- no name to take back: the step up is kept unless the path is rooted
        subst hnil
        cases rooted with
        | true =>
          have hzero : ups = 0 := hroot rfl
          subst hzero
          exact ⟨0, [], by rw [hdone]; rfl, hroot, by simp⟩
        | false =>
          refine ⟨ups + 1, [], ?_, by simp, by simp⟩
          rw [hdone, List.reverse_nil, List.nil_append, push_parent_replicate]
          simp
      · rw [List.concat_eq_append] at hlast
        subst hlast
        refine ⟨ups, front, ?_, hroot, fun n hn => hns n (by simp [hn])⟩
        have hne : last ≠ parent := (hns last (by simp)).2.1
        rw [hdone, List.reverse_concat, List.cons_append, push_parent_name hne]
        simp
    · rw [push_name hc hup, List.reverse_cons, hes]
      refine ⟨ups, ns ++ [e], by simp, hroot, fun n hn => ?_⟩
      rcases List.mem_append.mp hn with hn | hn
      · exact hns n hn
      · rw [List.mem_singleton.mp hn]
        exact ⟨hc, hup, he⟩

/-- Whatever elements are pushed, the normal form is there at the end. -/
theorem isNormal_foldl_push {rooted : Bool} {es done : List (List Char)} (hes : ∀ e ∈ es, '/' ∉ e)
    (hdone : IsNormal rooted done.reverse) :
    IsNormal rooted (es.foldl (push rooted) done).reverse := by
  -- by induction on the elements that are still to come
  induction es generalizing done with
  | nil => exact hdone
  | cons e es ih =>
    exact ih (fun x hx => hes x (List.mem_cons_of_mem _ hx))
      (isNormal_push hdone (hes e List.mem_cons_self))

theorem isNormal_nil (rooted : Bool) : IsNormal rooted [] := ⟨0, [], rfl, fun _ => rfl, by simp⟩

/-- Cleaning a path gives elements in normal form. -/
theorem isNormal_cleanElements (p : List Char) : IsNormal (isRooted p) (cleanElements p) :=
  isNormal_foldl_push (fun _ he => no_slash_of_mem_elements he) (isNormal_nil _)

/-- Elements in normal form are kept by cleaning. -/
theorem foldl_push_normal {rooted : Bool} {es : List (List Char)} (h : IsNormal rooted es) :
    es.foldl (push rooted) [] = es.reverse := by
  obtain ⟨ups, ns, rfl, hroot, hns⟩ := h
  have hups : (List.replicate ups parent).foldl (push rooted) [] = List.replicate ups parent := by
    cases rooted with
    | true => simp [hroot rfl]
    | false =>
      -- nothing is there to take back, so each step up is kept
      induction ups with
      | zero => rfl
      | succ k ih =>
        rw [List.replicate_succ', List.foldl_append, ih (by simp), List.foldl_cons,
          List.foldl_nil, push_parent_replicate, List.replicate_succ']
  have hnone : parent ∉ ns := fun hmem => (hns parent hmem).2.1 rfl
  have hall : ns.filter counts = ns := List.filter_eq_self.mpr fun n hn => (hns n hn).1
  rw [List.foldl_append, hups, foldl_push_of_no_parent rooted hnone, hall]
  simp

/-- Each element in normal form leads somewhere and is one element. -/
theorem IsNormal.mem {rooted : Bool} {es : List (List Char)} (h : IsNormal rooted es)
    {e : List Char} (he : e ∈ es) : '/' ∉ e ∧ counts e = true := by
  obtain ⟨ups, ns, rfl, -, hns⟩ := h
  rcases List.mem_append.mp he with hup | hn
  · rw [List.eq_of_mem_replicate hup]
    decide
  · exact ⟨(hns e hn).2.2, (hns e hn).1⟩

/-! ## Cleaned paths -/

theorem cleanChars_ne_nil (p : List Char) : cleanChars p ≠ [] := by
  intro h
  rw [cleanChars] at h
  split at h
  · exact absurd h (by decide)
  · dsimp only at h
    split at h
    · exact absurd h (List.cons_ne_nil _ _)
    · split at h
      · exact absurd h (by decide)
      · exact absurd h ‹_›

theorem names_intercalate_cleanElements (p : List Char) :
    names (List.intercalate ['/'] (cleanElements p)) = cleanElements p :=
  names_intercalate fun _ he => (isNormal_cleanElements p).mem he

/-- The names of a cleaned path are the elements that cleaning left. -/
theorem names_cleanChars (p : List Char) : names (cleanChars p) = cleanElements p := by
  have hjoined := names_intercalate_cleanElements p
  rw [cleanChars]
  split
  · next hp =>
    subst hp
    rfl
  · dsimp only
    split
    · rw [names_slash, hjoined]
    · split
      · next hempty =>
        rw [hempty] at hjoined
        rw [← hjoined]
        rfl
      · exact hjoined

/-- Elements in normal form start with no slash when they are put together. -/
theorem isRooted_intercalate_normal {rooted : Bool} {es : List (List Char)}
    (h : IsNormal rooted es) : isRooted (List.intercalate ['/'] es) = false := by
  cases es with
  | nil => rfl
  | cons e es =>
    obtain ⟨hslash, hcounts⟩ := h.mem List.mem_cons_self
    obtain ⟨hne, -⟩ := counts_iff.mp hcounts
    obtain ⟨c, cs, rfl⟩ := List.exists_cons_of_ne_nil hne
    have hc : c ≠ '/' := fun heq => hslash (by simp [heq])
    rw [isRooted_intercalate (by simp)]
    simp [isRooted, hc]

theorem isRooted_cleanChars (p : List Char) : isRooted (cleanChars p) = isRooted p := by
  rw [cleanChars]
  split
  · next hp =>
    subst hp
    rfl
  · dsimp only
    split
    · next hroot => rw [hroot]; rfl
    · next hroot =>
      have hp : isRooted p = false := by simpa using hroot
      rw [hp]
      split
      · rfl
      · exact isRooted_intercalate_normal (isNormal_cleanElements p)

/-- A cleaned path is settled. -/
theorem isSettled_cleanChars (p : List Char) : IsSettled (cleanChars p) := by
  have hnormal := isNormal_cleanElements p
  rw [IsSettled, cleanElements, isRooted_cleanChars, foldl_push_filter, ← names,
    names_cleanChars, foldl_push_normal hnormal, List.reverse_reverse]

/-- A path without `..` is settled. -/
theorem isSettled_of_no_parent {p : List Char} (h : parent ∉ elements p) : IsSettled p := by
  rw [IsSettled, cleanElements, foldl_push_of_no_parent _ h, names]
  simp

theorem isSettled_append_slash {p : List Char} (h : IsSettled p) : IsSettled (p ++ ['/']) := by
  by_cases hp : p = []
  · subst hp
    rfl
  · have hroot : isRooted (p ++ ['/']) = isRooted p := by
      rw [isRooted, List.head?_append_of_ne_nil _ hp, isRooted]
    -- the slash adds one element, which is empty and leads nowhere
    rw [IsSettled, names_append_slash, ← h, cleanElements, hroot, foldl_push_filter, ← names,
      names_append_slash, cleanElements, foldl_push_filter _ (elements p), names]

/-- A cleaned path that leads anywhere is its elements between single slashes, and it has a slash in
front if the path started at the root. -/
theorem cleanChars_eq_of_ne_here {p : List Char} (h : cleanChars p ≠ here) :
    cleanChars p =
      (if isRooted p then ['/'] else []) ++ List.intercalate ['/'] (cleanElements p) := by
  have hp : p ≠ [] := by
    intro hp
    subst hp
    exact h rfl
  rw [cleanChars, if_neg hp] at h ⊢
  cases hroot : isRooted p with
  | true => rfl
  | false =>
    rw [hroot, if_neg Bool.false_ne_true] at h
    have hjoined : List.intercalate ['/'] (cleanElements p) ≠ [] := fun hj => h (if_pos hj)
    simp [hjoined]

/-- A cleaned path that has names is these names between single slashes, and it has a slash in
front if the path started at the root. -/
theorem cleanChars_eq {p : List Char} (h : names (cleanChars p) ≠ []) :
    cleanChars p =
      (if isRooted p then ['/'] else []) ++ List.intercalate ['/'] (names (cleanChars p)) := by
  rw [names_cleanChars]
  refine cleanChars_eq_of_ne_here fun hhere => h ?_
  rw [hhere]
  rfl

/-- What a cleaned path looks like as a text: `.` or `/`, or elements in normal form between single
slashes, which stand behind a slash if the path starts at the root. -/
def IsNormalForm (rooted : Bool) (text : List Char) : Prop :=
  (rooted = false ∧ text = here) ∨ (rooted = true ∧ text = ['/']) ∨
    ∃ es ≠ [], IsNormal rooted es ∧
      text = (if rooted then ['/'] else []) ++ List.intercalate ['/'] es

/-- Cleaning brings a path into normal form. -/
theorem isNormalForm_cleanChars (p : List Char) : IsNormalForm (isRooted p) (cleanChars p) := by
  by_cases hhere : cleanChars p = here
  · -- a path from the root is never `.`
    have hroot := isRooted_cleanChars p
    rw [hhere] at hroot
    exact Or.inl ⟨hroot.symm, hhere⟩
  · have htext := cleanChars_eq_of_ne_here hhere
    by_cases hes : cleanElements p = []
    · rw [hes] at htext
      cases hroot : isRooted p with
      | true =>
        rw [hroot] at htext
        exact Or.inr (Or.inl ⟨rfl, htext⟩)
      | false =>
        rw [hroot] at htext
        exact absurd htext (cleanChars_ne_nil p)
    · exact Or.inr (Or.inr ⟨cleanElements p, hes, isNormal_cleanElements p, htext⟩)

/-- Cleaning leaves a path in normal form as it is. -/
theorem cleanChars_of_isNormalForm {rooted : Bool} {text : List Char}
    (h : IsNormalForm rooted text) : cleanChars text = text := by
  rcases h with ⟨-, rfl⟩ | ⟨-, rfl⟩ | ⟨es, hes, hnormal, htext⟩
  · rfl
  · rfl
  · -- the names of the text are the elements it is made of, and they are kept
    have hjoined := isRooted_intercalate_normal hnormal
    have hroot : isRooted text = rooted := by
      rw [htext]
      cases rooted with
      | true => rfl
      | false => exact hjoined
    have hnames : names text = es := by
      have hall := names_intercalate fun e he => hnormal.mem he
      rw [htext]
      cases rooted with
      | true => exact (names_slash _).trans hall
      | false => exact hall
    have hkept : cleanElements text = es := by
      rw [cleanElements, hroot, foldl_push_filter, ← names, hnames, foldl_push_normal hnormal,
        List.reverse_reverse]
    have hne : text ≠ [] := by
      rintro rfl
      exact hes hnames.symm
    have hsome : List.intercalate ['/'] es ≠ [] := by
      intro hnil
      have hall := names_intercalate fun e he => hnormal.mem he
      rw [hnil] at hall
      exact hes hall.symm
    rw [cleanChars, if_neg hne, hkept, hroot]
    cases rooted with
    | true => exact htext.symm
    | false => exact (if_neg hsome).trans htext.symm

/-- Cleaning a cleaned path changes nothing. -/
theorem cleanChars_cleanChars (p : List Char) : cleanChars (cleanChars p) = cleanChars p :=
  cleanChars_of_isNormalForm (isNormalForm_cleanChars p)

/-- A cleaned path with a slash put before it where it has none. -/
theorem slash_cleanChars {p : List Char} (h : names (cleanChars p) ≠ []) :
    (if isRooted (cleanChars p) then [] else ['/']) ++ cleanChars p =
      '/' :: List.intercalate ['/'] (names (cleanChars p)) := by
  have heq := cleanChars_eq h
  rw [isRooted_cleanChars]
  cases hroot : isRooted p with
  | true =>
    rw [hroot, if_pos rfl] at heq
    exact heq
  | false =>
    rw [hroot, if_neg Bool.false_ne_true, List.nil_append] at heq
    rw [if_neg Bool.false_ne_true, ← heq]
    rfl

theorem mem_push {rooted : Bool} {done : List (List Char)} {e x : List Char}
    (h : x ∈ push rooted done e) : x ∈ done ∨ x = e := by
  cases hc : counts e with
  | false =>
    rw [push_of_not_counts hc] at h
    exact Or.inl h
  | true =>
    by_cases hup : e = parent
    · subst hup
      cases done with
      | nil => cases rooted <;> simp_all [push, parent, here]
      | cons last before =>
        by_cases hlast : last = parent
        · subst hlast
          cases rooted <;> simp_all [push, parent, here]
        · rw [push_parent_name hlast] at h
          exact Or.inl (List.mem_cons_of_mem _ h)
    · rw [push_name hc hup] at h
      rcases List.mem_cons.mp h with hx | hx
      · exact Or.inr hx
      · exact Or.inl hx

/-- Cleaning makes up no element. -/
theorem mem_elements_of_mem_cleanElements {p e : List Char} (h : e ∈ cleanElements p) :
    e ∈ elements p := by
  have hfold : ∀ es done : List (List Char), e ∈ es.foldl (push (isRooted p)) done →
      e ∈ done ∨ e ∈ es := by
    -- one push keeps what is there, takes from it, or adds the element it is about
    intro es
    induction es with
    | nil => exact fun done hmem => Or.inl hmem
    | cons x es ih =>
      intro done hmem
      rcases ih _ hmem with hpush | hes
      · rcases mem_push hpush with hdone | hx
        · exact Or.inl hdone
        · exact Or.inr (by simp [hx])
      · exact Or.inr (List.mem_cons_of_mem _ hes)
  rcases hfold (elements p) [] (by simpa [cleanElements] using h) with hnil | hmem
  · exact absurd hnil List.not_mem_nil
  · exact hmem

theorem mem_intercalate {es : List (List Char)} {c : Char}
    (h : c ∈ List.intercalate ['/'] es) : c = '/' ∨ ∃ e ∈ es, c ∈ e := by
  cases es with
  | nil => exact absurd h List.not_mem_nil
  | cons e rest =>
    rw [intercalate_cons] at h
    rcases List.mem_append.mp h with hc | hc
    · exact Or.inr ⟨e, List.mem_cons_self, hc⟩
    · obtain ⟨x, hx, hcx⟩ := List.mem_flatMap.mp hc
      rcases List.mem_cons.mp hcx with hslash | hcx
      · exact Or.inl hslash
      · exact Or.inr ⟨x, List.mem_cons_of_mem _ hx, hcx⟩

/-- Cleaning makes up no characters but the slash and the dot. -/
theorem mem_cleanChars {p : List Char} {c : Char} (h : c ∈ cleanChars p) :
    c = '/' ∨ c = '.' ∨ c ∈ p := by
  have hjoined : c ∈ List.intercalate ['/'] (cleanElements p) → c = '/' ∨ c = '.' ∨ c ∈ p := by
    intro hc
    rcases mem_intercalate hc with hslash | ⟨e, he, hce⟩
    · exact Or.inl hslash
    · exact Or.inr (Or.inr (mem_of_mem_elements (mem_elements_of_mem_cleanElements he) hce))
  have hhere : c ∈ here → c = '/' ∨ c = '.' ∨ c ∈ p :=
    fun hc => Or.inr (Or.inl (List.mem_singleton.mp hc))
  rw [cleanChars] at h
  split at h
  · exact hhere h
  · dsimp only at h
    split at h
    · rcases List.mem_cons.mp h with hslash | hc
      · exact Or.inl hslash
      · exact hjoined hc
    · split at h
      · exact hhere h
      · exact hjoined h

/-! ## Joined fragments -/

/-- Joined fragments are nothing, where all of them are empty, or a cleaned path. -/
theorem joinChars_cases (fragments : List (List Char)) :
    ((∀ f ∈ fragments, f = []) ∧ joinChars fragments = []) ∨
      (fragments.filter (· ≠ []) ≠ [] ∧ joinChars fragments =
        cleanChars (List.intercalate ['/'] (fragments.filter (· ≠ [])))) := by
  by_cases hparts : fragments.filter (· ≠ []) = []
  · refine Or.inl ⟨?_, if_pos hparts⟩
    intro f hf
    simpa using List.filter_eq_nil_iff.mp hparts f hf
  · exact Or.inr ⟨hparts, if_neg hparts⟩

theorem joinChars_eq_nil {fragments : List (List Char)} :
    joinChars fragments = [] ↔ ∀ f ∈ fragments, f = [] := by
  constructor
  · intro h
    rcases joinChars_cases fragments with ⟨hall, _⟩ | ⟨_, hclean⟩
    · exact hall
    · exact absurd (hclean.symm.trans h) (cleanChars_ne_nil _)
  · intro hall
    have hparts : fragments.filter (· ≠ []) = [] :=
      List.filter_eq_nil_iff.mpr fun f hf => by simp [hall f hf]
    exact if_pos hparts

/-- Joining makes up no characters but the slash and the dot. -/
theorem mem_joinChars {fragments : List (List Char)} {c : Char} (h : c ∈ joinChars fragments) :
    c = '/' ∨ c = '.' ∨ ∃ f ∈ fragments, c ∈ f := by
  rcases joinChars_cases fragments with ⟨_, hnil⟩ | ⟨_, hclean⟩
  · rw [hnil] at h
    exact absurd h List.not_mem_nil
  · rw [hclean] at h
    rcases mem_cleanChars h with hslash | hdot | hmem
    · exact Or.inl hslash
    · exact Or.inr (Or.inl hdot)
    · rcases mem_intercalate hmem with hslash | ⟨f, hf, hc⟩
      · exact Or.inl hslash
      · exact Or.inr (Or.inr ⟨f, List.mem_of_mem_filter hf, hc⟩)

theorem isSettled_joinChars (fragments : List (List Char)) : IsSettled (joinChars fragments) := by
  rcases joinChars_cases fragments with ⟨_, hnil⟩ | ⟨_, hclean⟩
  · rw [hnil]
    rfl
  · rw [hclean]
    exact isSettled_cleanChars _

theorem joinChars_singleton {f : List Char} (h : f ≠ []) : joinChars [f] = cleanChars f := by
  simp [joinChars, h]

/-- The names of fragments are those of their non-empty ones. -/
theorem flatMap_names_filter (fragments : List (List Char)) :
    (fragments.filter (· ≠ [])).flatMap names = fragments.flatMap names := by
  induction fragments with
  | nil => rfl
  | cons f rest ih =>
    by_cases hf : f = []
    · subst hf
      simpa using ih
    · rw [List.filter_cons_of_pos (by simpa using hf), List.flatMap_cons, ih, List.flatMap_cons]

/-- Fragments keep their names when they are put together with slashes. -/
theorem names_intercalate_flatMap (parts : List (List Char)) :
    names (List.intercalate ['/'] parts) = parts.flatMap names := by
  by_cases hparts : parts = []
  · subst hparts
    rfl
  · rw [names, elements_intercalate_flatMap hparts, List.filter_flatMap]
    rfl

/-- Where no fragment holds `..`, the elements of the fragments joined in any way hold none. -/
theorem parent_not_mem_intercalate {parts : List (List Char)}
    (h : ∀ f ∈ parts, parent ∉ elements f) :
    parent ∉ elements (List.intercalate ['/'] parts) := by
  by_cases hparts : parts = []
  · subst hparts
    decide
  · rw [elements_intercalate_flatMap hparts, List.mem_flatMap]
    rintro ⟨f, hf, hmem⟩
    exact h f hf hmem

/-- Behind a settled path, fragments without `..` are joined without any loss. -/
theorem names_joinChars {p : List Char} (hp : IsSettled p) {rest : List (List Char)}
    (hrest : ∀ f ∈ rest, parent ∉ elements f) :
    names (joinChars (p :: rest)) = names p ++ rest.flatMap names := by
  have hparts : ∀ f ∈ rest.filter (· ≠ []), parent ∉ elements f :=
    fun f hf => hrest f (List.mem_of_mem_filter hf)
  rcases joinChars_cases (p :: rest) with ⟨hall, hnil⟩ | ⟨_, hjoin⟩
  · -- all fragments are empty
    have hnone : rest.flatMap names = [] := by
      rw [List.flatMap_eq_nil_iff]
      intro f hf
      rw [hall f (List.mem_cons_of_mem _ hf), names_nil]
    rw [hnil, hnone, hall p List.mem_cons_self]
    rfl
  · rw [hjoin, names_cleanChars]
    by_cases hpnil : p = []
    · -- the path in front is empty, and nothing else holds `..`
      subst hpnil
      rw [List.filter_cons_of_neg (by simp),
        isSettled_of_no_parent (parent_not_mem_intercalate hparts), names_intercalate_flatMap,
        flatMap_names_filter, names_nil, List.nil_append]
    · -- cleaning leaves the settled path as it is, and takes nothing back behind it
      rw [List.filter_cons_of_pos (by simpa using hpnil)]
      have hroot := isRooted_intercalate hpnil (rest.filter (· ≠ []))
      have hup : parent ∉ (rest.filter (· ≠ [])).flatMap elements := by
        rw [List.mem_flatMap]
        rintro ⟨f, hf, hmem⟩
        exact hparts f hf hmem
      have hnames : ((rest.filter (· ≠ [])).flatMap elements).filter counts =
          rest.flatMap names := by
        rw [List.filter_flatMap, ← flatMap_names_filter rest]
        rfl
      rw [cleanElements, hroot, elements_intercalate_flatMap (by simp), List.flatMap_cons,
        List.foldl_append, foldl_push_of_no_parent _ hup, hnames, List.reverse_append,
        List.reverse_reverse, ← cleanElements, hp]

/-- Fragments that hold no `..` keep all their names. -/
theorem names_joinChars_of_no_parent {fragments : List (List Char)}
    (h : ∀ f ∈ fragments, parent ∉ elements f) :
    names (joinChars fragments) = fragments.flatMap names := by
  cases fragments with
  | nil => rfl
  | cons f rest =>
    rw [names_joinChars (isSettled_of_no_parent (h f List.mem_cons_self))
      fun g hg => h g (List.mem_cons_of_mem _ hg), List.flatMap_cons]

end ApplianceRest.Path
