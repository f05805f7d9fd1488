import ApplianceRest.Proofs.Path.Joining
import Mathlib.Data.List.Infix

/-!
# Lexically clean paths

A path is lexically clean if its slashes are single and no element of it is `.` or `..`. Joining
gives such a path wherever it starts at the root. Without a root it may leave steps up, or `.` where
nothing is left, and the names of the fragments tell whether it does: they have to lead down
(`LeadsDown`).

* `foldl_push_unrooted`: pushing names keeps no step up as long as each has a name to take back.
* `isLexicallyClean_join`: which fragments are joined to a path that is lexically clean.
* `isLexicallyClean_append_slash`: what a slash at the end does to it.
-/

namespace ApplianceRest.Path

/-- Whether a path has single slashes only, and no element that is `.` or `..`. -/
structure IsLexicallyClean (path : String) : Prop where
  noDoubledSlash : ¬['/', '/'] <:+: path.toList
  noDots : ∀ e ∈ elements path.toList, e ≠ here ∧ e ≠ parent

instance (path : String) : Decidable (IsLexicallyClean path) :=
  decidable_of_iff (¬['/', '/'] <:+: path.toList ∧
    ∀ e ∈ elements path.toList, e ≠ here ∧ e ≠ parent)
    ⟨fun h => ⟨h.1, h.2⟩, fun h => ⟨h.noDoubledSlash, h.noDots⟩⟩

/-! ## Names that lead down -/

/-- Whether names nowhere lead above where they start: each step up has a name to take back. -/
def StaysBelow (ns : List (List Char)) : Prop :=
  ∀ front ∈ ns.inits, front.count parent ≤ front.countP (· ≠ parent)

/-- Whether names lead down from where they start: nowhere above it, and not back to it. -/
def LeadsDown (ns : List (List Char)) : Prop :=
  StaysBelow ns ∧ ns.count parent < ns.countP (· ≠ parent)

variable {ns : List (List Char)} {n : List Char}

theorem staysBelow_concat :
    StaysBelow (ns ++ [n]) ↔
      StaysBelow ns ∧ (ns ++ [n]).count parent ≤ (ns ++ [n]).countP (· ≠ parent) := by
  unfold StaysBelow
  rw [List.inits_append, List.forall_mem_append]
  simp

theorem count_concat_parent : (ns ++ [parent]).count parent = ns.count parent + 1 := by
  simp

theorem count_concat_name (hn : n ≠ parent) : (ns ++ [n]).count parent = ns.count parent := by
  simp [hn]

theorem countP_concat_parent :
    (ns ++ [parent]).countP (· ≠ parent) = ns.countP (· ≠ parent) := by
  simp

theorem countP_concat_name (hn : n ≠ parent) :
    (ns ++ [n]).countP (· ≠ parent) = ns.countP (· ≠ parent) + 1 := by
  simp [hn]

/-- Without a root, a step up is kept where no name is there to take back. -/
theorem push_parent_unrooted (left : List (List Char)) :
    (parent ∉ push false left parent ↔ left ≠ [] ∧ parent ∉ left) ∧
      (left ≠ [] → parent ∉ left → (push false left parent).length + 1 = left.length) := by
  cases left with
  | nil =>
    constructor
    · decide
    · intro hne
      exact absurd rfl hne
  | cons last front =>
    by_cases hlast : last = parent
    · subst hlast
      have hkept : push false (parent :: front) parent = parent :: parent :: front := rfl
      rw [hkept]
      simp
    · rw [push_parent_name hlast]
      simp [Ne.symm hlast]

/-- Names pushed without a root leave no step up exactly if they stay below their start, and then
those are left that no step up has taken back. -/
theorem foldl_push_unrooted (h : ∀ n ∈ ns, counts n = true) :
    (parent ∉ ns.foldl (push false) [] ↔ StaysBelow ns) ∧
      (parent ∉ ns.foldl (push false) [] →
        (ns.foldl (push false) []).length + ns.count parent = ns.countP (· ≠ parent)) := by
  -- by induction on the names from the left: what is left of them tells how far down they lead
  induction ns using List.reverseRec with
  | nil =>
    refine ⟨?_, fun _ => rfl⟩
    unfold StaysBelow
    simp
  | append_singleton before n ih =>
    rw [List.forall_mem_append, List.forall_mem_singleton] at h
    obtain ⟨hbelow, hlength⟩ := ih h.1
    rw [List.foldl_concat, staysBelow_concat]
    generalize before.foldl (push false) [] = left at hbelow hlength
    by_cases hn : n = parent
    · subst hn
      obtain ⟨hkept, htaken⟩ := push_parent_unrooted left
      rw [hkept, count_concat_parent, countP_concat_parent]
      refine ⟨⟨?_, ?_⟩, ?_⟩
      · rintro ⟨hne, hno⟩
        have hpos := List.length_pos_of_ne_nil hne
        have hall := hlength hno
        exact ⟨hbelow.mp hno, by omega⟩
      · rintro ⟨hstays, hle⟩
        have hno := hbelow.mpr hstays
        have hall := hlength hno
        have hpos : 0 < left.length := by omega
        exact ⟨List.ne_nil_of_length_pos hpos, hno⟩
      · rintro ⟨hne, hno⟩
        have hall := hlength hno
        have hone := htaken hne hno
        omega
    · rw [push_name h.2 hn, count_concat_name hn, countP_concat_name hn, List.mem_cons, not_or,
        and_iff_right (Ne.symm hn), List.length_cons]
      refine ⟨⟨?_, ?_⟩, ?_⟩
      · intro hno
        have hall := hlength hno
        exact ⟨hbelow.mp hno, by omega⟩
      · rintro ⟨hstays, -⟩
        exact hbelow.mpr hstays
      · intro hno
        have hall := hlength hno
        omega

/-- The elements of a cleaned path without a root are names, and there are some, exactly if the names
of the path lead down. -/
theorem cleanElements_unrooted {p : List Char} (hroot : isRooted p = false) :
    (parent ∉ cleanElements p ∧ cleanElements p ≠ []) ↔ LeadsDown (names p) := by
  have hcounts : ∀ n ∈ names p, counts n = true := fun n hn => (List.mem_filter.mp hn).2
  obtain ⟨hbelow, hlength⟩ := foldl_push_unrooted hcounts
  unfold cleanElements LeadsDown
  rw [hroot, foldl_push_filter, ← names, List.mem_reverse, Ne, List.reverse_eq_nil_iff,
    ← List.length_eq_zero_iff]
  constructor
  · rintro ⟨hno, hne⟩
    have hall := hlength hno
    exact ⟨hbelow.mp hno, by omega⟩
  · rintro ⟨hstays, hlt⟩
    have hno := hbelow.mpr hstays
    have hall := hlength hno
    exact ⟨hno, by omega⟩

/-! ## Cleaned paths -/

/-- The elements of a text in normal form. -/
theorem IsNormalForm.elements_cases {rooted : Bool} {text : List Char}
    (h : IsNormalForm rooted text) :
    (rooted = false ∧ text = here) ∨ (rooted = true ∧ text = ['/']) ∨
      ∃ es ≠ [], IsNormal rooted es ∧ elements text = (if rooted then [[]] else []) ++ es := by
  rcases h with hhere | hslash | ⟨es, hes, hnormal, rfl⟩
  · exact Or.inl hhere
  · exact Or.inr (Or.inl hslash)
  · have helements := elements_intercalate hes fun e he => (hnormal.mem he).1
    refine Or.inr (Or.inr ⟨es, hes, hnormal, ?_⟩)
    cases rooted with
    | true => exact (elements_slash _).trans (congrArg ([] :: ·) helements)
    | false => exact helements

/-- No text in normal form has a doubled slash. -/
theorem IsNormalForm.no_doubled_slash {rooted : Bool} {text : List Char}
    (h : IsNormalForm rooted text) : ¬['/', '/'] <:+: text := by
  rintro ⟨a, b, hab⟩
  -- between the two slashes there would be an element without a text, and others around it
  have hsplit : elements text = elements a ++ [] :: elements b := by
    rw [← hab, List.append_assoc]
    exact (elements_append_slash a ('/' :: b)).trans (by rw [elements_slash])
  have ha : elements a ≠ [] := List.splitOn_ne_nil '/' a
  have hb : elements b ≠ [] := List.splitOn_ne_nil '/' b
  have hthree : 2 < (elements text).length := by
    have hfront := List.length_pos_of_ne_nil ha
    have hbehind := List.length_pos_of_ne_nil hb
    rw [hsplit, List.length_append, List.length_cons]
    omega
  rcases h.elements_cases with ⟨-, rfl⟩ | ⟨-, rfl⟩ | ⟨es, -, hnormal, hes⟩
  · exact absurd hthree (by decide)
  · exact absurd hthree (by decide)
  · have hmem : [] ∈ es := by
      rw [hsplit] at hes
      cases rooted with
      | true =>
        rcases List.append_eq_cons_iff.mp hes with ⟨hnil, -⟩ | ⟨front, -, hfront⟩
        · exact absurd hnil ha
        · have hmid : [] ∈ front ++ [] :: elements b :=
            List.mem_append_right _ List.mem_cons_self
          rw [← hfront] at hmid
          exact hmid
      | false =>
        have hmid : [] ∈ elements a ++ [] :: elements b :=
          List.mem_append_right _ List.mem_cons_self
        rw [hes] at hmid
        exact hmid
    exact absurd rfl (counts_iff.mp (hnormal.mem hmem).2).1

/-- From the root, no element in normal form is `.` or `..`. -/
theorem IsNormalForm.noDots_of_rooted {text : List Char} (h : IsNormalForm true text) :
    ∀ e ∈ elements text, e ≠ here ∧ e ≠ parent := by
  rcases h.elements_cases with ⟨hroot, -⟩ | ⟨-, rfl⟩ | ⟨es, -, ⟨ups, ns, rfl, hups, hns⟩, hes⟩
  · cases hroot
  · decide
  · rw [hes, hups rfl, List.forall_mem_append]
    constructor
    · decide
    · intro e he
      obtain ⟨hcounts, hup, -⟩ := hns e he
      exact ⟨(counts_iff.mp hcounts).2, hup⟩

/-- Without a root, no element of a cleaned path is `.` or `..` exactly if its names lead down. -/
theorem noDots_cleanChars {p : List Char} (hp : p ≠ []) (hroot : isRooted p = false) :
    (∀ e ∈ elements (cleanChars p), e ≠ here ∧ e ≠ parent) ↔ LeadsDown (names p) := by
  rw [← cleanElements_unrooted hroot]
  by_cases hnone : cleanElements p = []
  · -- nothing is left, and the path is `.`
    have hhere : cleanChars p = here := by
      unfold cleanChars
      rw [if_neg hp, hnone, hroot]
      rfl
    rw [hhere]
    refine iff_of_false ?_ ?_
    · intro hall
      exact (hall here (by decide)).1 rfl
    · rintro ⟨-, hne⟩
      exact hne hnone
  · have hnames : names (cleanChars p) ≠ [] := by
      rw [names_cleanChars]
      exact hnone
    have htext := cleanChars_eq hnames
    rw [names_cleanChars, hroot] at htext
    have helements : elements (cleanChars p) = cleanElements p := by
      rw [htext]
      exact elements_intercalate hnone fun e he => ((isNormal_cleanElements p).mem he).1
    rw [helements, and_iff_left hnone]
    constructor
    · intro hall hmem
      exact (hall parent hmem).2 rfl
    · intro hno e he
      refine ⟨(counts_iff.mp ((isNormal_cleanElements p).mem he).2).2, ?_⟩
      rintro rfl
      exact hno he

/-! ## Joined paths -/

variable {fragments : List String}

/-- Fragments keep their names when they are put together. -/
theorem names_together (fragments : List String) :
    names (together (fragments.map String.toList)) =
      fragments.flatMap fun f => names f.toList := by
  rw [← intercalate_filter, names_intercalate_flatMap, flatMap_names_filter, List.flatMap_map]

theorem together_eq_nil :
    together (fragments.map String.toList) = [] ↔ ∀ f ∈ fragments, f = "" := by
  rw [← join_eq_empty, ← String.toList_eq_nil_iff, toList_join, joinChars_eq, settle]
  split
  · next hnil => simp [hnil]
  · next hne => simp [hne, cleanChars_ne_nil]

/-- Joined fragments are in normal form, unless all of them are empty. -/
theorem isNormalForm_join (h : join fragments ≠ "") :
    IsNormalForm (startsAtRoot fragments) (join fragments).toList := by
  have hne : together (fragments.map String.toList) ≠ [] := by
    rw [Ne, together_eq_nil, ← join_eq_empty]
    exact h
  rw [toList_join, joinChars_eq, settle_of_ne hne, ← isRooted_together]
  exact isNormalForm_cleanChars _

/-- Fragments are joined to a path that is lexically clean exactly if they start at the root, are all
empty, or have names that lead down. -/
theorem isLexicallyClean_join :
    IsLexicallyClean (join fragments) ↔
      startsAtRoot fragments = true ∨ (∀ f ∈ fragments, f = "") ∨
        LeadsDown (fragments.flatMap fun f => names f.toList) := by
  by_cases hempty : join fragments = ""
  · -- nothing is joined
    have hclean : IsLexicallyClean "" := ⟨by simp, by decide⟩
    rw [hempty, iff_true_left hclean, ← join_eq_empty]
    exact Or.inr (Or.inl hempty)
  · have hform := isNormalForm_join hempty
    rw [← join_eq_empty, or_iff_right hempty]
    cases hroot : startsAtRoot fragments with
    | true =>
      rw [hroot] at hform
      exact iff_of_true ⟨hform.no_doubled_slash, hform.noDots_of_rooted⟩ (Or.inl rfl)
    | false =>
      have hne : together (fragments.map String.toList) ≠ [] := by
        rw [Ne, together_eq_nil, ← join_eq_empty]
        exact hempty
      have htext : (join fragments).toList = cleanChars (together (fragments.map String.toList)) := by
        rw [toList_join, joinChars_eq, settle_of_ne hne]
      rw [or_iff_right Bool.false_ne_true, ← names_together,
        ← noDots_cleanChars hne ((isRooted_together fragments).trans hroot), ← htext]
      constructor
      · intro hclean
        exact hclean.noDots
      · intro hdots
        exact ⟨hform.no_doubled_slash, hdots⟩

/-- A joined path ends in a slash only where it is the root. -/
theorem getLast_join : (join fragments).toList.getLast? = some '/' ↔ join fragments = "/" := by
  constructor
  · intro hlast
    by_cases hempty : join fragments = ""
    · rw [hempty] at hlast
      cases hlast
    · exact String.toList_inj.mp ((isNormalForm_join hempty).eq_slash hlast)
  · intro hroot
    rw [hroot]
    rfl

/-- A slash put at the end of a joined path leaves it lexically clean, unless it is the root. -/
theorem isLexicallyClean_append_slash :
    IsLexicallyClean (join fragments ++ "/") ↔
      IsLexicallyClean (join fragments) ∧ join fragments ≠ "/" := by
  have htext : (join fragments ++ "/").toList = (join fragments).toList ++ ['/'] :=
    String.toList_append
  have helements : elements (join fragments ++ "/").toList =
      elements (join fragments).toList ++ [[]] := by
    rw [htext]
    exact elements_append_slash _ []
  have hdoubled : ['/', '/'] <:+: (join fragments ++ "/").toList ↔
      join fragments = "/" ∨ ['/', '/'] <:+: (join fragments).toList := by
    rw [← getLast_join, htext, List.infix_concat_iff]
    refine or_congr_left ?_
    constructor
    · rintro ⟨front, hfront⟩
      have hends : front ++ ['/'] = (join fragments).toList := by
        apply List.append_cancel_right
        rw [← hfront]
        simp
      rw [← hends, List.getLast?_concat]
    · intro hlast
      obtain ⟨front, hfront⟩ := List.getLast?_eq_some_iff.mp hlast
      exact ⟨front, by simp [hfront]⟩
  constructor
  · rintro ⟨hslash, hdots⟩
    rw [hdoubled, not_or] at hslash
    rw [helements, List.forall_mem_append] at hdots
    exact ⟨⟨hslash.2, hdots.1⟩, hslash.1⟩
  · rintro ⟨⟨hslash, hdots⟩, hroot⟩
    constructor
    · rw [hdoubled, not_or]
      exact ⟨hroot, hslash⟩
    · rw [helements, List.forall_mem_append]
      exact ⟨hdots, by decide⟩

/-- A slash at the end of what stands in front of others makes no difference. -/
theorem join_append_slash {p : String} (hp : p ≠ "") (rest : List String) :
    join ((p ++ "/") :: rest) = join (p :: rest) := by
  have hslash : p ++ "/" ≠ "" := by simp
  have hjoin (q : String) (hq : q ≠ "") : join [q] = clean q := by
    rw [← String.toList_inj, toList_join, toList_clean]
    exact joinChars_singleton (toList_ne_nil hq)
  calc join ((p ++ "/") :: rest)
      = join (join [p ++ "/"] :: rest) := (join_join [p ++ "/"] rest).symm
    _ = join (join [p] :: rest) := by rw [hjoin _ hslash, hjoin _ hp, clean_append_slash hp]
    _ = join (p :: rest) := join_join [p] rest

end ApplianceRest.Path
