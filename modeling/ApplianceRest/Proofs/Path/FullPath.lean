import ApplianceRest.Proofs.Path.Cleaning

/-!
# Names and full paths as segments

A name without violations is one segment of an address and stays one when it is joined to others. A
full path without violations is encoded as one such segment (`isName_encodeFullPath`), from which it
is read back in its cleaned form (`decodeFullPath_encodeFullPath`).
-/

namespace ApplianceRest.Path

/-- An element that cleaning keeps wherever it stands. -/
def IsName (e : List Char) : Prop := e ≠ [] ∧ e ≠ here ∧ e ≠ parent ∧ '/' ∉ e

/-- A text that may name an object: not empty, without a tilde, and without `.` and `..` between its
slashes. -/
def IsFullPath (text : String) : Prop :=
  text ≠ "" ∧ tilde ∉ text.toList ∧ ∀ e ∈ elements text.toList, e ≠ here ∧ e ≠ parent

instance (text : String) : Decidable (IsFullPath text) :=
  inferInstanceAs (Decidable (_ ∧ _ ∧ _))

namespace IsName

variable {e : List Char}

theorem elements_eq (h : IsName e) : elements e = [e] := elements_of_no_slash h.2.2.2

theorem names_eq (h : IsName e) : names e = [e] := by
  rw [names, h.elements_eq]
  exact List.filter_cons_of_pos (counts_iff.mpr ⟨h.1, h.2.1⟩)

theorem no_parent (h : IsName e) : parent ∉ elements e := by
  rw [h.elements_eq, List.mem_singleton]
  exact Ne.symm h.2.2.1

end IsName

/-- Where `..` is no name, it is no element either. -/
theorem parent_not_mem_elements {p : List Char} (h : ∀ e ∈ names p, IsName e) :
    parent ∉ elements p := by
  intro hmem
  have hname : parent ∈ names p := List.mem_filter.mpr ⟨hmem, counts_parent⟩
  exact (h parent hname).2.2.1 rfl

/-! ## Rules -/

theorem prefixViolations_eq_nil {name : String} :
    prefixViolations name = [] ↔ '/' ∉ name.toList ∧ '%' ∉ name.toList := by
  rw [prefixViolations, List.map_eq_nil_iff, List.filter_eq_nil_iff]
  simp [forbiddenChars]

theorem nameViolations_eq_nil {name : String} :
    nameViolations name = [] ↔
      name ≠ "." ∧ name ≠ ".." ∧ '/' ∉ name.toList ∧ '%' ∉ name.toList := by
  by_cases hdot : name = "."
  · subst hdot
    decide
  · by_cases hdots : name = ".."
    · subst hdots
      decide
    · have hnone : reservedNames.find? (· == name) = none := by
        simp [reservedNames, Ne.symm hdot, Ne.symm hdots]
      rw [nameViolations, hnone]
      exact prefixViolations_eq_nil.trans ⟨fun h => ⟨hdot, hdots, h⟩, fun h => h.2.2⟩

theorem toList_ne_nil {text : String} (h : text ≠ "") : text.toList ≠ [] := by
  intro hnil
  exact h (String.toList_eq_nil_iff.mp hnil)

/-- A name without violations is a name of a path. -/
theorem isName_of_no_violations {name : String} (hne : name ≠ "")
    (h : nameViolations name = []) : IsName name.toList := by
  obtain ⟨hdot, hdots, hslash, _⟩ := nameViolations_eq_nil.mp h
  refine ⟨toList_ne_nil hne, ?_, ?_, hslash⟩
  · intro heq
    exact hdot (String.toList_inj.mp (heq.trans (by decide)))
  · intro heq
    exact hdots (String.toList_inj.mp (heq.trans (by decide)))

/-- A joined text is empty only where there is nothing to join. -/
theorem join_eq_empty {given : List String} : join given = "" ↔ ∀ name ∈ given, name = "" := by
  rw [← String.toList_eq_nil_iff, toList_join, joinChars_eq_nil, List.forall_mem_map]
  simp only [String.toList_eq_nil_iff]

/-- Names without violations stand in their joined text one by one, the empty ones left out. -/
theorem names_join {given : List String} (h : ∀ name ∈ given, nameViolations name = []) :
    names (join given).toList = (given.filter (· ≠ "")).map String.toList := by
  have hname : ∀ name ∈ given, name ≠ "" → IsName name.toList :=
    fun name hmem hne => isName_of_no_violations hne (h name hmem)
  have hup : ∀ f ∈ given.map String.toList, parent ∉ elements f := by
    intro f hf
    obtain ⟨name, hmem, rfl⟩ := List.mem_map.mp hf
    by_cases hne : name = ""
    · subst hne
      decide
    · exact (hname name hmem hne).no_parent
  rw [toList_join, names_joinChars_of_no_parent hup]
  clear hup h
  induction given with
  | nil => rfl
  | cons name rest ih =>
    have hrest := ih fun n hn => hname n (List.mem_cons_of_mem _ hn)
    by_cases hne : name = ""
    · subst hne
      simpa using hrest
    · rw [List.map_cons, List.flatMap_cons, (hname name List.mem_cons_self hne).names_eq, hrest,
        List.filter_cons_of_pos (by simpa using hne), List.map_cons]
      rfl

theorem dropRepeats_eq_nil {α : Type} [DecidableEq α] {xs : List α} :
    dropRepeats xs = [] ↔ xs = [] := by
  induction xs with
  | nil => simp [dropRepeats]
  | cons x xs ih =>
    cases xs with
    | nil => simp [dropRepeats]
    | cons y rest =>
      by_cases hxy : x = y
      · simpa [dropRepeats, hxy] using ih
      · simp [dropRepeats, hxy]

theorem fullPathViolations_eq_nil {part : String} :
    fullPathViolations part = [] ↔
      tilde ∉ part.toList ∧ ∀ e ∈ elements part.toList, e ≠ here ∧ e ≠ parent := by
  have hreserved : ∀ e, (reservedNames.find? (·.toList == e)).map Violation.reserved = none ↔
      e ≠ here ∧ e ≠ parent := by
    intro e
    have hdot : ".".toList = here := by decide
    have hdots : "..".toList = parent := by decide
    rw [Option.map_eq_none_iff, List.find?_eq_none, reservedNames, List.forall_mem_cons,
      List.forall_mem_singleton, hdot, hdots, beq_iff_eq, beq_iff_eq]
    exact ⟨fun h => ⟨Ne.symm h.1, Ne.symm h.2⟩, fun h => ⟨Ne.symm h.1, Ne.symm h.2⟩⟩
  rw [fullPathViolations, List.append_eq_nil_iff, dropRepeats_eq_nil, List.filterMap_eq_nil_iff]
  simp only [hreserved]
  constructor
  · rintro ⟨hes, htilde⟩
    refine ⟨fun hmem => ?_, hes⟩
    rw [if_pos (by simpa using hmem)] at htilde
    exact absurd htilde (by simp)
  · rintro ⟨htilde, hes⟩
    exact ⟨hes, if_neg (by simpa using htilde)⟩

/-- A text is a full path exactly if it is there and breaks no rule. -/
theorem isFullPath_iff {text : String} :
    IsFullPath text ↔ text ≠ "" ∧ fullPathViolations text = [] := by
  rw [fullPathViolations_eq_nil]
  rfl

/-! ## Encoding -/

/-- Parts of a full path without violations. -/
def IsClear (parts : List String) : Prop := ∀ part ∈ parts, fullPathViolations part = []

variable {parts : List String}

theorem IsClear.elements (h : IsClear parts) {p e : List Char}
    (hp : p ∈ parts.map String.toList) (he : e ∈ elements p) : e ≠ here ∧ e ≠ parent := by
  obtain ⟨part, hpart, rfl⟩ := List.mem_map.mp hp
  exact (fullPathViolations_eq_nil.mp (h part hpart)).2 e he

theorem IsClear.no_parent (h : IsClear parts) {p : List Char}
    (hp : p ∈ parts.map String.toList) : parent ∉ Path.elements p :=
  fun hmem => (h.elements hp hmem).2 rfl

theorem slashToTilde_ne_slash (c : Char) : slashToTilde c ≠ '/' := by
  rw [slashToTilde]
  split
  · decide
  · next hc => exact hc

theorem slashToTilde_eq_dot {c : Char} (h : slashToTilde c = '.') : c = '.' := by
  rw [slashToTilde] at h
  split at h
  · exact absurd h (by decide)
  · exact h

theorem tildeToSlash_slashToTilde {c : Char} (h : c ≠ tilde) :
    tildeToSlash (slashToTilde c) = c := by
  rw [slashToTilde]
  split
  · next hc =>
    rw [hc]
    rfl
  · rw [tildeToSlash, if_neg h]

theorem toList_encodeFullPath (parts : List String) :
    (encodeFullPath parts).toList =
      (joinChars (parts.map String.toList)).map slashToTilde := by
  rw [encodeFullPath, String.toList_ofList, toList_join]

/-- Joined parts of a full path are not `.`: the first element of the first part with a text would
be. -/
theorem joinChars_ne_here (h : IsClear parts) : joinChars (parts.map String.toList) ≠ here := by
  intro heq
  rcases joinChars_cases (parts.map String.toList) with ⟨_, hnil⟩ | ⟨hne, hclean⟩
  · exact absurd (hnil.symm.trans heq) (by decide)
  · have hhere : cleanChars (List.intercalate ['/'] ((parts.map String.toList).filter (· ≠ []))) =
        here := hclean.symm.trans heq
    obtain ⟨p, rest, hparts⟩ := List.exists_cons_of_ne_nil hne
    have hp : p ≠ [] := by
      have hmem : p ∈ (parts.map String.toList).filter (· ≠ []) := hparts ▸ List.mem_cons_self
      simpa using (List.mem_filter.mp hmem).2
    have hlong : List.intercalate ['/'] ((parts.map String.toList).filter (· ≠ [])) ≠ [] := by
      rw [hparts]
      cases rest with
      | nil => simpa using hp
      | cons q rest => simp [List.intercalate_cons_cons]
    have hroot := isRooted_cleanChars
      (List.intercalate ['/'] ((parts.map String.toList).filter (· ≠ [])))
    rw [hhere] at hroot
    -- the joined text has an element with a text, which no part may have as `.`
    obtain ⟨e, he, hene⟩ := exists_mem_elements_ne_nil hlong hroot.symm
    rw [elements_intercalate_flatMap hne, List.mem_flatMap] at he
    obtain ⟨q, hq, he⟩ := he
    have hq' : q ∈ parts.map String.toList := List.mem_of_mem_filter hq
    have hname : e ∈ names (joinChars (parts.map String.toList)) := by
      rw [names_joinChars_of_no_parent fun p hp => h.no_parent hp, List.mem_flatMap]
      exact ⟨q, hq', mem_names.mpr ⟨he, hene, (h.elements hq' he).1⟩⟩
    rw [heq] at hname
    have hnone : names here = [] := by decide
    exact absurd (hnone ▸ hname) List.not_mem_nil

theorem joinChars_ne_parent (h : IsClear parts) :
    joinChars (parts.map String.toList) ≠ parent := by
  intro heq
  have hname : parent ∈ names (joinChars (parts.map String.toList)) := by
    rw [heq]
    decide
  rw [names_joinChars_of_no_parent fun p hp => h.no_parent hp, List.mem_flatMap] at hname
  obtain ⟨p, hp, hmem⟩ := hname
  exact h.no_parent hp (mem_names.mp hmem).1

/-- The encoded parts of a full path are one name of a path. -/
theorem isName_encodeFullPath (h : IsClear parts) (hne : encodeFullPath parts ≠ "") :
    IsName (encodeFullPath parts).toList := by
  refine ⟨toList_ne_nil hne, ?_, ?_, ?_⟩
  · -- a dot stands for itself only, so the joined text would be `.` already
    rw [toList_encodeFullPath]
    intro heq
    apply joinChars_ne_here h
    obtain ⟨c, hc, hdot⟩ := List.map_eq_singleton_iff.mp heq
    rw [hc, slashToTilde_eq_dot hdot]
    rfl
  · rw [toList_encodeFullPath]
    intro heq
    apply joinChars_ne_parent h
    obtain ⟨c, cs, hc, hcdot, hcs⟩ := List.map_eq_cons_iff.mp heq
    obtain ⟨d, hd, hddot⟩ := List.map_eq_singleton_iff.mp hcs
    rw [hc, hd, slashToTilde_eq_dot hcdot, slashToTilde_eq_dot hddot]
    rfl
  · -- all slashes have become tildes
    rw [toList_encodeFullPath]
    intro hmem
    obtain ⟨c, _, hc⟩ := List.mem_map.mp hmem
    exact slashToTilde_ne_slash c hc

theorem tilde_not_mem_joinChars (h : IsClear parts) :
    tilde ∉ joinChars (parts.map String.toList) := by
  intro hmem
  rcases mem_joinChars hmem with heq | heq | ⟨p, hp, hmem⟩
  · exact absurd heq (by decide)
  · exact absurd heq (by decide)
  · obtain ⟨part, hpart, rfl⟩ := List.mem_map.mp hp
    exact (fullPathViolations_eq_nil.mp (h part hpart)).1 hmem

/-- The segment for a full path in parts stands for the joined parts. -/
theorem decodeFullPath_encodeFullPath_of_isClear (h : IsClear parts) :
    decodeFullPath (encodeFullPath parts) = join parts := by
  -- joining brings no tilde into a text, so each tilde of the segment was a slash
  have hall : ∀ c ∈ joinChars (parts.map String.toList), (tildeToSlash ∘ slashToTilde) c = c :=
    fun c hc => tildeToSlash_slashToTilde fun heq => tilde_not_mem_joinChars h (heq ▸ hc)
  have hback := (List.map_congr_left hall).trans (List.map_id _)
  rw [decodeFullPath, toList_encodeFullPath, List.map_map, hback, join]

/-- A joined path is encoded as its parts are. -/
theorem encodeFullPath_join (hne : ∃ part ∈ parts, part ≠ "") :
    encodeFullPath [join parts] = encodeFullPath parts := by
  rcases joinChars_cases (parts.map String.toList) with ⟨hall, -⟩ | ⟨-, hclean⟩
  · obtain ⟨part, hpart, hne⟩ := hne
    exact absurd (hall _ (List.mem_map_of_mem hpart)) (toList_ne_nil hne)
  · rw [← String.toList_inj, toList_encodeFullPath, toList_encodeFullPath, List.map_singleton,
      toList_join, hclean, joinChars_singleton (cleanChars_ne_nil _), cleanChars_cleanChars]

/-- The segment for a full path stands for the cleaned path. -/
theorem decodeFullPath_encodeFullPath {text : String} (h : IsFullPath text) :
    decodeFullPath (encodeFullPath [text]) = clean text := by
  have hclear : IsClear [text] := List.forall_mem_singleton.mpr (isFullPath_iff.mp h).2
  rw [decodeFullPath_encodeFullPath_of_isClear hclear, ← String.toList_inj, toList_join,
    List.map_singleton, joinChars_singleton (toList_ne_nil h.1), toList_clean]

/-! What the joined parts of a full path look like. -/

/-- The texts between the slashes of some parts, the empty ones left out. -/
def pieces (parts : List String) : List (List Char) :=
  parts.flatMap fun part => (elements part.toList).filter (· ≠ [])

/-- Whether the first part that is not empty starts with a slash. -/
def startsAtRoot (parts : List String) : Bool :=
  (parts.find? (· ≠ "")).any fun part => isRooted part.toList

/-- Where no text between the slashes is `.` or `..`, cleaning drops only the empty ones. -/
theorem flatMap_names_of_isClear (h : IsClear parts) :
    (parts.map String.toList).flatMap names = pieces parts := by
  rw [pieces, List.flatMap_map]
  refine List.flatMap_congr fun part hpart => List.filter_congr fun e he => ?_
  have hhere := ((fullPathViolations_eq_nil.mp (h part hpart)).2 e he).1
  simp [counts, hhere]

/-- The joined parts of a full path are the texts between their slashes, with single slashes between
them, and with one in front if the first part that is not empty has one there. -/
theorem join_eq_pieces (h : IsClear parts) (hne : ∃ part ∈ parts, part ≠ "") :
    join parts = .ofList
      ((if startsAtRoot parts then ['/'] else []) ++ List.intercalate ['/'] (pieces parts)) := by
  have hfilter : (parts.map String.toList).filter (· ≠ []) =
      (parts.filter (· ≠ "")).map String.toList := by
    rw [List.filter_map]
    congr 2
    funext part
    simp
  rcases joinChars_cases (parts.map String.toList) with ⟨hall, -⟩ | ⟨hparts, hclean⟩
  · obtain ⟨part, hpart, hne⟩ := hne
    exact absurd (hall _ (List.mem_map_of_mem hpart)) (toList_ne_nil hne)
  · have hnames := names_joinChars_of_no_parent fun p hp => h.no_parent hp
    have hhere := joinChars_ne_here h
    rw [hclean] at hnames hhere
    rw [names_cleanChars, flatMap_names_of_isClear h] at hnames
    -- the joined text starts as its first part does
    have hroot : isRooted (List.intercalate ['/'] ((parts.map String.toList).filter (· ≠ []))) =
        startsAtRoot parts := by
      rw [hfilter] at hparts ⊢
      obtain ⟨part, rest, hrest⟩ := List.exists_cons_of_ne_nil
        fun hnil => hparts (List.map_eq_nil_iff.mpr hnil)
      have hpart : part ≠ "" := by
        have hmem : part ∈ parts.filter (· ≠ "") := hrest ▸ List.mem_cons_self
        simpa using (List.mem_filter.mp hmem).2
      rw [hrest, List.map_cons, isRooted_intercalate (toList_ne_nil hpart), startsAtRoot,
        ← List.head?_filter, hrest]
      rfl
    rw [← String.toList_inj, toList_join, hclean, cleanChars_eq_of_ne_here hhere, hroot, hnames,
      String.toList_ofList]

/-- Full paths share a segment exactly if they share their cleaned form. -/
theorem encodeFullPath_inj {text text' : String} (h : IsFullPath text) (h' : IsFullPath text') :
    encodeFullPath [text] = encodeFullPath [text'] ↔ clean text = clean text' := by
  constructor
  · intro heq
    rw [← decodeFullPath_encodeFullPath h, heq, decodeFullPath_encodeFullPath h']
  · intro heq
    have hchars : cleanChars text.toList = cleanChars text'.toList := by
      rw [← toList_clean, heq, toList_clean]
    rw [← String.toList_inj, toList_encodeFullPath, toList_encodeFullPath, List.map_singleton,
      List.map_singleton, joinChars_singleton (toList_ne_nil h.1),
      joinChars_singleton (toList_ne_nil h'.1), hchars]

theorem encodeFullPath_eq_empty : encodeFullPath parts = "" ↔ ∀ part ∈ parts, part = "" := by
  rw [← String.toList_eq_nil_iff, toList_encodeFullPath, List.map_eq_nil_iff, ← join_eq_empty,
    ← toList_join, String.toList_eq_nil_iff]

/-- A single text is acceptable as a full path exactly if it is one. -/
theorem isClear_singleton {text : String} :
    encodeFullPath [text] ≠ "" ∧ IsClear [text] ↔ IsFullPath text := by
  rw [isFullPath_iff, Ne, encodeFullPath_eq_empty, IsClear, List.forall_mem_singleton,
    List.forall_mem_singleton]

end ApplianceRest.Path
