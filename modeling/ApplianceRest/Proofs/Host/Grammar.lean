import ApplianceRest.Host
import Mathlib.Data.List.DropRight

/-!
# The grammar of host addresses

A host address is put together from a scheme, a host, a port and a path, of which each has a grammar
of its own: `Parts.IsAddress`. The grammar is unambiguous, because each part ends where a character
stands that it may not hold, and a text is taken apart there.

* `text_of_split`: the parts of a text are the text.
* `split_text`: the parts of a host address are found in it again.
* `ofString_eq_some_iff`: which texts are read, and as what.
-/

namespace ApplianceRest

namespace Text

variable {cs : List Char}

theorem trim_eq (cs : List Char) : trim cs = (cs.dropWhile isBlank).rdropWhile isBlank := rfl

/-- A text without white space at its two ends is left as it is. -/
theorem trim_trim (cs : List Char) : trim (trim cs) = trim cs := by
  rw [trim_eq (trim cs)]
  have hfront : (trim cs).dropWhile isBlank = trim cs := by
    cases htrim : trim cs with
    | nil => rfl
    | cons c rest =>
      -- the first character is that of the text without white space in front of it
      obtain ⟨behind, hprefix⟩ : trim cs <+: cs.dropWhile isBlank :=
        List.rdropWhile_prefix _ _
      have hc : ¬isBlank c = true := by
        intro hblank
        have hhead := List.head?_dropWhile_not isBlank cs
        rw [← hprefix, htrim] at hhead
        simp [hblank] at hhead
      exact List.dropWhile_cons_of_neg hc
  rw [hfront, trim_eq]
  exact List.rdropWhile_idempotent _ _

end Text

namespace HostUrl

/-! ## Taking a text apart -/

theorem append_of_cutScheme {text scheme remainder : List Char}
    (h : cutScheme? text = some (scheme, remainder)) : scheme ++ separator ++ remainder = text := by
  induction text generalizing scheme with
  | nil => cases h
  | cons c rest ih =>
    rw [cutScheme?] at h
    split at h
    · next hprefix =>
      cases h
      obtain ⟨behind, hbehind⟩ := List.isPrefixOf_iff_prefix.mp hprefix
      rw [← hbehind, List.nil_append, List.drop_left]
    · obtain ⟨⟨front, back⟩, hcut, hpair⟩ := Option.map_eq_some_iff.mp h
      cases hpair
      rw [List.cons_append, List.cons_append, ih hcut]

/-- The separator is found behind a scheme, which has no colon. -/
theorem cutScheme_append {scheme : List Char} (h : ':' ∉ scheme) (remainder : List Char) :
    cutScheme? (scheme ++ separator ++ remainder) = some (scheme, remainder) := by
  induction scheme with
  | nil => rfl
  | cons c rest ih =>
    have hc : c ≠ ':' := fun heq => h (by simp [heq])
    have hno : separator.isPrefixOf (c :: (rest ++ separator ++ remainder)) = false := by
      simp [separator, List.isPrefixOf, Ne.symm hc]
    have hrest := ih fun hmem => h (List.mem_cons_of_mem _ hmem)
    rw [List.cons_append, List.cons_append, cutScheme?, hno, if_neg Bool.false_ne_true, hrest]
    rfl

/-- A host in brackets ends with the first closing bracket, if there is one. -/
theorem cutHost_of_bracket {text : List Char} (h : text.head? = some '[') :
    cutHost text =
      (text.takeWhile (· ≠ ']') ++ (text.dropWhile (· ≠ ']')).take 1,
        (text.dropWhile (· ≠ ']')).drop 1) := by
  have hdrop : text.drop (text.takeWhile (· ≠ ']')).length = text.dropWhile (· ≠ ']') := by
    have hleft : ((text.takeWhile (· ≠ ']')) ++ (text.dropWhile (· ≠ ']'))).drop
        (text.takeWhile (· ≠ ']')).length = text.dropWhile (· ≠ ']') := List.drop_left
    rwa [List.takeWhile_append_dropWhile] at hleft
  rw [cutHost, if_pos h]
  dsimp only
  rw [← List.drop_drop, hdrop]

theorem cutHost_bracketed {inner : List Char} (h : ']' ∉ inner) (behind : List Char) :
    cutHost ('[' :: (inner ++ ']' :: behind)) = ('[' :: (inner ++ [']']), behind) := by
  have hinner : ∀ c ∈ '[' :: inner, decide (c ≠ ']') = true := by
    intro c hc
    rcases List.mem_cons.mp hc with rfl | hc
    · decide
    · exact decide_eq_true fun heq => h (heq ▸ hc)
  rw [cutHost_of_bracket rfl, ← List.cons_append, List.takeWhile_append_of_pos hinner,
    List.dropWhile_append_of_pos hinner, List.takeWhile_cons_of_neg (by decide),
    List.dropWhile_cons_of_neg (by decide)]
  simp

/-- Any other host ends with the first colon or slash. -/
theorem cutHost_of_no_bracket {text : List Char} (h : text.head? ≠ some '[') :
    cutHost text =
      (text.takeWhile fun c => c ≠ ':' && c ≠ '/', text.dropWhile fun c => c ≠ ':' && c ≠ '/') := by
  rw [cutHost, if_neg h]

theorem append_of_cutHost (text : List Char) : (cutHost text).1 ++ (cutHost text).2 = text := by
  by_cases h : text.head? = some '['
  · rw [cutHost_of_bracket h, List.append_assoc, List.take_append_drop,
      List.takeWhile_append_dropWhile]
  · rw [cutHost_of_no_bracket h, List.takeWhile_append_dropWhile]

theorem split_of_cutScheme {text scheme remainder : List Char}
    (h : cutScheme? text = some (scheme, remainder)) :
    split? text = some ⟨scheme, (cutHost remainder).1,
      (cutHost remainder).2.takeWhile (· ≠ '/'), (cutHost remainder).2.dropWhile (· ≠ '/')⟩ := by
  rw [split?, h]
  rfl

/-- A text is made of its parts. -/
theorem text_of_split {text : List Char} {p : Parts} (h : split? text = some p) : p.text = text := by
  cases hscheme : cutScheme? text with
  | none =>
    rw [split?, hscheme] at h
    cases h
  | some cut =>
    rw [split_of_cutScheme hscheme] at h
    cases h
    rw [Parts.text, List.append_assoc, List.append_assoc, List.takeWhile_append_dropWhile,
      append_of_cutHost, append_of_cutScheme hscheme]

/-! ## The grammar -/

/-- The parts of a host address: `http` or `https` in any case; a host in brackets, or one without
colons and slashes; nothing or a colon and digits; nothing or a path from the root; and nowhere a
query or a fragment. -/
structure Parts.IsAddress (p : Parts) : Prop where
  scheme : p.scheme.map Char.toLower = "http".toList ∨ p.scheme.map Char.toLower = "https".toList
  host : (∃ inner, p.host = '[' :: (inner ++ [']']) ∧ ']' ∉ inner) ∨
    (p.host ≠ [] ∧ p.host.head? ≠ some '[' ∧ ':' ∉ p.host ∧ '/' ∉ p.host)
  port : p.port = [] ∨ ∃ digits, p.port = ':' :: digits ∧ digits ≠ [] ∧ ∀ c ∈ digits, c.isDigit
  path : p.path = [] ∨ p.path.head? = some '/'
  noQuery : '?' ∉ p.text
  noFragment : '#' ∉ p.text

theorem isHost_iff {host : List Char} :
    isHost host = true ↔
      (∃ inner, host = '[' :: (inner ++ [']']) ∧ ']' ∉ inner) ∨
        (host ≠ [] ∧ host.head? ≠ some '[' ∧ ':' ∉ host ∧ '/' ∉ host) := by
  cases host with
  | nil => simp [isHost]
  | cons c rest =>
    by_cases hc : c = '['
    · subst hc
      -- the last character is the bracket that closes, and the only one
      have hinner : isHost ('[' :: rest) = true ↔ rest.getLast? = some ']' ∧ ']' ∉ rest.dropLast := by
        simp [isHost]
      rw [hinner]
      constructor
      · rintro ⟨hlast, hno⟩
        obtain ⟨inner, hrest⟩ := List.getLast?_eq_some_iff.mp hlast
        rw [hrest, List.dropLast_concat] at hno
        exact Or.inl ⟨inner, by rw [hrest], hno⟩
      · rintro (⟨inner, heq, hno⟩ | ⟨-, hhead, -⟩)
        · rw [List.cons.injEq] at heq
          rw [heq.2, List.dropLast_concat, List.getLast?_concat]
          exact ⟨rfl, hno⟩
        · exact absurd rfl hhead
    · simp [isHost, hc]

theorem isPort_iff {port : List Char} :
    isPort port = true ↔
      port = [] ∨ ∃ digits, port = ':' :: digits ∧ digits ≠ [] ∧ ∀ c ∈ digits, c.isDigit := by
  cases port with
  | nil => simp [isPort]
  | cons c digits => simp [isPort, and_assoc]

theorem isPath_iff {path : List Char} : isPath path = true ↔ path = [] ∨ path.head? = some '/' := by
  cases path with
  | nil => simp [isPath]
  | cons c rest => simp [isPath]

theorem Parts.isValid_iff {p : Parts} : p.isValid = true ↔ p.IsAddress := by
  have hhttp : ['h', 't', 't', 'p'] = "http".toList := by decide
  have hhttps : ['h', 't', 't', 'p', 's'] = "https".toList := by decide
  rw [isValid, hhttp, hhttps]
  simp only [Bool.and_eq_true, Bool.or_eq_true, isHost_iff, isPort_iff, isPath_iff,
    equalsIgnoringCase, beq_iff_eq, Bool.not_eq_true', List.contains_eq_mem,
    decide_eq_false_iff_not]
  constructor
  · rintro ⟨⟨⟨⟨⟨hscheme, hhost⟩, hport⟩, hpath⟩, hquery⟩, hfragment⟩
    exact ⟨hscheme, hhost, hport, hpath, hquery, hfragment⟩
  · rintro ⟨hscheme, hhost, hport, hpath, hquery, hfragment⟩
    exact ⟨⟨⟨⟨⟨hscheme, hhost⟩, hport⟩, hpath⟩, hquery⟩, hfragment⟩

namespace Parts.IsAddress

variable {p : Parts}

theorem colon_not_mem_scheme (h : p.IsAddress) : ':' ∉ p.scheme := by
  intro hmem
  have hlower : ':' ∈ p.scheme.map Char.toLower := List.mem_map.mpr ⟨':', hmem, by decide⟩
  rcases h.scheme with heq | heq <;> rw [heq] at hlower <;> exact absurd hlower (by decide)

theorem slash_not_mem_port (h : p.IsAddress) : '/' ∉ p.port := by
  rcases h.port with heq | ⟨digits, heq, -, hdigits⟩
  · rw [heq]
    exact List.not_mem_nil
  · rw [heq]
    intro hmem
    rcases List.mem_cons.mp hmem with hcolon | hmem
    · exact absurd hcolon (by decide)
    · exact absurd (hdigits '/' hmem) (by decide)

/-- What stands behind the host starts with a colon or a slash, if anything does. -/
theorem head?_behind_host (h : p.IsAddress) :
    ∀ c ∈ (p.port ++ p.path).head?, c = ':' ∨ c = '/' := by
  intro c hc
  rcases h.port with hport | ⟨digits, hport, -⟩
  · rw [hport, List.nil_append] at hc
    rcases h.path with hpath | hpath
    · rw [hpath] at hc
      cases hc
    · rw [hpath] at hc
      cases hc
      exact Or.inr rfl
  · rw [hport] at hc
    cases hc
    exact Or.inl rfl

theorem cutHost_eq (h : p.IsAddress) :
    cutHost (p.host ++ (p.port ++ p.path)) = (p.host, p.port ++ p.path) := by
  rcases h.host with ⟨inner, hhost, hinner⟩ | ⟨hne, hhead, hcolon, hslash⟩
  · have htext : p.host ++ (p.port ++ p.path) = '[' :: (inner ++ ']' :: (p.port ++ p.path)) := by
      simp [hhost]
    rw [htext, cutHost_bracketed hinner, hhost]
  · have hplain : ∀ c ∈ p.host, (decide (c ≠ ':') && decide (c ≠ '/')) = true := by
      intro c hc
      have hc' : c ≠ ':' := fun heq => hcolon (heq ▸ hc)
      have hc'' : c ≠ '/' := fun heq => hslash (heq ▸ hc)
      simp [hc', hc'']
    have hopen : (p.host ++ (p.port ++ p.path)).head? ≠ some '[' := by
      rw [List.head?_append_of_ne_nil _ hne]
      exact hhead
    rw [cutHost_of_no_bracket hopen, List.takeWhile_append_of_pos hplain,
      List.dropWhile_append_of_pos hplain]
    -- what stands behind the host, if anything does, starts with a character that ends it
    cases hbehind : p.port ++ p.path with
    | nil => simp
    | cons c rest =>
      have hc := h.head?_behind_host c (by simp [hbehind])
      have hstop : ¬(decide (c ≠ ':') && decide (c ≠ '/')) = true := by
        rcases hc with rfl | rfl <;> decide
      rw [List.takeWhile_cons_of_neg (p := fun a => decide (a ≠ ':') && decide (a ≠ '/')) hstop,
        List.dropWhile_cons_of_neg (p := fun a => decide (a ≠ ':') && decide (a ≠ '/')) hstop,
        List.append_nil]

/-- The parts of a host address are found in its text again. -/
theorem split_text (h : p.IsAddress) : split? p.text = some p := by
  have hscheme : cutScheme? p.text = some (p.scheme, p.host ++ (p.port ++ p.path)) := by
    rw [text, List.append_assoc, List.append_assoc]
    exact cutScheme_append h.colon_not_mem_scheme _
  have hport : ∀ c ∈ p.port, decide (c ≠ '/') = true :=
    fun c hc => decide_eq_true fun heq => h.slash_not_mem_port (heq ▸ hc)
  have htake : (p.port ++ p.path).takeWhile (· ≠ '/') = p.port := by
    rw [List.takeWhile_append_of_pos hport]
    rcases h.path with hpath | hpath
    · simp [hpath]
    · obtain ⟨rest, hrest⟩ := List.head?_eq_some_iff.mp hpath
      simp [hrest]
  have hdrop : (p.port ++ p.path).dropWhile (· ≠ '/') = p.path := by
    rw [List.dropWhile_append_of_pos hport]
    rcases h.path with hpath | hpath
    · simp [hpath]
    · obtain ⟨rest, hrest⟩ := List.head?_eq_some_iff.mp hpath
      simp [hrest]
  rw [split_of_cutScheme hscheme, h.cutHost_eq, htake, hdrop]

end Parts.IsAddress

/-! ## Reading -/

/-- A text is read as the host address whose text it is, without the white space around it. -/
theorem ofString_eq_some_iff {s : String} {h : HostUrl} :
    ofString? s = some h ↔ h.parts.text = Text.trim s.toList := by
  constructor
  · intro hread
    rw [ofString?] at hread
    split at hread
    · next parts hsplit =>
      split at hread
      · cases hread
        exact text_of_split hsplit
      · cases hread
    · cases hread
  · intro htext
    have hsplit := (Parts.isValid_iff.mp h.isValid).split_text
    rw [htext] at hsplit
    rw [ofString?, hsplit]
    exact dif_pos h.isValid

end HostUrl

end ApplianceRest
