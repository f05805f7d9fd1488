import ApplianceRest.Proofs.Host.Grammar
import Mathlib.Data.String.Basic

/-!
# Reading a host address by byte offsets

A host address can be kept as one text with four byte offsets in it, each found by a search behind
the one before; the parts are then slices of the text. A slice is taken at offsets between two
characters of the text only, and `Text.cutAt?` fails at any other offset. Here the offsets that the
searches find are shown to be those between the parts of the address, so that no slice fails.

* `Text.slice?_of_eq`: the slices that do not fail.
* `locate_eq`: the searches find the offsets of the parts, for a host address and no other text.
* `read_address`: which texts are host addresses, and what the parts of one are.
-/

namespace ApplianceRest

open String (utf8Len utf8Len_nil utf8Len_cons utf8Len_append)

namespace Text

/-! ## Slices -/

/-- A text cut at a byte offset. There is no cut beyond the end of the text, and none between the
bytes of one character. -/
def cutAt? : List Char → Nat → Option (List Char × List Char)
  | cs, 0 => some ([], cs)
  | [], _ + 1 => none
  | c :: rest, n + 1 =>
    if c.utf8Size ≤ n + 1 then
      (cutAt? rest (n + 1 - c.utf8Size)).map fun (front, back) => (c :: front, back)
    else none

/-- What lies between two byte offsets of a text. -/
def slice? (cs : List Char) (start stop : Nat) : Option (List Char) := do
  let (front, _) ← cutAt? cs stop
  let (_, middle) ← cutAt? front start
  return middle

variable {cs front back : List Char}

/-- A text is cut between two characters, at the number of bytes in front of the cut. -/
theorem cutAt?_eq_some_iff {n : Nat} :
    cutAt? cs n = some (front, back) ↔ front ++ back = cs ∧ utf8Len front = n := by
  induction cs generalizing n front with
  | nil =>
    cases n with
    | zero =>
      rw [cutAt?]
      constructor
      · rintro ⟨⟩
        exact ⟨rfl, rfl⟩
      · rintro ⟨htext, -⟩
        obtain ⟨rfl, rfl⟩ := List.append_eq_nil_iff.mp htext
        rfl
    | succ n =>
      constructor
      · rintro ⟨⟩
      · rintro ⟨htext, hlength⟩
        obtain ⟨rfl, -⟩ := List.append_eq_nil_iff.mp htext
        cases hlength
  | cons c rest ih =>
    have hc := c.utf8Size_pos
    cases n with
    | zero =>
      rw [cutAt?]
      constructor
      · rintro ⟨⟩
        exact ⟨rfl, rfl⟩
      · rintro ⟨htext, hlength⟩
        rw [String.utf8Len_eq_zero.mp hlength] at htext ⊢
        rw [← htext, List.nil_append]
    | succ n =>
      rw [cutAt?]
      constructor
      · intro hcut
        split at hcut
        · obtain ⟨⟨front', back'⟩, hrest, hpair⟩ := Option.map_eq_some_iff.mp hcut
          cases hpair
          obtain ⟨htext, hlength⟩ := ih.mp hrest
          rw [List.cons_append, htext, utf8Len_cons]
          exact ⟨rfl, by omega⟩
        · cases hcut
      · rintro ⟨htext, hlength⟩
        cases front with
        | nil => cases hlength
        | cons d front' =>
          rw [List.cons_append, List.cons.injEq] at htext
          obtain ⟨rfl, htext⟩ := htext
          rw [utf8Len_cons] at hlength
          rw [if_pos (by omega), ih.mpr ⟨htext, by omega⟩]
          rfl

/-- A part of a text lies between the offset at which it starts and the one at which it ends. -/
theorem slice?_of_eq (front back : List Char) {middle : List Char} {start stop : Nat}
    (htext : cs = front ++ (middle ++ back)) (hstart : utf8Len front = start)
    (hstop : start + utf8Len middle = stop) : slice? cs start stop = some middle := by
  have hcut : cutAt? cs stop = some (front ++ middle, back) := by
    rw [cutAt?_eq_some_iff, htext, List.append_assoc, utf8Len_append, hstart]
    exact ⟨rfl, hstop⟩
  have hcut' : cutAt? (front ++ middle) start = some (front, middle) :=
    cutAt?_eq_some_iff.mpr ⟨rfl, hstart⟩
  rw [slice?, hcut]
  simp only [Option.bind_eq_bind, Option.bind_some, hcut']
  rfl

/-! ## Searches -/

/-- The byte offset of the first place in a text where what follows meets a condition. -/
def find? (meets : List Char → Bool) : List Char → Option Nat
  | [] => none
  | c :: rest => if meets (c :: rest) then some 0 else (find? meets rest).map (c.utf8Size + ·)

/-- The byte offset of the first character of a text that meets a condition. -/
def findChar? (meets : Char → Bool) (cs : List Char) : Option Nat := find? (·.head?.any meets) cs

variable {meets : Char → Bool}

theorem findChar?_cons (c : Char) (rest : List Char) :
    findChar? meets (c :: rest) =
      if meets c then some 0 else (findChar? meets rest).map (c.utf8Size + ·) := rfl

/-- A search that finds nothing and one that finds something both end the part in front of it. -/
theorem elim_findChar? (n : Nat) (cs : List Char) :
    (findChar? meets cs).elim (n + utf8Len cs) (n + ·) =
      n + utf8Len (cs.takeWhile fun c => !meets c) := by
  induction cs generalizing n with
  | nil => rfl
  | cons c rest ih =>
    rw [findChar?_cons, List.takeWhile_cons]
    cases hc : meets c with
    | true => simp
    | false =>
      -- the search goes on behind this character
      have hrest := ih (n + c.utf8Size)
      cases hfind : findChar? meets rest <;> simp [hfind] at hrest ⊢ <;> omega

theorem findChar?_append {front : List Char} {c : Char} (hfront : ∀ d ∈ front, meets d = false)
    (hc : meets c = true) (back : List Char) :
    findChar? meets (front ++ c :: back) = some (utf8Len front) := by
  induction front with
  | nil => rw [List.nil_append, findChar?_cons, if_pos hc, utf8Len_nil]
  | cons d rest ih =>
    rw [List.forall_mem_cons] at hfront
    rw [List.cons_append, findChar?_cons, hfront.1, if_neg Bool.false_ne_true, ih hfront.2,
      utf8Len_cons]
    exact congrArg some (Nat.add_comm _ _)

theorem findChar?_eq_none_iff : findChar? meets cs = none ↔ ∀ c ∈ cs, meets c = false := by
  induction cs with
  | nil => simp [findChar?, find?]
  | cons c rest ih =>
    rw [findChar?_cons, List.forall_mem_cons, ← ih]
    cases hc : meets c <;> simp

end Text

namespace HostUrl

open Text (slice? find? findChar?)

/-! ## Offsets of a host address -/

/-- Where the scheme ends, the host starts and ends, and the path starts. -/
structure Offsets where
  schemeEnd : Nat
  hostStart : Nat
  hostEnd : Nat
  pathStart : Nat
deriving DecidableEq, Repr

/-- Why no offsets are given. -/
inductive Fault where
  /-- The text is no host address. -/
  | refused
  /-- A slice was taken beyond the end of the text, or inside of a character. -/
  | outside
deriving DecidableEq, Repr

/-- What is there, or else a fault. -/
def required {α : Type} (fault : Fault) : Option α → Except Fault α
  | some a => .ok a
  | none => .error fault

@[simp] theorem required_some {α : Type} (fault : Fault) (a : α) :
    required fault (some a) = .ok a := rfl

@[simp] theorem required_none {α : Type} (fault : Fault) :
    required fault (none : Option α) = .error fault := rfl

/-- Refuses a text of which a condition does not hold. -/
def demand (condition : Bool) : Except Fault Unit :=
  if condition then .ok () else .error .refused

/-- Where the host ends that starts at an offset, with some text from there to the end. -/
def hostEnd? (hostStart textEnd : Nat) (remainder : List Char) : Option Nat :=
  if remainder.head? = some '[' then
    (findChar? (· == ']') remainder).map (hostStart + · + 1)
  else
    some ((findChar? (fun c => c == ':' || c == '/') remainder).elim textEnd (hostStart + ·))

/-- Where the path starts behind the host, or the text ends. -/
def pathStart (hostEnd textEnd : Nat) (behind : List Char) : Nat :=
  (findChar? (· == '/') behind).elim textEnd (hostEnd + ·)

/-- The offsets of a host address, found one behind the other. -/
def locate (text : List Char) : Except Fault Offsets := do
  let schemeEnd ← required .refused (find? separator.isPrefixOf text)
  let scheme ← required .outside (slice? text 0 schemeEnd)
  demand (equalsIgnoringCase scheme ['h', 't', 't', 'p'] ||
    equalsIgnoringCase scheme ['h', 't', 't', 'p', 's'])
  demand (!(text.contains '?' || text.contains '#'))
  let hostStart := schemeEnd + 3
  let remainder ← required .outside (slice? text hostStart (utf8Len text))
  let hostEnd ← required .refused (hostEnd? hostStart (utf8Len text) remainder)
  demand (hostEnd != hostStart)
  let behind ← required .outside (slice? text hostEnd (utf8Len text))
  let pathStart := pathStart hostEnd (utf8Len text) behind
  let port ← required .outside (slice? text hostEnd pathStart)
  demand (isPort port)
  return ⟨schemeEnd, hostStart, hostEnd, pathStart⟩

/-! The parts of a text that lie at some offsets in it. -/

def Offsets.scheme? (o : Offsets) (text : List Char) : Option (List Char) :=
  slice? text 0 o.schemeEnd

def Offsets.hostName? (o : Offsets) (text : List Char) : Option (List Char) :=
  slice? text o.hostStart o.hostEnd

def Offsets.origin? (o : Offsets) (text : List Char) : Option (List Char) :=
  slice? text 0 o.pathStart

def Offsets.path? (o : Offsets) (text : List Char) : Option (List Char) :=
  slice? text o.pathStart (utf8Len text)

/-- The offsets between the parts of a text. -/
def Parts.offsets (p : Parts) : Offsets where
  schemeEnd := utf8Len p.scheme
  hostStart := utf8Len p.scheme + 3
  hostEnd := utf8Len p.scheme + 3 + utf8Len p.host
  pathStart := utf8Len p.scheme + 3 + utf8Len p.host + utf8Len p.port

theorem find?_separator (text : List Char) :
    find? separator.isPrefixOf text = (cutScheme? text).map fun cut => utf8Len cut.1 := by
  induction text with
  | nil => rfl
  | cons c rest ih =>
    rw [find?, cutScheme?, ih]
    by_cases h : separator.isPrefixOf (c :: rest) = true
    · rw [if_pos h, if_pos h]
      rfl
    · rw [if_neg h, if_neg h, Option.map_map, Option.map_map]
      congr 1
      funext cut
      exact Nat.add_comm _ _

/-- Whether a text starts with a bracket that is not closed. -/
def IsOpen (remainder : List Char) : Prop := remainder.head? = some '[' ∧ ']' ∉ remainder

theorem hostEnd?_of_isOpen {remainder : List Char} (h : IsOpen remainder) (n textEnd : Nat) :
    hostEnd? n textEnd remainder = none := by
  have hnone : findChar? (· == ']') remainder = none :=
    Text.findChar?_eq_none_iff.mpr fun c hc => beq_false_of_ne fun heq => h.2 (heq ▸ hc)
  rw [hostEnd?, if_pos h.1, hnone]
  rfl

/-- A text with a bracket in front is left open, or has the first bracket that closes. -/
theorem not_isOpen_bracket {remainder : List Char} (h : ¬IsOpen remainder)
    (hhead : remainder.head? = some '[') :
    ∃ inner behind, remainder = '[' :: (inner ++ ']' :: behind) ∧ ']' ∉ inner := by
  have hmem : ']' ∈ remainder := not_not.mp fun hno => h ⟨hhead, hno⟩
  obtain ⟨rest, rfl⟩ := List.head?_eq_some_iff.mp hhead
  have hrest : ']' ∈ rest := by simpa using hmem
  obtain ⟨inner, behind, rfl, hinner⟩ := List.eq_append_cons_of_mem hrest
  exact ⟨inner, behind, rfl, hinner⟩

/-- The search ends the host where it is cut from the text. -/
theorem hostEnd?_of_not_isOpen {remainder : List Char} (h : ¬IsOpen remainder) {n textEnd : Nat}
    (hend : textEnd = n + utf8Len remainder) :
    hostEnd? n textEnd remainder = some (n + utf8Len (cutHost remainder).1) := by
  by_cases hhead : remainder.head? = some '['
  · obtain ⟨inner, behind, rfl, hinner⟩ := not_isOpen_bracket h hhead
    have hfront : ∀ c ∈ '[' :: inner, (c == ']') = false := by
      intro c hc
      rcases List.mem_cons.mp hc with rfl | hc
      · decide
      · exact beq_false_of_ne fun heq => hinner (heq ▸ hc)
    have hfind := Text.findChar?_append hfront (beq_self_eq_true ']') behind
    rw [List.cons_append] at hfind
    -- the bracket that closes belongs to the host
    have hlength : utf8Len ('[' :: (inner ++ [']'])) = utf8Len ('[' :: inner) + 1 := by
      rw [← List.cons_append, utf8Len_append]
      rfl
    rw [hostEnd?, if_pos hhead, hfind, cutHost_bracketed hinner, hlength]
    rfl
  · have hstop : (fun c : Char => !(c == ':' || c == '/')) = fun c => c ≠ ':' && c ≠ '/' := by
      funext c
      rw [Bool.not_or, beq_eq_decide, beq_eq_decide, decide_not, decide_not]
    rw [hostEnd?, if_neg hhead, hend, Text.elim_findChar?, cutHost_of_no_bracket hhead, hstop]

theorem isHost_cutHost (remainder : List Char) :
    isHost (cutHost remainder).1 = true ↔
      ¬IsOpen remainder ∧ (cutHost remainder).1 ≠ [] := by
  have htext := append_of_cutHost remainder
  constructor
  · intro hhost
    have hne : (cutHost remainder).1 ≠ [] := by
      intro hnil
      rw [hnil] at hhost
      cases hhost
    refine ⟨?_, hne⟩
    rintro ⟨hhead, hno⟩
    rcases isHost_iff.mp hhost with ⟨inner, heq, -⟩ | ⟨-, hfirst, -⟩
    · refine hno (htext ▸ List.mem_append_left _ ?_)
      rw [heq]
      simp
    · rw [← htext, List.head?_append_of_ne_nil _ hne] at hhead
      exact hfirst hhead
  · rintro ⟨hclosed, hne⟩
    rw [isHost_iff]
    by_cases hhead : remainder.head? = some '['
    · obtain ⟨inner, behind, rfl, hinner⟩ := not_isOpen_bracket hclosed hhead
      rw [cutHost_bracketed hinner]
      exact Or.inl ⟨inner, rfl, hinner⟩
    · refine Or.inr ⟨hne, ?_, ?_, ?_⟩
      · rwa [← htext, List.head?_append_of_ne_nil _ hne] at hhead
      · rw [cutHost_of_no_bracket hhead]
        intro hmem
        simpa using List.mem_takeWhile_imp hmem
      · rw [cutHost_of_no_bracket hhead]
        intro hmem
        simpa using List.mem_takeWhile_imp hmem

namespace Parts

@[simp] theorem utf8Len_separator : utf8Len separator = 3 := by decide

variable (p : Parts)

theorem utf8Len_text :
    utf8Len p.text = utf8Len p.scheme + 3 + utf8Len p.host + utf8Len p.port + utf8Len p.path := by
  simp only [text, utf8Len_append, utf8Len_separator]

theorem slice_scheme : slice? p.text 0 (utf8Len p.scheme) = some p.scheme :=
  Text.slice?_of_eq [] (separator ++ (p.host ++ (p.port ++ p.path))) (by simp [text]) rfl
    (Nat.zero_add _)

theorem slice_remainder : slice? p.text (utf8Len p.scheme + 3) (utf8Len p.text) =
    some (p.host ++ (p.port ++ p.path)) :=
  Text.slice?_of_eq (p.scheme ++ separator) [] (by simp [text]) (by simp)
    (by simp [utf8Len_text]; omega)

theorem slice_host : slice? p.text (utf8Len p.scheme + 3) (utf8Len p.scheme + 3 + utf8Len p.host) =
    some p.host :=
  Text.slice?_of_eq (p.scheme ++ separator) (p.port ++ p.path) (by simp [text])
    (by simp) rfl

theorem slice_behind : slice? p.text (utf8Len p.scheme + 3 + utf8Len p.host) (utf8Len p.text) =
    some (p.port ++ p.path) :=
  Text.slice?_of_eq (p.scheme ++ separator ++ p.host) [] (by simp [text])
    (by simp [Nat.add_assoc]) (by simp [utf8Len_text]; omega)

theorem slice_port : slice? p.text (utf8Len p.scheme + 3 + utf8Len p.host)
    (utf8Len p.scheme + 3 + utf8Len p.host + utf8Len p.port) = some p.port :=
  Text.slice?_of_eq (p.scheme ++ separator ++ p.host) p.path (by simp [text])
    (by simp [Nat.add_assoc]) rfl

theorem slice_origin :
    slice? p.text 0 (utf8Len p.scheme + 3 + utf8Len p.host + utf8Len p.port) =
      some (p.scheme ++ separator ++ p.host ++ p.port) :=
  Text.slice?_of_eq [] p.path (by simp [text]) rfl
    (by simp [Nat.add_assoc])

theorem slice_path :
    slice? p.text (utf8Len p.scheme + 3 + utf8Len p.host + utf8Len p.port) (utf8Len p.text) =
      some p.path :=
  Text.slice?_of_eq (p.scheme ++ separator ++ p.host ++ p.port) []
    (by simp [text]) (by simp [Nat.add_assoc]) (by rw [utf8Len_text])

end Parts

theorem demand_of {condition : Bool} (h : condition = true) : demand condition = .ok () := if_pos h

theorem demand_of_not {condition : Bool} (h : ¬condition = true) :
    demand condition = .error .refused := if_neg h

theorem ok_bind {α β : Type} (a : α) (f : α → Except Fault β) :
    (Except.ok a : Except Fault α) >>= f = f a := rfl

theorem error_bind {α β : Type} (fault : Fault) (f : α → Except Fault β) :
    (Except.error fault : Except Fault α) >>= f = .error fault := rfl

theorem pathStart_eq {hostEnd textEnd : Nat} {behind : List Char}
    (hend : textEnd = hostEnd + utf8Len behind) :
    pathStart hostEnd textEnd behind = hostEnd + utf8Len (behind.takeWhile (· ≠ '/')) := by
  have hstop : (fun c : Char => !(c == '/')) = fun c => decide (c ≠ '/') := by
    funext c
    rw [beq_eq_decide, decide_not]
  rw [pathStart, hend, Text.elim_findChar?, hstop]

/-- What is cut from a text, one part behind the other. -/
theorem cuts_of_split {text : List Char} {p : Parts} (h : split? text = some p) :
    cutScheme? text = some (p.scheme, p.host ++ (p.port ++ p.path)) ∧
      cutHost (p.host ++ (p.port ++ p.path)) = (p.host, p.port ++ p.path) ∧
      (p.port ++ p.path).takeWhile (· ≠ '/') = p.port ∧ isPath p.path = true := by
  cases hcut : cutScheme? text with
  | none =>
    rw [split?, hcut] at h
    cases h
  | some cut =>
    obtain ⟨scheme, remainder⟩ := cut
    rw [split_of_cutScheme hcut] at h
    cases h
    dsimp only
    rw [List.takeWhile_append_dropWhile, append_of_cutHost, isPath_iff]
    refine ⟨rfl, rfl, rfl, ?_⟩
    have hhead := List.head?_dropWhile_not (fun c : Char => decide (c ≠ '/')) (cutHost remainder).2
    cases hpath : (cutHost remainder).2.dropWhile fun c => decide (c ≠ '/') with
    | nil => exact Or.inl rfl
    | cons c rest =>
      rw [hpath] at hhead
      simpa using hhead

/-- The searches find the offsets of the parts, if these are the parts of a host address; else the
text is refused, and never a slice taken outside of it. -/
theorem locate_of_split {text : List Char} {p : Parts} (h : split? text = some p) :
    locate text = if p.isValid then .ok p.offsets else .error .refused := by
  obtain rfl := text_of_split h
  obtain ⟨hscheme, hhost, hport, hpath⟩ := cuts_of_split h
  have hvalid : p.isValid = true ↔
      (equalsIgnoringCase p.scheme ['h', 't', 't', 'p'] ||
        equalsIgnoringCase p.scheme ['h', 't', 't', 'p', 's']) = true ∧
      (!(p.text.contains '?' || p.text.contains '#')) = true ∧
      ¬IsOpen (p.host ++ (p.port ++ p.path)) ∧ p.host ≠ [] ∧ isPort p.port = true := by
    have hishost := isHost_cutHost (p.host ++ (p.port ++ p.path))
    rw [hhost] at hishost
    simp only [Parts.isValid, Bool.and_eq_true, hishost, hpath, Bool.not_or]
    tauto
  rw [locate, find?_separator, hscheme, Option.map_some, required_some, ok_bind,
    Parts.slice_scheme, required_some, ok_bind]
  -- the checks are made in this order, and where one fails the parts are none of a host address
  by_cases hknown : (equalsIgnoringCase p.scheme ['h', 't', 't', 'p'] ||
      equalsIgnoringCase p.scheme ['h', 't', 't', 'p', 's']) = true
  case neg =>
    rw [demand_of_not hknown, error_bind, if_neg fun hv => hknown (hvalid.mp hv).1]
  rw [demand_of hknown, ok_bind]
  by_cases hplain : (!(p.text.contains '?' || p.text.contains '#')) = true
  case neg =>
    rw [demand_of_not hplain, error_bind, if_neg fun hv => hplain (hvalid.mp hv).2.1]
  rw [demand_of hplain, ok_bind]
  dsimp only
  rw [Parts.slice_remainder, required_some, ok_bind]
  by_cases hopen : IsOpen (p.host ++ (p.port ++ p.path))
  case pos =>
    rw [hostEnd?_of_isOpen hopen, required_none, error_bind,
      if_neg fun hv => (hvalid.mp hv).2.2.1 hopen]
  have hend : utf8Len p.text = utf8Len p.scheme + 3 + utf8Len (p.host ++ (p.port ++ p.path)) := by
    rw [Parts.utf8Len_text, utf8Len_append, utf8Len_append]
    omega
  rw [hostEnd?_of_not_isOpen hopen hend, hhost, required_some, ok_bind]
  by_cases hne : p.host = []
  case pos =>
    rw [hne, demand_of_not (by simp), error_bind, if_neg fun hv => (hvalid.mp hv).2.2.2.1 hne]
  rw [demand_of (by simpa using hne), ok_bind, Parts.slice_behind, required_some, ok_bind]
  dsimp only
  have hend' : utf8Len p.text =
      utf8Len p.scheme + 3 + utf8Len p.host + utf8Len (p.port ++ p.path) := by
    rw [hend, utf8Len_append, Nat.add_assoc _ (utf8Len p.host)]
  rw [pathStart_eq hend', hport, Parts.slice_port, required_some, ok_bind]
  by_cases hdigits : isPort p.port = true
  case neg =>
    rw [demand_of_not hdigits, error_bind, if_neg fun hv => hdigits (hvalid.mp hv).2.2.2.2]
  rw [demand_of hdigits, ok_bind, if_pos (hvalid.mpr ⟨hknown, hplain, hopen, hne, hdigits⟩)]
  rfl

theorem locate_of_split_none {text : List Char} (h : split? text = none) :
    locate text = .error .refused := by
  have hcut : cutScheme? text = none := by
    cases hcut : cutScheme? text with
    | none => rfl
    | some cut =>
      obtain ⟨scheme, remainder⟩ := cut
      rw [split_of_cutScheme hcut] at h
      cases h
  rw [locate, find?_separator, hcut]
  rfl

theorem locate_eq (s : String) :
    locate (Text.trim s.toList) =
      match ofString? s with
      | some h => .ok h.parts.offsets
      | none => .error .refused := by
  rw [ofString?]
  cases hsplit : split? (Text.trim s.toList) with
  | none => exact locate_of_split_none hsplit
  | some p =>
    rw [locate_of_split hsplit]
    by_cases hvalid : p.isValid = true
    · rw [if_pos hvalid]
      simp only [dif_pos hvalid]
    · rw [if_neg hvalid]
      simp only [dif_neg hvalid]

/-! ## Which texts are host addresses -/

/-- A text is a host address when it has the parts of one, without the white space around it. It
then has these parts only, and the address knows them: it is made of its origin and its path, and
can be read again from its text. The offsets at which the parts are kept lie between characters of
the text, and no search takes a slice anywhere else, whatever the text. -/
theorem read_address (s : String) :
    ((ofString? s).isSome = true ↔ ∃ p : Parts, p.IsAddress ∧ p.text = Text.trim s.toList) ∧
    (∀ p q : Parts, p.IsAddress → q.IsAddress → p.text = Text.trim s.toList →
      q.text = Text.trim s.toList → p = q) ∧
    (∀ (p : Parts) (h : HostUrl), p.IsAddress → p.text = Text.trim s.toList →
      ofString? s = some h →
        h.scheme = .ofList p.scheme ∧ h.hostName = .ofList p.host ∧ h.hostName ≠ "" ∧
        h.origin = .ofList (p.scheme ++ separator ++ p.host ++ p.port) ∧
        h.path = .ofList p.path ∧ h.origin ++ h.path = .ofList (Text.trim s.toList) ∧
        ofString? (.ofList (Text.trim s.toList)) = some h ∧
        ∃ o, locate (Text.trim s.toList) = .ok o ∧
          o.scheme? (Text.trim s.toList) = some h.scheme.toList ∧
          o.hostName? (Text.trim s.toList) = some h.hostName.toList ∧
          o.origin? (Text.trim s.toList) = some h.origin.toList ∧
          o.path? (Text.trim s.toList) = some h.path.toList) ∧
    locate (Text.trim s.toList) ≠ .error .outside ∧
    (ofString? s = none → locate (Text.trim s.toList) = .error .refused) := by
  have hunique : ∀ p q : Parts, p.IsAddress → q.IsAddress → p.text = q.text → p = q := by
    intro p q hp hq htext
    have hsplit := hp.split_text
    rw [htext, hq.split_text] at hsplit
    exact (Option.some.inj hsplit).symm
  refine ⟨?_, ?_, ?_, ?_, ?_⟩
  · constructor
    · intro hsome
      obtain ⟨h, hread⟩ := Option.isSome_iff_exists.mp hsome
      exact ⟨h.parts, Parts.isValid_iff.mp h.isValid, ofString_eq_some_iff.mp hread⟩
    · rintro ⟨p, hp, htext⟩
      have hread : ofString? s = some ⟨p, Parts.isValid_iff.mpr hp⟩ :=
        ofString_eq_some_iff.mpr htext
      rw [hread]
      rfl
  · intro p q hp hq hptext hqtext
    exact hunique p q hp hq (hptext.trans hqtext.symm)
  · intro p h hp hptext hread
    have hhtext := ofString_eq_some_iff.mp hread
    have hparts : h.parts = p :=
      hunique _ _ (Parts.isValid_iff.mp h.isValid) hp (hhtext.trans hptext.symm)
    have hne : p.host ≠ [] := by
      rcases hp.host with ⟨inner, hhost, -⟩ | ⟨hne, -⟩
      · simp [hhost]
      · exact hne
    have hagain : ofString? (.ofList (Text.trim s.toList)) = some h := by
      rw [ofString_eq_some_iff, String.toList_ofList, Text.trim_trim, hhtext]
    have hlocate : locate (Text.trim s.toList) = .ok p.offsets := by
      rw [locate_eq, hread, ← hparts]
    rw [scheme, hostName, origin, path, hparts]
    refine ⟨rfl, rfl, ?_, rfl, rfl, ?_, hagain, p.offsets, hlocate, ?_⟩
    · intro hempty
      exact hne (by simpa using congrArg String.toList hempty)
    · rw [← String.ofList_append, ← hptext]
      rfl
    · simp only [String.toList_ofList, ← hptext]
      exact ⟨p.slice_scheme, p.slice_host, p.slice_origin, p.slice_path⟩
  · rw [locate_eq]
    cases ofString? s with
    | some h => rintro ⟨⟩
    | none => rintro ⟨⟩
  · intro hnone
    rw [locate_eq, hnone]

theorem read_address_umlaut :
    ∃ h, ofString? " https://bücher:8443/api" = some h ∧ h.scheme = "https" ∧
      h.hostName = "bücher" ∧ h.origin = "https://bücher:8443" ∧ h.path = "/api" ∧
      ofString? "https://bücher:8443/api" = some h := by
  let p : Parts := ⟨"https".toList, "bücher".toList, ":8443".toList, "/api".toList⟩
  have hp : p.IsAddress := Parts.isValid_iff.mp (by decide)
  have htext : p.text = Text.trim " https://bücher:8443/api".toList := by decide
  obtain ⟨hreads, -, hparts, -⟩ := read_address " https://bücher:8443/api"
  obtain ⟨h, hread⟩ := Option.isSome_iff_exists.mp (hreads.mpr ⟨p, hp, htext⟩)
  obtain ⟨hscheme, hhost, -, horigin, hpath, -, hagain, -⟩ := hparts p h hp htext hread
  rw [← htext] at hagain
  exact ⟨h, hread, hscheme, hhost, horigin, hpath, hagain⟩

end HostUrl

end ApplianceRest
