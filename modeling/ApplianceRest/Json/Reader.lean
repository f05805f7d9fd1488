import ApplianceRest.Json.Basic

/-!
# Reading a document from the front

A reader takes a value from the front of a text and returns it with the rest, which is shorter; so
every loop over a text ends. The first thing wrong, in the order of the text, is what is reported.

* `string`, `number` and `word` read the atoms.
* `items` and `members` read what stands between brackets and between braces.
-/

namespace ApplianceRest.Json

/-- A value read from the front of `s`, and the rest of `s` behind it. -/
structure Taken (α : Type) (s : Bytes) where
  value : α
  rest : Bytes
  shorter : rest.length < s.length

namespace Taken

variable {α β : Type} {s t : Bytes}

/-- What was read from an end of a text was read from the text. -/
def within (x : Taken α t) (h : t.length ≤ s.length) : Taken α s :=
  ⟨x.value, x.rest, Nat.lt_of_lt_of_le x.shorter h⟩

/-- What was read from behind the first byte of a text was read from the text. -/
def behind (b : UInt8) (x : Taken α s) : Taken α (b :: s) := x.within (Nat.le_succ s.length)

/-- The same reading with another value. -/
def map (f : α → β) (x : Taken α s) : Taken β s := ⟨f x.value, x.rest, x.shorter⟩

end Taken

/-- Reads a value from the front of a text. -/
abbrev Reader (α : Type) := (s : Bytes) → Except Error (Taken α s)

namespace Reader

/-! ## Bytes with a meaning -/

def quote : UInt8 := 0x22
def backslash : UInt8 := 0x5C
def comma : UInt8 := 0x2C
def colon : UInt8 := 0x3A
def openBracket : UInt8 := 0x5B
def closeBracket : UInt8 := 0x5D
def openBrace : UInt8 := 0x7B
def closeBrace : UInt8 := 0x7D
def minus : UInt8 := 0x2D

/-- Space, tab, line feed and carriage return may stand between tokens. -/
def isBlank (b : UInt8) : Bool := b == 0x20 || b == 0x09 || b == 0x0A || b == 0x0D

/-- The text from its first token on. -/
def skipBlank (s : Bytes) : Bytes := s.dropWhile isBlank

theorem length_skipBlank_le (s : Bytes) : (skipBlank s).length ≤ s.length :=
  (List.dropWhile_sublist _).length_le

theorem length_lt_cons (b : UInt8) (r : Bytes) : r.length < (b :: r).length := Nat.lt_succ_self _

theorem length_lt_of_skipBlank {s r : Bytes} {b : UInt8} (h : skipBlank s = b :: r) :
    r.length < s.length := by
  have hs := length_skipBlank_le s
  rw [h] at hs
  exact hs

/-- Reads from the first token on. -/
def fromToken {α : Type} (read : Reader α) : Reader α := fun s =>
  (read (skipBlank s)).map (·.within (length_skipBlank_le s))

/-- The text behind a fixed word. -/
def word (expected : Bytes) (s : Bytes) : Except Error { r : Bytes // r.length ≤ s.length } :=
  match expected, s with
  | [], s => .ok ⟨s, Nat.le_refl _⟩
  | _ :: _, [] => .error (.unfinished .value)
  | e :: es, b :: r =>
    if b = e then (word es r).map fun t => ⟨t.1, Nat.le_succ_of_le t.2⟩
    else .error (.malformed .expectedIdent)

/-- What follows the first letter of `null`. -/
def ullWord : Bytes := [0x75, 0x6C, 0x6C]

/-- What follows the first letter of `true`. -/
def rueWord : Bytes := [0x72, 0x75, 0x65]

/-- What follows the first letter of `false`. -/
def alseWord : Bytes := [0x61, 0x6C, 0x73, 0x65]

/-- The value that a fixed word denotes, from behind its first letter. -/
def constant {α : Type} (value : α) (first : UInt8) (rest : Bytes) (s : Bytes) :
    Except Error (Taken α (first :: s)) :=
  (word rest s).map fun t => ⟨value, t.1, Nat.lt_succ_of_le t.2⟩

/-! ## Strings -/

/-- The value of the byte of a hexadecimal digit of either case. -/
def hexValue? (b : UInt8) : Option Nat :=
  if 0x30 ≤ b ∧ b ≤ 0x39 then some (b.toNat - 0x30)
  else if 0x41 ≤ b ∧ b ≤ 0x46 then some (b.toNat - 0x37)
  else if 0x61 ≤ b ∧ b ≤ 0x66 then some (b.toNat - 0x57)
  else none

/-- Four hexadecimal digits. Where fewer than four bytes are left the text ends too early, whatever
they are. -/
def fourHex : Reader Nat
  | a :: b :: c :: d :: r =>
    match hexValue? a, hexValue? b, hexValue? c, hexValue? d with
    | some w, some x, some y, some z =>
      .ok ⟨((w * 16 + x) * 16 + y) * 16 + z, r, by simp only [List.length_cons]; omega⟩
    | _, _, _, _ => .error (.malformed .invalidEscape)
  | _ => .error (.unfinished .string)

/-- The bytes of the character with a code point. -/
def codePoint (n : Nat) : Bytes := String.utf8EncodeChar (Char.ofNat n)

/-- A character by its number, behind the letter `u`: one group of four digits, or two that form a
surrogate pair. -/
def numberedChar : Reader Bytes := fun s => do
  let first ← fourHex s
  if 0xDC00 ≤ first.value ∧ first.value ≤ 0xDFFF then .error (.malformed .loneSurrogate)
  else if 0xD800 ≤ first.value ∧ first.value ≤ 0xDBFF then
    match h : first.rest with
    | [] => .error (.unfinished .string)
    | b :: r =>
      if b ≠ backslash then .error (.malformed .unpairedSurrogate)
      else match hr : r with
        | [] => .error (.unfinished .string)
        | u :: r' =>
          if u ≠ 0x75 then .error (.malformed .unpairedSurrogate)
          else do
            let second ← fourHex r'
            if 0xDC00 ≤ second.value ∧ second.value ≤ 0xDFFF then
              .ok ⟨codePoint ((first.value - 0xD800) * 0x400 + (second.value - 0xDC00) + 0x10000),
                second.rest, by
                  have h1 := first.shorter
                  have h2 := second.shorter
                  rw [h, hr] at h1
                  simp only [List.length_cons] at h1
                  omega⟩
            else .error (.malformed .loneSurrogate)
  else .ok (first.map codePoint)

/-- The character that a letter behind a backslash stands for. -/
def escapedByte? (b : UInt8) : Option UInt8 :=
  if b = quote ∨ b = backslash ∨ b = 0x2F then some b
  else if b = 0x62 then some 0x08
  else if b = 0x66 then some 0x0C
  else if b = 0x6E then some 0x0A
  else if b = 0x72 then some 0x0D
  else if b = 0x74 then some 0x09
  else none

/-- What stands behind a backslash. -/
def escape : Reader Bytes
  | [] => .error (.unfinished .string)
  | b :: r =>
    match escapedByte? b with
    | some c => .ok ⟨[c], r, length_lt_cons b r⟩
    | none =>
      if b = 0x75 then (numberedChar r).map (·.behind b)
      else .error (.malformed .invalidEscape)

/-- The bytes that a string denotes, from behind its opening quote. -/
def stringBytes (s : Bytes) : Except Error (Taken Bytes s) :=
  match s with
  | [] => .error (.unfinished .string)
  | b :: r =>
    if b = quote then .ok ⟨[], r, length_lt_cons b r⟩
    else if b = backslash then do
      let c ← escape r
      have : c.rest.length < (b :: r).length := Nat.lt_succ_of_lt c.shorter
      let cs ← stringBytes c.rest
      .ok ((cs.map (c.value ++ ·)).within (Nat.le_of_lt this))
    else if b < 0x20 then .error (.malformed .controlCharacter)
    else (stringBytes r).map fun cs => (cs.map (b :: ·)).behind b
termination_by s.length
decreasing_by
  · exact this
  · exact Nat.lt_succ_self _

/-- A string, from behind its opening quote. Whether its bytes are a text is found at its end. -/
def string : Reader String := fun s => do
  let bytes ← stringBytes s
  match String.fromUTF8? bytes.value.toByteArray with
  | some t => .ok (bytes.map fun _ => t)
  | none => .error (.malformed .invalidCodePoint)

/-! ## Numbers -/

/-- Whether a byte is a decimal digit. -/
def isDigit (b : UInt8) : Bool := 0x30 ≤ b && b ≤ 0x39

/-- Adds digits to a significand as long as it stays within an unsigned word; returns it with the
digits from the first one on that did not fit. -/
def absorb (significand : Nat) : Bytes → Nat × Bytes
  | [] => (significand, [])
  | b :: r =>
    let next := significand * 10 + (b.toNat - 0x30)
    if next < UInt64.size then absorb next r else (significand, b :: r)

/-- The value of some digits. -/
def digitsValue (ds : Bytes) : Nat := ds.foldl (fun n b => n * 10 + (b.toNat - 0x30)) 0

/-- A number with a fraction, an exponent or too many digits for a machine word. -/
def binary (negative : Bool) (significand : Nat) (power : Int) : Except Error Number := do
  match (Decimal.Magnitude.nearest significand 1).bind (·.scaled power) with
  | some m => .ok (.binary ⟨negative, m⟩)
  | none => .error (.malformed .numberOutOfRange)

/-- The digits at the front of a text, and the rest. -/
def spanDigits (s : Bytes) : Bytes × Bytes := (s.takeWhile isDigit, s.dropWhile isDigit)

/-- The greatest exponent that is counted, the largest signed word of 32 bits; a number with a
greater one is out of range, or zero. -/
def greatestExponent : Nat := 2147483647

/-- An exponent from behind its letter, and the number it completes. -/
def exponentPart (negative : Bool) (significand : Nat) (power : Int) (s : Bytes) :
    Except Error (Number × Bytes) :=
  let (down, t) := match s with
    | b :: r => if b = 0x2B then (false, r) else if b = minus then (true, r) else (false, b :: r)
    | [] => (false, [])
  let (ds, rest) := spanDigits t
  if t = [] then .error (.unfinished .value)
  else if ds = [] then .error (.malformed .invalidNumber)
  else
    let size := digitsValue ds
    if greatestExponent < size then
      if significand ≠ 0 ∧ !down then .error (.malformed .numberOutOfRange)
      else .ok (.binary ⟨negative, Decimal.Magnitude.zero⟩, rest)
    else do
      let n ← binary negative significand (if down then power - size else power + size)
      .ok (n, rest)

/-- A fraction from behind its point, and the number it completes. -/
def fractionPart (negative : Bool) (significand : Nat) (power : Int) (s : Bytes) :
    Except Error (Number × Bytes) :=
  let (ds, rest) := spanDigits s
  if ds = [] then
    .error (if s = [] then .unfinished .value else .malformed .invalidNumber)
  else
    let (significand, left) := absorb significand ds
    let power := power - Int.ofNat (ds.length - left.length)
    match rest with
    | b :: r =>
      if b = 0x65 ∨ b = 0x45 then exponentPart negative significand power r
      else (binary negative significand power).map (·, rest)
    | [] => (binary negative significand power).map (·, rest)

/-- A whole number as it is stored: as such if a signed word (for a negative one) or an unsigned one
holds it, else in binary. There is no negative zero among the whole numbers. -/
def wholeNumber (negative : Bool) (significand : Nat) : Except Error Number :=
  if !negative then .ok (.whole significand)
  else if significand = 0 ∨ -(significand : Int) < Int64.minValue.toInt then
    binary true significand 0
  else .ok (.whole (-significand))

/-- A number from behind its sign: digits without a leading zero, then perhaps a fraction and an
exponent. -/
def unsigned (negative : Bool) (s : Bytes) : Except Error (Number × Bytes) :=
  let (ds, rest) := spanDigits s
  if s = [] then .error (.unfinished .value)
  else if ds = [] ∨ (ds.head? = some 0x30 ∧ ds.length ≠ 1) then .error (.malformed .invalidNumber)
  else
    let (significand, left) := absorb 0 ds
    let power := Int.ofNat left.length
    let whole : Except Error (Number × Bytes) :=
      (if left = [] then wholeNumber negative significand
        else binary negative significand power).map (·, rest)
    match rest with
    | b :: r =>
      if b = 0x2E then fractionPart negative significand power r
      else if b = 0x65 ∨ b = 0x45 then exponentPart negative significand power r
      else whole
    | [] => whole

/-- A number with its sign. Nothing is read where there is none, which never happens at the start
of a number. -/
def number : Reader Number := fun s => do
  let (n, rest) ← match s with
    | b :: r => if b = minus then unsigned true r else unsigned false s
    | [] => .error (.unfinished .value)
  if h : rest.length < s.length then .ok ⟨n, rest, h⟩ else .error (.malformed .invalidNumber)

/-- Whether a byte starts a number. -/
def startsNumber (b : UInt8) : Bool := b == minus || isDigit b

/-! ## Lists and objects -/

/-- What stands next between two brackets: the closing one, with the text behind it, or an item,
with the text from it on. -/
inductive NextItem (s : Bytes) where
  | last (rest : Bytes) (shorter : rest.length < s.length)
  | item (text : Bytes) (within : text.length ≤ s.length)

/-- Looks for the next item of a list: at its start, or behind an item and then behind a comma. -/
def nextItem (atStart : Bool) (s : Bytes) : Except Error (NextItem s) :=
  match h : skipBlank s with
  | [] => .error (.unfinished .list)
  | b :: r =>
    have hs : (b :: r).length ≤ s.length := h ▸ length_skipBlank_le s
    if b = closeBracket then .ok (.last r hs)
    else if atStart then .ok (.item (b :: r) hs)
    else if b = comma then
      match h' : skipBlank r with
      | [] => .error (.unfinished .value)
      | c :: r' =>
        if c = closeBracket then .error (.malformed .trailingComma)
        else
          have hr : (c :: r').length ≤ r.length := h' ▸ length_skipBlank_le r
          .ok (.item (c :: r') (Nat.le_trans hr (Nat.le_of_lt hs)))
    else .error (.malformed .expectedCommaOrBracket)

/-- The items of a list and its closing bracket, from behind the opening one or behind an item. -/
def items {α : Type} (read : Reader α) (atStart : Bool) (s : Bytes) :
    Except Error (Taken (List α) s) := do
  match ← nextItem atStart s with
  | .last rest shorter => .ok ⟨[], rest, shorter⟩
  | .item t within => do
    let x ← read t
    have : x.rest.length < s.length := Nat.lt_of_lt_of_le x.shorter within
    let xs ← items read false x.rest
    .ok ((xs.map (x.value :: ·)).within (Nat.le_of_lt this))
termination_by s.length

/-- What stands next between two braces: the closing one, with the text behind it, or a member, with
the text from behind the quote that opens its key. -/
inductive NextMember (s : Bytes) where
  | last (rest : Bytes) (shorter : rest.length < s.length)
  | member (text : Bytes) (shorter : text.length < s.length)

/-- Looks for the next member of an object: at its start, or behind a member and then behind a
comma. -/
def nextMember (atStart : Bool) (s : Bytes) : Except Error (NextMember s) :=
  match h : skipBlank s with
  | [] => .error (.unfinished .object)
  | b :: r =>
    have hs : (b :: r).length ≤ s.length := h ▸ length_skipBlank_le s
    if b = closeBrace then .ok (.last r hs)
    else if atStart then
      if b = quote then .ok (.member r hs) else .error (.malformed .keyNotString)
    else if b = comma then
      match h' : skipBlank r with
      | [] => .error (.unfinished .value)
      | c :: r' =>
        have hr : r'.length < r.length := length_lt_of_skipBlank h'
        if c = quote then .ok (.member r' (Nat.lt_trans hr hs))
        else if c = closeBrace then .error (.malformed .trailingComma)
        else .error (.malformed .keyNotString)
    else .error (.malformed .expectedCommaOrBrace)

/-- A value behind its colon. -/
def memberValue {α : Type} (read : Reader α) : Reader α := fun s =>
  match h : skipBlank s with
  | [] => .error (.unfinished .object)
  | b :: r =>
    if b = colon then
      have hr : r.length < s.length := length_lt_of_skipBlank h
      (read r).map (·.within (Nat.le_of_lt hr))
    else .error (.malformed .expectedColon)

/-- The members of an object and its closing brace, from behind the opening one or behind a member.
Each member is read by `step`, which is given its key, what the members before it came to, and the
text from behind the key. -/
def members {σ : Type} (step : String → σ → Reader σ) (atStart : Bool) (acc : σ) (s : Bytes) :
    Except Error (Taken σ s) := do
  match ← nextMember atStart s with
  | .last rest shorter => .ok ⟨acc, rest, shorter⟩
  | .member t within => do
    let key ← string t
    let next ← step key.value acc key.rest
    have : next.rest.length < s.length :=
      Nat.lt_trans (Nat.lt_trans next.shorter key.shorter) within
    let all ← members step false next.value next.rest
    .ok (all.within (Nat.le_of_lt this))
termination_by s.length

/-- A whole text: one value, with nothing but blanks behind it. -/
def whole {α : Type} (read : Reader α) (s : Bytes) : Except Error α := do
  let x ← read s
  if skipBlank x.rest = [] then .ok x.value else .error (.malformed .trailingCharacters)

end Reader

end ApplianceRest.Json
