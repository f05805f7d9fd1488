import ApplianceRest.Json.Reader

/-!
# Passing over a value

The value of a member that nobody asked for is passed over without being kept: it may nest as deep
as it likes, its numbers may be of any size, and its strings need be no texts. It still has to be
well formed; here a number that breaks off is malformed rather than unfinished, and a comma before a
closing bracket asks for the value that should follow it.
-/

namespace ApplianceRest.Json.Reader

/-- Passes over a string, from behind its opening quote. -/
def skipString (s : Bytes) : Except Error (Taken Unit s) :=
  match s with
  | [] => .error (.unfinished .string)
  | b :: r =>
    if b = quote then .ok ⟨(), r, length_lt_cons b r⟩
    else if b = backslash then
      match r with
      | [] => .error (.unfinished .string)
      | c :: r' =>
        if (escapedByte? c).isSome then
          (skipString r').map fun t => (t.behind c).behind b
        else if c = 0x75 then do
          let digits ← fourHex r'
          have : digits.rest.length < (b :: c :: r').length := ((digits.behind c).behind b).shorter
          (skipString digits.rest).map (·.within (Nat.le_of_lt this))
        else .error (.malformed .invalidEscape)
    else if b < 0x20 then .error (.malformed .controlCharacter)
    else (skipString r).map (·.behind b)
termination_by s.length
decreasing_by
  · exact Nat.lt_succ_of_lt (Nat.lt_succ_self _)
  · exact this
  · exact Nat.lt_succ_self _

/-- The rest behind an exponent whose letter has been read. -/
def skipExponent (s : Bytes) : Except Error Bytes :=
  let t := match s with
    | b :: r => if b = 0x2B ∨ b = minus then r else b :: r
    | [] => []
  let (ds, rest) := spanDigits t
  if ds = [] then .error (.malformed .invalidNumber) else .ok rest

/-- The rest behind a number whose sign has been read. -/
def skipUnsigned (s : Bytes) : Except Error Bytes :=
  let (ds, rest) := spanDigits s
  if ds = [] ∨ (ds.head? = some 0x30 ∧ ds.length ≠ 1) then .error (.malformed .invalidNumber)
  else
    match rest with
    | [] => .ok []
    | b :: r =>
      if b = 0x2E then
        let (fraction, rest') := spanDigits r
        if fraction = [] then .error (.malformed .invalidNumber)
        else match rest' with
          | c :: r' => if c = 0x65 ∨ c = 0x45 then skipExponent r' else .ok rest'
          | [] => .ok []
      else if b = 0x65 ∨ b = 0x45 then skipExponent r
      else .ok rest

/-- Passes over a number. -/
def skipNumber : Reader Unit := fun s => do
  let rest ← match s with
    | b :: r => if b = minus then skipUnsigned r else skipUnsigned s
    | [] => .error (.malformed .invalidNumber)
  if h : rest.length < s.length then .ok ⟨(), rest, h⟩ else .error (.malformed .invalidNumber)

mutual

/-- Passes over a value. -/
def skip (s : Bytes) : Except Error (Taken Unit s) :=
  match h : skipBlank s with
  | [] => .error (.unfinished .value)
  | b :: r =>
    have hr : r.length < s.length := length_lt_of_skipBlank h
    if b = 0x6E then (constant () b ullWord r).map (·.within hr)
    else if b = 0x74 then (constant () b rueWord r).map (·.within hr)
    else if b = 0x66 then (constant () b alseWord r).map (·.within hr)
    else if startsNumber b then (skipNumber (b :: r)).map (·.within hr)
    else if b = quote then (skipString r).map (·.within (Nat.le_of_lt hr))
    else if b = openBracket then
      match skipBlank r with
      | [] => .error (.unfinished .list)
      | c :: _ =>
        if c = closeBracket then do
          let t ← skipItems r
          .ok (t.within (Nat.le_of_lt hr))
        else do
          let x ← skip r
          have : x.rest.length < s.length := Nat.lt_trans x.shorter hr
          let t ← skipItems x.rest
          .ok (t.within (Nat.le_of_lt this))
    else if b = openBrace then
      match skipBlank r with
      | [] => .error (.unfinished .object)
      | c :: _ =>
        if c = closeBrace then do
          let t ← skipMembers r
          .ok (t.within (Nat.le_of_lt hr))
        else do
          let x ← skipMember r
          have : x.rest.length < s.length := Nat.lt_trans x.shorter hr
          let t ← skipMembers x.rest
          .ok (t.within (Nat.le_of_lt this))
    else .error (.malformed .expectedValue)
termination_by (s.length, 0)

/-- Passes over what is left of a list behind an item. -/
def skipItems (s : Bytes) : Except Error (Taken Unit s) :=
  match h : skipBlank s with
  | [] => .error (.unfinished .list)
  | b :: r =>
    have hr : r.length < s.length := length_lt_of_skipBlank h
    if b = closeBracket then .ok ⟨(), r, hr⟩
    else if b = comma then do
      let x ← skip r
      have : x.rest.length < s.length := Nat.lt_trans x.shorter hr
      let t ← skipItems x.rest
      .ok (t.within (Nat.le_of_lt this))
    else .error (.malformed .expectedCommaOrBracket)
termination_by (s.length, 1)

/-- Passes over a key and its value. -/
def skipMember (s : Bytes) : Except Error (Taken Unit s) :=
  match h : skipBlank s with
  | [] => .error (.unfinished .object)
  | b :: r =>
    have hr : r.length < s.length := length_lt_of_skipBlank h
    if b = quote then do
      let key ← skipString r
      match h' : skipBlank key.rest with
      | [] => .error (.unfinished .object)
      | c :: r' =>
        have hr' : r'.length < s.length :=
          Nat.lt_trans (length_lt_of_skipBlank h') (Nat.lt_trans key.shorter hr)
        if c = colon then (skip r').map (·.within (Nat.le_of_lt hr'))
        else .error (.malformed .expectedColon)
    else .error (.malformed .keyNotString)
termination_by (s.length, 1)

/-- Passes over what is left of an object behind a member. -/
def skipMembers (s : Bytes) : Except Error (Taken Unit s) :=
  match h : skipBlank s with
  | [] => .error (.unfinished .object)
  | b :: r =>
    have hr : r.length < s.length := length_lt_of_skipBlank h
    if b = closeBrace then .ok ⟨(), r, hr⟩
    else if b = comma then do
      let x ← skipMember r
      have : x.rest.length < s.length := Nat.lt_trans x.shorter hr
      let t ← skipMembers x.rest
      .ok (t.within (Nat.le_of_lt this))
    else .error (.malformed .expectedCommaOrBrace)
termination_by (s.length, 2)

end

end ApplianceRest.Json.Reader
