import ApplianceRest.Json.Reader

/-!
# Atoms of an expected type

Texts, truth values and machine words, each read where nothing else is expected. What stands there
instead is named in the error; it is read far enough to be named, so something malformed in it is
reported first.
-/

namespace ApplianceRest.Json

/-- The whole numbers of a machine word. -/
inductive Word where
  /-- signed, 64 bits -/
  | i64
  /-- unsigned, 32 bits -/
  | u32
  /-- unsigned, 64 bits -/
  | u64
deriving DecidableEq, Repr

namespace Word

/-- The numbers themselves. -/
@[reducible] def Value : Word → Type
  | .i64 => Int64
  | .u32 => UInt32
  | .u64 => UInt64

/-- The name under which errors speak of the word. -/
def label : Word → String
  | .i64 => "i64"
  | .u32 => "u32"
  | .u64 => "u64"

/-- The word for a whole number in its range. -/
def ofInt? : (w : Word) → Int → Option w.Value
  | .i64, n =>
    if Int64.minValue.toInt ≤ n ∧ n ≤ Int64.maxValue.toInt then some (Int64.ofInt n) else none
  | .u32, n => if 0 ≤ n ∧ n < UInt32.size then some (UInt32.ofNat n.toNat) else none
  | .u64, n => if 0 ≤ n ∧ n < UInt64.size then some (UInt64.ofNat n.toNat) else none

/-- The whole number that a word holds. -/
def toInt : (w : Word) → w.Value → Int
  | .i64, x => Int64.toInt x
  | .u32, x => Int.ofNat (UInt32.toNat x)
  | .u64, x => Int.ofNat (UInt64.toNat x)

/-- The word that holds zero. -/
def zero : (w : Word) → w.Value
  | .i64 => 0
  | .u32 => 0
  | .u64 => 0

end Word

namespace Reader

/-- Why the value at the front of a text is not the expected one. -/
def refusal (expected : String) (s : Bytes) : Error :=
  let wrong (found : Found) : Error := .mismatched (.wrongType found expected)
  let named {α : Type} (read : Except Error α) (found : α → Found) : Error :=
    match read with
    | .ok x => wrong (found x)
    | .error e => e
  match s with
  | [] => .unfinished .value
  | b :: r =>
    if b = 0x6E then named (word ullWord r) fun _ => .null
    else if b = 0x74 then named (word rueWord r) fun _ => .boolean true
    else if b = 0x66 then named (word alseWord r) fun _ => .boolean false
    else if startsNumber b then named (number (b :: r)) fun n => .number n.value
    else if b = quote then named (string r) fun t => .text t.value
    else if b = openBracket then wrong .sequence
    else if b = openBrace then wrong .mapping
    else .malformed .expectedValue

/-- A text. -/
def textValue : Reader String := fromToken fun s =>
  match s with
  | b :: r =>
    if b = quote then (string r).map (·.behind b)
    else .error (refusal "a string" (b :: r))
  | [] => .error (refusal "a string" [])

/-- A truth value. -/
def flagValue : Reader Bool := fromToken fun s =>
  match s with
  | b :: r =>
    if b = 0x74 then constant true b rueWord r
    else if b = 0x66 then constant false b alseWord r
    else .error (refusal "a boolean" (b :: r))
  | [] => .error (refusal "a boolean" [])

/-- A machine word: a whole number in its range. -/
def wordValue (w : Word) : Reader w.Value := fromToken fun s =>
  match s with
  | b :: r =>
    if startsNumber b then do
      let n ← number (b :: r)
      match n.value with
      | .whole i =>
        match w.ofInt? i with
        | some x => .ok (n.map fun _ => x)
        | none => .error (.mismatched (.outOfRange i w.label))
      | .binary x => .error (.mismatched (.wrongType (.number (.binary x)) w.label))
    else .error (refusal w.label (b :: r))
  | [] => .error (refusal w.label [])

/-- A value, or `null` for none. -/
def optionalValue {α : Type} (read : Reader α) : Reader (Option α) := fromToken fun s =>
  match s with
  | b :: r =>
    if b = 0x6E then constant none b ullWord r
    else (read (b :: r)).map (·.map some)
  | [] => (read []).map (·.map some)

/-- A list. -/
def listValue {α : Type} (read : Reader α) : Reader (List α) := fromToken fun s =>
  match s with
  | b :: r =>
    if b = openBracket then (items read true r).map (·.behind b)
    else .error (refusal "a sequence" (b :: r))
  | [] => .error (refusal "a sequence" [])

end Reader

end ApplianceRest.Json
