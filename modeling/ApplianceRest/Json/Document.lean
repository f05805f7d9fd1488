import ApplianceRest.Dict
import ApplianceRest.Json.Atom

/-!
# Documents of any type

Reading a text without expecting anything of it but its form. Members come out in key order, and of
members under one key the last one counts.
-/

namespace ApplianceRest.Json

namespace Reader

/-- Reads one member into a dictionary. -/
def entry {α : Type} (read : Reader α) (key : String) (known : Dict α) : Reader (Dict α) := fun s =>
  (memberValue read s).map (·.map (known.insert key))

/-- A value of any type. Its items and members are read by `nested`; without that, it may not be a
list or an object. -/
def value (nested : Option (Reader Json)) : Reader Json := fromToken fun s =>
  match s with
  | [] => .error (.unfinished .value)
  | b :: r =>
    if b = 0x6E then constant .null b ullWord r
    else if b = 0x74 then constant (.boolean true) b rueWord r
    else if b = 0x66 then constant (.boolean false) b alseWord r
    else if startsNumber b then (number (b :: r)).map (·.map .number)
    else if b = quote then (string r).map fun t => (t.map Json.text).behind b
    else if b = openBracket then
      match nested with
      | none => .error (.malformed .tooDeep)
      | some read => (items read true r).map fun t => (t.map Json.array).behind b
    else if b = openBrace then
      match nested with
      | none => .error (.malformed .tooDeep)
      | some read => (members (entry read) true .empty r).map fun t =>
          (t.map fun d => Json.object d.entries).behind b
    else .error (.malformed .expectedValue)

/-- A value of any type in which lists and objects nest at most `depth` deep. -/
def document : (depth : Nat) → Reader Json
  | 0 => value none
  | depth + 1 => value (some (document depth))

end Reader

/-- The document that a text denotes. -/
def ofBytes (s : Bytes) : Except Error Json := Reader.whole (Reader.document greatestDepth) s

end ApplianceRest.Json
