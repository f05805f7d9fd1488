import ApplianceRest.Json.Message

/-!
# Writing documents

The compact text of a document: no blanks, members in the order in which the document keeps them,
and only what may not stand in a string escaped.
-/

namespace ApplianceRest.Json

/-- The hexadecimal digit of a number below 16, in lower case. -/
def hexDigit (n : Nat) : Char :=
  if n < 10 then Char.ofNat (48 + n) else Char.ofNat (87 + n)

/-- One character of a string: a short escape where there is one, its number if it is a control
character, else itself. -/
def escapedChar (c : Char) : List Char :=
  if c = '"' then ['\\', '"']
  else if c = '\\' then ['\\', '\\']
  else if c = '\x08' then ['\\', 'b']
  else if c = '\x0c' then ['\\', 'f']
  else if c = '\n' then ['\\', 'n']
  else if c = '\r' then ['\\', 'r']
  else if c = '\t' then ['\\', 't']
  else if c.toNat < 0x20 then
    ['\\', 'u', '0', '0', hexDigit (c.toNat / 16), hexDigit (c.toNat % 16)]
  else [c]

/-- A string between its quotes. -/
def stringChars (s : String) : List Char := '"' :: s.toList.flatMap escapedChar ++ ['"']

mutual

/-- The text of a document. -/
def chars : Json → List Char
  | .null => ['n', 'u', 'l', 'l']
  | .boolean true => ['t', 'r', 'u', 'e']
  | .boolean false => ['f', 'a', 'l', 's', 'e']
  | .number n => n.chars
  | .text s => stringChars s
  | .array [] => ['[', ']']
  | .array (item :: rest) => '[' :: chars item ++ restChars rest
  | .object [] => ['\x7b', '\x7d']
  | .object ((key, value) :: rest) =>
    '\x7b' :: stringChars key ++ ':' :: chars value ++ restMemberChars rest

/-- The items of a list behind the first one, and its closing bracket. -/
def restChars : List Json → List Char
  | [] => [']']
  | item :: rest => ',' :: chars item ++ restChars rest

/-- The members of an object behind the first one, and its closing brace. -/
def restMemberChars : List (String × Json) → List Char
  | [] => ['\x7d']
  | (key, value) :: rest => ',' :: stringChars key ++ ':' :: chars value ++ restMemberChars rest

end

/-- The compact text of a document. -/
def compact (j : Json) : String := .ofList j.chars

/-- The compact text as it is sent. -/
def toBytes (j : Json) : Bytes := j.chars.flatMap String.utf8EncodeChar

end ApplianceRest.Json
