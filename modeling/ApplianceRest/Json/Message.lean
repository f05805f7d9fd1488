import ApplianceRest.Decimal.Shortest
import ApplianceRest.Json.Basic
import ApplianceRest.Text.Quoted

/-!
# Wording of reading errors
-/

namespace ApplianceRest.Json

/-- The text of a number. -/
def Number.chars : Number → List Char
  | .whole n => (if n < 0 then ['-'] else []) ++ Nat.toDigits 10 n.natAbs
  | .binary x => x.text

/-- What was being read where the text ended. -/
def Unfinished.message : Unfinished → String
  | .value => "EOF while parsing a value"
  | .object => "EOF while parsing an object"
  | .list => "EOF while parsing a list"
  | .string => "EOF while parsing a string"

/-- What the grammar asks for. -/
def Malformed.message : Malformed → String
  | .expectedValue => "expected value"
  | .expectedIdent => "expected ident"
  | .expectedColon => "expected `:`"
  | .expectedCommaOrBrace => "expected `,` or `\x7d`"
  | .expectedCommaOrBracket => "expected `,` or `]`"
  | .keyNotString => "key must be a string"
  | .trailingComma => "trailing comma"
  | .trailingCharacters => "trailing characters"
  | .invalidNumber => "invalid number"
  | .numberOutOfRange => "number out of range"
  | .invalidEscape => "invalid escape"
  | .invalidCodePoint => "invalid unicode code point"
  | .loneSurrogate => "lone leading surrogate in hex escape"
  | .unpairedSurrogate => "unexpected end of hex escape"
  | .controlCharacter => "control character (\\u0000-\\u001F) found while parsing a string"
  | .tooDeep => "recursion limit exceeded"

/-- How a value is spoken of. -/
def Found.message : Found → String
  | .null => "null"
  | .boolean b => "boolean `" ++ (if b then "true" else "false") ++ "`"
  | .number (.whole n) => "integer `" ++ String.ofList (Number.whole n).chars ++ "`"
  | .number (.binary x) => "floating point `" ++ String.ofList x.text ++ "`"
  | .text s => "string " ++ Text.quoted s
  | .sequence => "sequence"
  | .mapping => "map"

/-- How a value misses its type. -/
def Mismatch.message : Mismatch → String
  | .missingField name => "missing field `" ++ name ++ "`"
  | .duplicateField name => "duplicate field `" ++ name ++ "`"
  | .wrongType found expected => "invalid type: " ++ found.message ++ ", expected " ++ expected
  | .outOfRange n expected =>
    "invalid value: " ++ (Found.number (.whole n)).message ++ ", expected " ++ expected
  | .tooShort length record size =>
    "invalid length " ++ toString length ++ ", expected struct " ++ record ++ " with " ++
      toString size ++ (if size = 1 then " element" else " elements")

/-- The wording of a reading error, without the place where it was found. -/
def Error.message : Error → String
  | .unfinished what => what.message
  | .malformed how => how.message
  | .mismatched how => how.message

end ApplianceRest.Json
