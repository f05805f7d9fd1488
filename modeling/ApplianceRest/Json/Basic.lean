import ApplianceRest.Decimal.Binary64

/-!
# Documents

The values that JSON texts denote, and what can be wrong with a text.
-/

namespace ApplianceRest

/-- A number in a document: a whole number that a machine word holds, or a binary one. -/
inductive Json.Number where
  | whole (n : Int)
  | binary (x : Decimal.Binary64)
deriving DecidableEq, Repr

/-- A document. An object keeps its members in the order in which they are written. -/
inductive Json where
  | null
  | boolean (b : Bool)
  | number (n : Json.Number)
  | text (s : String)
  | array (items : List Json)
  | object (members : List (String × Json))
deriving Inhabited

namespace Json

/-- Texts are read as bytes, since they come from outside and need not be texts at all. -/
abbrev Bytes := List UInt8

/-- What was being read where a text ends too early. -/
inductive Unfinished where
  | value
  | object
  | list
  | string
deriving DecidableEq, Repr

/-- What breaks the grammar of documents. -/
inductive Malformed where
  | expectedValue
  | expectedIdent
  | expectedColon
  | expectedCommaOrBrace
  | expectedCommaOrBracket
  | keyNotString
  | trailingComma
  | trailingCharacters
  | invalidNumber
  | numberOutOfRange
  | invalidEscape
  | invalidCodePoint
  | loneSurrogate
  | unpairedSurrogate
  | controlCharacter
  | tooDeep
deriving DecidableEq, Repr

/-- A value found where one of another type was expected. -/
inductive Found where
  | null
  | boolean (b : Bool)
  | number (n : Number)
  | text (s : String)
  | sequence
  | mapping
deriving DecidableEq, Repr

/-- How a well-formed value misses the type it is read into. -/
inductive Mismatch where
  | missingField (name : String)
  | duplicateField (name : String)
  | wrongType (found : Found) (expected : String)
  | outOfRange (n : Int) (expected : String)
  | tooShort (length : Nat) (record : String) (size : Nat)
deriving DecidableEq, Repr

/-- Why a text cannot be read. -/
inductive Error where
  /-- the text ends too early -/
  | unfinished (what : Unfinished)
  /-- the text is no document -/
  | malformed (how : Malformed)
  /-- the document is none of the expected type -/
  | mismatched (how : Mismatch)
deriving DecidableEq, Repr

/-- A place inside nested lists and objects: how many of them may still be opened. Documents of
any type are read down to the 127th. -/
def greatestDepth : Nat := 127

end Json

end ApplianceRest
