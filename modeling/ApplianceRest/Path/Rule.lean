import ApplianceRest.Path.Lexical

/-!
# Rules for the names in a path

A name that becomes one segment of an address must not change which address it is. What a name
breaks is listed as `Violation`s, in the order in which the rules are checked.
-/

namespace ApplianceRest.Path

/-- A rule that a name breaks. -/
inductive Violation where
  /-- the name is one of the reserved ones -/
  | reserved (name : String)
  /-- the name holds a character that it may not -/
  | forbidden (c : Char)
  /-- there is no name at all -/
  | empty
  /-- a rule that somebody else checked, in their words -/
  | stated (text : String)
deriving DecidableEq, Repr

/-- The wording of a broken rule. -/
def Violation.message : Violation → String
  | .reserved name => "may not be '" ++ name ++ "'"
  | .forbidden c => "may not contain '" ++ c.toString ++ "'"
  | .empty => "may not be empty"
  | .stated text => text

/-- The names that stand for a place and not for a thing. -/
def reservedNames : List String := [".", ".."]

/-- The characters that would end a segment or start an escape. -/
def forbiddenChars : List Char := ['/', '%']

/-- What a name breaks that is only the start of a segment. -/
def prefixViolations (name : String) : List Violation :=
  (forbiddenChars.filter (name.toList.contains ·)).map .forbidden

/-- What a name breaks that is a whole segment: a reserved name is reported as such and alone. -/
def nameViolations (name : String) : List Violation :=
  match reservedNames.find? (· == name) with
  | some reserved => [.reserved reserved]
  | none => prefixViolations name

/-- What a name breaks, as the start of a segment or as a whole one. -/
def violations (name : String) (isStart : Bool) : List Violation :=
  if isStart then prefixViolations name else nameViolations name

/-- Whether a name may stand in an address as one segment. -/
def isSegment (name : String) : Bool := name ≠ "" && (nameViolations name).isEmpty

/-- Drops each item that equals the one before it. -/
def dropRepeats {α : Type} [DecidableEq α] : List α → List α
  | [] => []
  | [x] => [x]
  | x :: y :: rest => if x = y then dropRepeats (y :: rest) else x :: dropRepeats (y :: rest)

/-! ## Full paths

An object is named by its full path, such as `/Common/web`. In an address the full path is a single
segment, so its slashes are written as tildes there, and a tilde of its own could not be told from
those. -/

/-- The character that stands for a slash inside a segment. -/
def tilde : Char := '~'

/-- What a part of a full path breaks: first the reserved names among its elements, a run of equal
ones reported once, then a tilde. -/
def fullPathViolations (part : String) : List Violation :=
  let found := (elements part.toList).filterMap fun e =>
    (reservedNames.find? (·.toList == e)).map Violation.reserved
  dropRepeats found ++ if part.toList.contains tilde then [.forbidden tilde] else []

/-- Writes slashes as tildes. -/
def slashToTilde (c : Char) : Char := if c = '/' then tilde else c

/-- Writes tildes as slashes. -/
def tildeToSlash (c : Char) : Char := if c = tilde then '/' else c

/-- The segment that stands for a full path given in parts: the joined path with tildes for
slashes. -/
def encodeFullPath (parts : List String) : String :=
  .ofList ((join parts).toList.map slashToTilde)

/-- The full path that a segment stands for. -/
def decodeFullPath (segment : String) : String :=
  .ofList (segment.toList.map tildeToSlash)

end ApplianceRest.Path
