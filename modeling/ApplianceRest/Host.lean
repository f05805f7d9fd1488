import ApplianceRest.Text.Blank

/-!
# The address of an appliance

A host address is `scheme://host`, perhaps with a port and a path behind it. It has neither query
nor fragment. `HostUrl.ofString?` reads one and keeps its parts, which together are the text.
-/

namespace ApplianceRest

/-- The four parts of a host address, which follow each other in its text; the port comes with its
colon and the path with its first slash, and either may be empty. -/
structure HostUrl.Parts where
  scheme : List Char
  host : List Char
  port : List Char
  path : List Char
deriving DecidableEq, Repr

namespace HostUrl

/-- What stands between scheme and host. -/
def separator : List Char := [':', '/', '/']

/-- Whether a text equals a lower-case word up to the case of ASCII letters. -/
def equalsIgnoringCase (text word : List Char) : Bool := text.map Char.toLower == word

/-- A host is either a text in brackets, as for a numeric address with colons, or a non-empty text
without colons and slashes. -/
def isHost (host : List Char) : Bool :=
  match host with
  | [] => false
  | '[' :: inner => inner.getLast? == some ']' && !inner.dropLast.contains ']'
  | _ => !host.contains ':' && !host.contains '/'

/-- A port is nothing, or a colon and at least one digit. -/
def isPort (port : List Char) : Bool :=
  match port with
  | [] => true
  | c :: digits => c == ':' && !digits.isEmpty && digits.all Char.isDigit

/-- A path is nothing, or starts with a slash. -/
def isPath (path : List Char) : Bool :=
  match path with
  | [] => true
  | c :: _ => c == '/'

namespace Parts

/-- The text of which these are the parts. -/
def text (p : Parts) : List Char := p.scheme ++ separator ++ p.host ++ p.port ++ p.path

/-- Whether the parts are those of a host address. -/
def isValid (p : Parts) : Bool :=
  (equalsIgnoringCase p.scheme ['h', 't', 't', 'p'] ||
    equalsIgnoringCase p.scheme ['h', 't', 't', 'p', 's']) &&
  isHost p.host && isPort p.port && isPath p.path &&
  !p.text.contains '?' && !p.text.contains '#'

end Parts

/-- Cuts a text at the first separator. -/
def cutScheme? : List Char → Option (List Char × List Char)
  | [] => none
  | c :: rest =>
    if separator.isPrefixOf (c :: rest) then some ([], (c :: rest).drop separator.length)
    else (cutScheme? rest).map fun (scheme, remainder) => (c :: scheme, remainder)

/-- Cuts the host from the front of a text: up to and with the first closing bracket if it starts
with an opening one, else up to the first colon or slash. -/
def cutHost (text : List Char) : List Char × List Char :=
  if text.head? = some '[' then
    let inner := text.takeWhile (· ≠ ']')
    (inner ++ (text.drop inner.length).take 1, text.drop (inner.length + 1))
  else
    (text.takeWhile fun c => c ≠ ':' && c ≠ '/', text.dropWhile fun c => c ≠ ':' && c ≠ '/')

/-- The parts of a text, if it has a separator; they need not be those of a host address. -/
def split? (text : List Char) : Option Parts := do
  let (scheme, remainder) ← cutScheme? text
  let (host, behind) := cutHost remainder
  return ⟨scheme, host, behind.takeWhile (· ≠ '/'), behind.dropWhile (· ≠ '/')⟩

end HostUrl

/-- The address of an appliance. -/
structure HostUrl where
  parts : HostUrl.Parts
  isValid : parts.isValid = true

namespace HostUrl

instance : DecidableEq HostUrl := fun a b =>
  decidable_of_iff (a.parts = b.parts) (by cases a; cases b; simp)

/-- The host address that a text is, without white space around it. -/
def ofString? (text : String) : Option HostUrl :=
  match split? (Text.trim text.toList) with
  | some parts => if h : parts.isValid then some ⟨parts, h⟩ else none
  | none => none

/-- The address as a text. -/
def text (h : HostUrl) : String := .ofList h.parts.text

/-- The scheme as it was written. -/
def scheme (h : HostUrl) : String := .ofList h.parts.scheme

/-- The name or number of the host. -/
def hostName (h : HostUrl) : String := .ofList h.parts.host

/-- The address without its path. -/
def origin (h : HostUrl) : String :=
  .ofList (h.parts.scheme ++ separator ++ h.parts.host ++ h.parts.port)

/-- The path of the address. -/
def path (h : HostUrl) : String := .ofList h.parts.path

end HostUrl

end ApplianceRest
