/-!
# Lexical paths

Paths as texts: elements between slashes, cleaning, and joining. Nothing here looks at a file or at
an appliance; `..` takes back the element written before it.

* `Path.clean` brings a path into its normal form.
* `Path.join` joins the non-empty ones of some fragments with slashes and cleans the result.
-/

namespace ApplianceRest.Path

/-- The element that stands for the place itself. -/
def here : List Char := ['.']

/-- The element that takes back the one before it. -/
def parent : List Char := ['.', '.']

/-- The texts between the slashes of a path. -/
def elements (path : List Char) : List (List Char) := path.splitOn '/'

/-- Whether a path starts at the root. -/
def isRooted (path : List Char) : Bool := path.head? == some '/'

/-- Appends one element to a cleaned path, given as its elements in reverse. An empty element and
`.` add nothing; `..` takes back the last element unless that is a `..` itself, and where nothing is
left to take back it is kept, except at the root, which has no parent. -/
def push (rooted : Bool) (done : List (List Char)) (element : List Char) : List (List Char) :=
  if element = [] ∨ element = here then done
  else if element = parent then
    match done with
    | last :: before =>
      if last = parent then (if rooted then done else parent :: done) else before
    | [] => if rooted then [] else [parent]
  else element :: done

/-- The elements of a cleaned path. -/
def cleanElements (path : List Char) : List (List Char) :=
  ((elements path).foldl (push (isRooted path)) []).reverse

/-- The normal form of a path, on characters. -/
def cleanChars (path : List Char) : List Char :=
  if path = [] then here
  else
    let joined := List.intercalate ['/'] (cleanElements path)
    if isRooted path then '/' :: joined
    else if joined = [] then here
    else joined

/-- The normal form of a path: single slashes, none at the end, no `.`, and `..` only at the start
of a path without a root. A path without any element is `/` or `.`. -/
def clean (path : String) : String := .ofList (cleanChars path.toList)

/-- Fragments joined with slashes and cleaned, on characters. -/
def joinChars (fragments : List (List Char)) : List Char :=
  let parts := fragments.filter (· ≠ [])
  if parts = [] then [] else cleanChars (List.intercalate ['/'] parts)

/-- The non-empty ones of the fragments, joined with slashes and cleaned; the empty text if there
are none. -/
def join (fragments : List String) : String :=
  .ofList (joinChars (fragments.map String.toList))

theorem toList_clean (path : String) : (clean path).toList = cleanChars path.toList := by
  simp [clean]

theorem toList_join (fragments : List String) :
    (join fragments).toList = joinChars (fragments.map String.toList) := by
  simp [join]

end ApplianceRest.Path
