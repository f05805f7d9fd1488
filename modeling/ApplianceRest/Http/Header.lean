/-!
# Header fields

Names and values of header fields, and the fields of a request or an answer. A name is a token and
compares without regard to case; under one name there may be several values, in order.

* `Headers.values` is how fields are looked at.
* `Headers.values_setAll_self` and `Headers.values_setAll_of_ne`: putting values under a name is seen
  under that name only.
-/

namespace ApplianceRest.Http

/-- Whether a character may stand in a field name: an ASCII letter or digit, or one of some marks,
among which the double quote is taken too. -/
def isNameChar (c : Char) : Bool :=
  c.isAlphanum || ['!', '"', '#', '$', '%', '&', '\x27', '*', '+', '-', '.', '^', '_', '\x60', '|',
    '~'].contains c

/-- The greatest length of a field name. -/
def greatestNameLength : Nat := 65535

/-- The name of a header field, in lower case. -/
structure FieldName where
  text : String
  isToken : (text.toList ≠ [] ∧ text.toList.all isNameChar = true) ∧
    text.toList.map Char.toLower = text.toList
deriving DecidableEq

/-- The field name that a text is, whatever its case. -/
def FieldName.ofString? (text : String) : Option FieldName :=
  let lower := String.ofList (text.toList.map Char.toLower)
  if text.toList.length ≤ greatestNameLength then
    if h : (lower.toList ≠ [] ∧ lower.toList.all isNameChar = true) ∧
        lower.toList.map Char.toLower = lower.toList then some ⟨lower, h⟩ else none
  else none

namespace FieldName

/-- A field name is known by its text. -/
theorem text_inj {name other : FieldName} : name.text = other.text ↔ name = other := by
  constructor
  · intro h
    cases name
    cases other
    cases h
    rfl
  · rintro rfl
    rfl

/-- The field `Accept`: what a client can read. -/
def accept : FieldName := ⟨"accept", by decide⟩
/-- The field `Authorization`: who the client is. -/
def authorization : FieldName := ⟨"authorization", by decide⟩
/-- The field `Content-Type`: what a body is. -/
def contentType : FieldName := ⟨"content-type", by decide⟩
/-- The field `User-Agent`: what the client is. -/
def userAgent : FieldName := ⟨"user-agent", by decide⟩
/-- The field `X-F5-Auth-Token`: the token of a session. -/
def authToken : FieldName := ⟨"x-f5-auth-token", by decide⟩

end FieldName

/-- Whether a byte may stand in a field value: tab, and all from the space on except delete. -/
def isValueByte (b : UInt8) : Bool := b == 0x09 || (0x20 ≤ b && b != 0x7F)

/-- The value of a header field. A sensitive one is not to be shown. -/
structure FieldValue where
  bytes : List UInt8
  sensitive : Bool
  isValid : bytes.all isValueByte = true
deriving DecidableEq

namespace FieldValue

/-- The value that some bytes are. -/
def ofBytes? (bytes : List UInt8) : Option FieldValue :=
  if h : bytes.all isValueByte = true then some ⟨bytes, false, h⟩ else none

/-- The value that a text is. -/
def ofString? (text : String) : Option FieldValue :=
  ofBytes? (text.toList.flatMap String.utf8EncodeChar)

/-- The type of a document as a body. -/
def document : FieldValue where
  bytes := "application/json".toList.flatMap String.utf8EncodeChar
  sensitive := false
  isValid := by decide

/-- The same value, not to be shown. -/
def asSensitive (v : FieldValue) : FieldValue := { v with sensitive := true }

/-- The value as a text, if it holds only printable ASCII characters and tabs. -/
def ascii? (v : FieldValue) : Option String :=
  if v.bytes.all fun b => b == 0x09 || (0x20 ≤ b && b < 0x7F) then
    some (.ofList (v.bytes.map fun b => Char.ofNat b.toNat))
  else none

end FieldValue

/-- The fields of a message, in the order in which they were added. -/
structure Headers where
  fields : List (FieldName × FieldValue)
deriving DecidableEq

namespace Headers

/-- No fields. -/
def empty : Headers := ⟨[]⟩

instance : Inhabited Headers := ⟨empty⟩

/-- The values under a name, in order. -/
def values (h : Headers) (name : FieldName) : List FieldValue :=
  h.fields.filterMap fun (n, v) => if n = name then some v else none

/-- Whether there is a field with a name. -/
def contains (h : Headers) (name : FieldName) : Bool := h.fields.any (·.1 = name)

/-- The distinct names, in the order in which they first appear. -/
def names (h : Headers) : List FieldName := (h.fields.map (·.1)).eraseDups

/-- Takes away the fields with a name. -/
def erase (h : Headers) (name : FieldName) : Headers := ⟨h.fields.filter (·.1 ≠ name)⟩

/-- Adds a field behind the ones that are there. -/
def add (h : Headers) (name : FieldName) (value : FieldValue) : Headers :=
  ⟨h.fields ++ [(name, value)]⟩

/-- Puts values under a name, in place of the ones that are there. -/
def setAll (h : Headers) (name : FieldName) (values : List FieldValue) : Headers :=
  ⟨(h.erase name).fields ++ values.map (name, ·)⟩

/-- Puts a single value under a name. -/
def set (h : Headers) (name : FieldName) (value : FieldValue) : Headers := h.setAll name [value]

/-! Only the values under its own name are touched by an operation. -/

@[simp] theorem values_empty (name : FieldName) : empty.values name = [] := rfl

theorem values_append (l₁ l₂ : List (FieldName × FieldValue)) (name : FieldName) :
    (Headers.mk (l₁ ++ l₂)).values name =
      (Headers.mk l₁).values name ++ (Headers.mk l₂).values name := by
  simp [values, List.filterMap_append]

theorem values_erase_self (h : Headers) (name : FieldName) : (h.erase name).values name = [] := by
  simp only [values, erase, List.filterMap_eq_nil_iff, List.mem_filter]
  rintro ⟨n, v⟩ ⟨_, hn⟩
  simpa using hn

theorem values_erase_of_ne (h : Headers) {name other : FieldName} (hne : other ≠ name) :
    (h.erase name).values other = h.values other := by
  simp only [values, erase, List.filterMap_filter]
  congr 1
  funext ⟨n, v⟩
  by_cases hn : n = name
  · simp [hn, Ne.symm hne]
  · simp [hn]

theorem values_under_self (name : FieldName) (vs : List FieldValue) :
    (Headers.mk (vs.map (name, ·))).values name = vs := by
  induction vs with
  | nil => rfl
  | cons v rest ih =>
    simp only [values, List.map_cons, List.filterMap_cons, ↓reduceIte] at ih ⊢
    rw [ih]

theorem values_under_of_ne {name other : FieldName} (hne : other ≠ name) (vs : List FieldValue) :
    (Headers.mk (vs.map (name, ·))).values other = [] := by
  induction vs with
  | nil => rfl
  | cons v rest ih =>
    simp only [values, List.map_cons, List.filterMap_cons, Ne.symm hne, ↓reduceIte] at ih ⊢
    exact ih

@[simp] theorem values_setAll_self (h : Headers) (name : FieldName) (vs : List FieldValue) :
    (h.setAll name vs).values name = vs := by
  rw [setAll, values_append, values_under_self]
  show (h.erase name).values name ++ vs = vs
  rw [values_erase_self, List.nil_append]

theorem values_setAll_of_ne (h : Headers) {name other : FieldName} (hne : other ≠ name)
    (vs : List FieldValue) : (h.setAll name vs).values other = h.values other := by
  rw [setAll, values_append, values_under_of_ne hne, List.append_nil]
  exact values_erase_of_ne h hne

/-- There are values under a name exactly if there is a field with it. -/
theorem values_eq_nil_iff (h : Headers) (name : FieldName) :
    h.values name = [] ↔ h.contains name = false := by
  rw [values, List.filterMap_eq_nil_iff, contains, List.any_eq_false]
  constructor
  · rintro hnone ⟨n, v⟩ hfield hname
    obtain rfl : n = name := by simpa using hname
    simpa using hnone (n, v) hfield
  · rintro hno ⟨n, v⟩ hfield
    exact if_neg (by simpa using hno (n, v) hfield)

/-- The names under which a value is sensitive. -/
def sensitiveNames (h : Headers) : List FieldName :=
  h.names.filter fun n => (h.values n).any (·.sensitive)

end Headers

end ApplianceRest.Http
