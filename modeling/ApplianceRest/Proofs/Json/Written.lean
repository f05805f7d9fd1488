import ApplianceRest.Proofs.Json.Passing

/-!
# Documents as they are written

A JSON text is written with blanks between its tokens, with its members in some order, and with
numbers and strings in one of many spellings. `Written` is the grammar of such texts, as data: what
can be built is well formed, `Written.bytes` is the text, and `Written.token` is the text from its
first token to its last. Nothing here asks what a text denotes.
-/

namespace ApplianceRest.Json

open Reader (isBlank isDigit hexValue? escapedByte? IsPlainByte quote backslash comma colon minus
  openBracket closeBracket openBrace closeBrace skipBlank startsNumber ullWord rueWord alseWord)

/-! ## The grammar -/

/-- What may stand between two tokens. -/
structure Blanks where
  bytes : Bytes
  areBlank : ∀ b ∈ bytes, isBlank b = true

/-- Some decimal digits, at least one. -/
structure Digits where
  bytes : Bytes
  ne_nil : bytes ≠ []
  areDigits : ∀ b ∈ bytes, isDigit b = true

/-- The exponent of a number: a letter, perhaps a sign, and digits. -/
structure Exponent where
  letter : UInt8
  isLetter : letter = 0x65 ∨ letter = 0x45
  sign : Option UInt8
  isSign : ∀ b ∈ sign, b = 0x2B ∨ b = minus
  digits : Digits

/-- A number: perhaps a sign, digits without a leading zero, and perhaps a fraction and an
exponent. -/
structure Numeral where
  isNegative : Bool
  whole : Digits
  noLeadingZero : ¬(whole.bytes.head? = some 0x30 ∧ whole.bytes.length ≠ 1)
  fraction : Option Digits
  exponent : Option Exponent

/-- What stands for one character between the quotes of a string, or for half of one. -/
inductive QuotedUnit where
  | plain (b : UInt8) (isPlain : IsPlainByte b)
  | letter (b : UInt8) (isLetter : (escapedByte? b).isSome = true)
  | number (a b c d : UInt8) (areHex : ∀ x ∈ [a, b, c, d], (hexValue? x).isSome = true)

/-- What stands between the quotes of a string. -/
abbrev Quoted := List QuotedUnit

/-- A value that is one token. -/
inductive Atom where
  | null
  | boolean (b : Bool)
  | number (n : Numeral)
  | string (body : Quoted)

/-- The key of a member, with the blanks around it. -/
structure Key where
  before : Blanks
  body : Quoted
  behind : Blanks

/-- A value as it is written, with the blanks around it, and those that stand inside a list or an
object where it is empty. -/
inductive Written where
  | atom (before : Blanks) (atom : Atom) (behind : Blanks)
  | list (before : Blanks) (items : List Written) (inner behind : Blanks)
  | object (before : Blanks) (members : List (Key × Written)) (inner behind : Blanks)

/-! ## Texts -/

/-- The text of an exponent. -/
def Exponent.bytes (e : Exponent) : Bytes := e.letter :: (e.sign.toList ++ e.digits.bytes)

/-- The text of the fraction of a number. -/
def Numeral.fractionBytes (n : Numeral) : Bytes :=
  match n.fraction with
  | some digits => 0x2E :: digits.bytes
  | none => []

/-- The text of the exponent of a number. -/
def Numeral.exponentBytes (n : Numeral) : Bytes :=
  match n.exponent with
  | some e => e.bytes
  | none => []

/-- The text of a number without its sign. -/
def Numeral.unsignedBytes (n : Numeral) : Bytes :=
  n.whole.bytes ++ (n.fractionBytes ++ n.exponentBytes)

/-- The text of a number, with a minus in front if it is negative. -/
def Numeral.bytes (n : Numeral) : Bytes :=
  if n.isNegative then minus :: n.unsignedBytes else n.unsignedBytes

/-- The text of a part of a string. -/
def QuotedUnit.bytes : QuotedUnit → Bytes
  | .plain b _ => [b]
  | .letter b _ => [backslash, b]
  | .number a b c d _ => [backslash, 0x75, a, b, c, d]

/-- The text between the quotes of a string. -/
def Quoted.bytes (body : Quoted) : Bytes := body.flatMap QuotedUnit.bytes

/-- The text of a value that is one token. -/
def Atom.bytes : Atom → Bytes
  | .null => 0x6E :: ullWord
  | .boolean true => 0x74 :: rueWord
  | .boolean false => 0x66 :: alseWord
  | .number n => n.bytes
  | .string body => quote :: (body.bytes ++ [quote])

/-- The text of a key up to the colon behind it. -/
def Key.bytes (k : Key) : Bytes :=
  k.before.bytes ++ (quote :: (k.body.bytes ++ (quote :: k.behind.bytes)))

namespace Written

/-- The blanks before a value. -/
def before : Written → Blanks
  | .atom before _ _ => before
  | .list before _ _ _ => before
  | .object before _ _ _ => before

/-- The blanks behind a value. -/
def behind : Written → Blanks
  | .atom _ _ behind => behind
  | .list _ _ _ behind => behind
  | .object _ _ _ behind => behind

mutual

/-- The text of a value without the blanks around it. -/
def token : Written → Bytes
  | .atom _ a _ => a.bytes
  | .list _ [] inner _ => openBracket :: (inner.bytes ++ [closeBracket])
  | .list _ (w :: ws) _ _ =>
    openBracket :: (w.before.bytes ++ (token w ++ (w.behind.bytes ++ restItems ws)))
  | .object _ [] inner _ => openBrace :: (inner.bytes ++ [closeBrace])
  | .object _ ((k, w) :: ms) _ _ =>
    openBrace :: (k.bytes ++ (colon ::
      (w.before.bytes ++ (token w ++ (w.behind.bytes ++ restMembers ms)))))

/-- The text of the items of a list behind the first one, up to the closing bracket. -/
def restItems : List Written → Bytes
  | [] => [closeBracket]
  | w :: ws => comma :: (w.before.bytes ++ (token w ++ (w.behind.bytes ++ restItems ws)))

/-- The text of the members of an object behind the first one, up to the closing brace. -/
def restMembers : List (Key × Written) → Bytes
  | [] => [closeBrace]
  | (k, w) :: ms => comma :: (k.bytes ++ (colon ::
      (w.before.bytes ++ (token w ++ (w.behind.bytes ++ restMembers ms)))))

end

/-- The text of a value with the blanks around it. -/
def bytes (w : Written) : Bytes := w.before.bytes ++ (w.token ++ w.behind.bytes)

/-- The value, if it is one token. -/
def atom? : Written → Option Atom
  | .atom _ a _ => some a
  | _ => none

/-- The items, if the value is a list. -/
def items? : Written → Option (List Written)
  | .list _ ws _ _ => some ws
  | _ => none

/-- The members, if the value is an object. -/
def members? : Written → Option (List (Key × Written))
  | .object _ ms _ _ => some ms
  | _ => none

/-! The texts of lists and objects with a rest behind them. -/

variable {before inner behind : Blanks}

theorem token_list_nil (r : Bytes) : (Written.list before [] inner behind).token ++ r =
    openBracket :: (inner.bytes ++ (closeBracket :: r)) := by
  simp [token]

theorem token_list_cons (w : Written) (ws : List Written) (r : Bytes) :
    (Written.list before (w :: ws) inner behind).token ++ r = openBracket ::
      (w.before.bytes ++ (w.token ++ (w.behind.bytes ++ (restItems ws ++ r)))) := by
  simp [token]

theorem restItems_cons (w : Written) (ws : List Written) (r : Bytes) :
    restItems (w :: ws) ++ r =
      comma :: (w.before.bytes ++ (w.token ++ (w.behind.bytes ++ (restItems ws ++ r)))) := by
  simp [restItems]

theorem token_object_nil (r : Bytes) : (Written.object before [] inner behind).token ++ r =
    openBrace :: (inner.bytes ++ (closeBrace :: r)) := by
  simp [token]

theorem token_object_cons (k : Key) (w : Written) (ms : List (Key × Written)) (r : Bytes) :
    (Written.object before ((k, w) :: ms) inner behind).token ++ r =
      openBrace :: (k.bytes ++ (colon ::
        (w.before.bytes ++ (w.token ++ (w.behind.bytes ++ (restMembers ms ++ r)))))) := by
  simp [token]

theorem restMembers_cons (k : Key) (w : Written) (ms : List (Key × Written)) (r : Bytes) :
    restMembers ((k, w) :: ms) ++ r = comma :: (k.bytes ++ (colon ::
      (w.before.bytes ++ (w.token ++ (w.behind.bytes ++ (restMembers ms ++ r)))))) := by
  simp [restMembers]

end Written

/-! ## What a text starts with -/

theorem skipBlank_blanks (pad : Blanks) (s : Bytes) : skipBlank (pad.bytes ++ s) = skipBlank s :=
  List.dropWhile_append_of_pos pad.areBlank

/-- What stands behind a value in a text: nothing, blanks, or what ends an item or a member. -/
def Ends (rest : Bytes) : Prop :=
  ∀ b ∈ rest.head?, isBlank b = true ∨ b = comma ∨ b = closeBracket ∨ b = closeBrace

theorem ends_nil : Ends [] := by
  intro b hb
  cases hb

theorem ends_cons {b : UInt8} (h : b = comma ∨ b = closeBracket ∨ b = closeBrace) (r : Bytes) :
    Ends (b :: r) := by
  intro c hc
  rw [List.head?_cons, Option.mem_some] at hc
  rw [← hc]
  exact Or.inr h

/-- Blanks may stand before what ends a value. -/
theorem ends_blanks (pad : Blanks) {r : Bytes} (h : Ends r) : Ends (pad.bytes ++ r) := by
  rcases pad with ⟨bytes, hblank⟩
  cases bytes with
  | nil => exact h
  | cons b bytes =>
    intro c hc
    rw [List.cons_append, List.head?_cons, Option.mem_some] at hc
    rw [← hc]
    exact Or.inl (hblank b List.mem_cons_self)

theorem ends_restItems (ws : List Written) (r : Bytes) : Ends (Written.restItems ws ++ r) := by
  cases ws with
  | nil => exact ends_cons (Or.inr (Or.inl rfl)) r
  | cons w ws =>
    rw [Written.restItems_cons]
    exact ends_cons (Or.inl rfl) _

theorem ends_restMembers (ms : List (Key × Written)) (r : Bytes) :
    Ends (Written.restMembers ms ++ r) := by
  cases ms with
  | nil => exact ends_cons (Or.inr (Or.inr rfl)) r
  | cons m ms =>
    rw [Written.restMembers_cons]
    exact ends_cons (Or.inl rfl) _

end ApplianceRest.Json
