/-!
# Percent escapes

Texts inside an address, byte by byte: a byte stays if it is one of those kept, every other one is
written as `%` and two hexadecimal digits.

* `Percent.path` escapes a path, keeping its slashes.
* `Percent.component` escapes one side of a query parameter.
* `Percent.decode?` undoes either.
-/

namespace ApplianceRest.Percent

/-- The hexadecimal digit of a number below 16, in upper case. -/
def hexDigit (n : Nat) : Char :=
  if n < 10 then Char.ofNat (48 + n) else Char.ofNat (55 + n)

/-- One byte, as itself or escaped. -/
def encodeByte (kept : UInt8 → Bool) (b : UInt8) : List Char :=
  if kept b then [Char.ofNat b.toNat]
  else ['%', hexDigit (b.toNat / 16), hexDigit (b.toNat % 16)]

/-- The bytes of a text, each as itself or escaped. -/
def encode (kept : UInt8 → Bool) (text : String) : String :=
  .ofList ((text.toList.flatMap String.utf8EncodeChar).flatMap (encodeByte kept))

/-- The printable ASCII characters that a path may not hold unescaped. -/
def unsafeInPath : List Char :=
  [' ', '"', '#', '%', '<', '>', '?', '\x60', '\x7b', '\x7d', '^', '|', '\\', '[', ']']

/-- The bytes that stay in a path: printable ASCII without the unsafe characters. -/
def keptInPath (b : UInt8) : Bool :=
  0x20 ≤ b && b < 0x7F && !unsafeInPath.contains (Char.ofNat b.toNat)

/-- The bytes that stay in a query: letters and digits, and the marks `-`, `.`, `_` and `~`. -/
def keptInQuery (b : UInt8) : Bool :=
  let c := Char.ofNat b.toNat
  b < 0x80 && (c.isAlphanum || c == '-' || c == '.' || c == '_' || c == '~')

/-- A path, escaped segment by segment; a slash separates segments and stays. -/
def path (text : String) : String := encode keptInPath text

/-- One side of a query parameter. -/
def component (text : String) : String := encode keptInQuery text

/-! ## Reading back -/

/-- The value of a hexadecimal digit of either case. -/
def hexValue? (c : Char) : Option Nat :=
  if c.isDigit then some (c.toNat - 48)
  else if 'A' ≤ c ∧ c ≤ 'F' then some (c.toNat - 55)
  else if 'a' ≤ c ∧ c ≤ 'f' then some (c.toNat - 87)
  else none

/-- The bytes a text stands for, or nothing if a `%` in it starts no escape. -/
def decodeBytes? : List Char → Option (List UInt8)
  | [] => some []
  | '%' :: h :: l :: rest => do
    let high ← hexValue? h
    let low ← hexValue? l
    return UInt8.ofNat (16 * high + low) :: (← decodeBytes? rest)
  | c :: rest => if c = '%' then none else (decodeBytes? rest).map (String.utf8EncodeChar c ++ ·)

/-- The text that an escaped text stands for, or nothing if the escapes are malformed or their
bytes are no text. -/
def decode? (escaped : String) : Option String :=
  (decodeBytes? escaped.toList).bind fun bytes => String.fromUTF8? bytes.toByteArray

end ApplianceRest.Percent
