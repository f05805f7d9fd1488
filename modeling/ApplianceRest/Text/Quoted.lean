import ApplianceRest.Text.Printable

/-!
# Quoted text in messages

Messages show the values they speak of between double quotes, with everything spelled out that a
reader could not make out.
-/

namespace ApplianceRest.Text

/-- How one character of a value is shown between the quotes: a short escape where there is one,
the character itself if it is printable, else its code point in hexadecimal. A single quote needs
no escape between double quotes. -/
def quotedChar (c : Char) : List Char :=
  if c = '\x00' then ['\\', '0']
  else if c = '\t' then ['\\', 't']
  else if c = '\r' then ['\\', 'r']
  else if c = '\n' then ['\\', 'n']
  else if c = '"' then ['\\', '"']
  else if c = '\\' then ['\\', '\\']
  else if isPrintable c then [c]
  else ['\\', 'u', '\x7b'] ++ Nat.toDigits 16 c.toNat ++ ['\x7d']

/-- A value between double quotes, as messages show it. -/
def quoted (s : String) : String :=
  String.ofList (['"'] ++ s.toList.flatMap quotedChar ++ ['"'])

end ApplianceRest.Text
