/-!
# Durations

A span of time as whole seconds and nanoseconds, and its two texts: the compound one of a query
(`1h2m3.5s`), and the one in a single unit of a message (`3723.5s`).
-/

namespace ApplianceRest

/-- The nanoseconds of a second. -/
def nanosPerSecond : Nat := 1000000000

/-- A span of time: whole seconds, fewer than `2 ^ 64`, and nanoseconds, fewer than a second. -/
structure Duration where
  seconds : Nat
  nanos : Nat
  seconds_lt : seconds < UInt64.size := by decide
  nanos_lt : nanos < nanosPerSecond := by decide
deriving DecidableEq, Repr

namespace Duration

/-- No time at all; as a deadline it stands for none. -/
def zero : Duration := ⟨0, 0, by decide, by decide⟩

instance : Inhabited Duration := ⟨zero⟩

/-- The span with these seconds and nanoseconds, where both are in range. -/
def of? (seconds nanos : Nat) : Option Duration :=
  if hs : seconds < UInt64.size then
    if hn : nanos < nanosPerSecond then some ⟨seconds, nanos, hs, hn⟩ else none
  else none

/-- The span in nanoseconds. -/
def total (d : Duration) : Nat := d.seconds * nanosPerSecond + d.nanos

/-- Whether the span is empty. -/
def isZero (d : Duration) : Bool := d.total == 0

/-! ## Texts -/

/-- The digits of `part / 10 ^ places` behind the point, without the zeros at their end. -/
def fraction (part places : Nat) : List Char :=
  let ds := Nat.toDigits 10 part
  ((List.replicate (places - ds.length) '0' ++ ds).reverse.dropWhile (· == '0')).reverse

/-- The decimal text of `value / 10 ^ places`; a whole number has no point. -/
def withFraction (value places : Nat) : List Char :=
  let whole := Nat.toDigits 10 (value / Nat.pow 10 places)
  let part := value % Nat.pow 10 places
  if part = 0 then whole else whole ++ '.' :: fraction part places

/-- Below one second: the amount in the largest unit of which there is at least one. -/
def subsecond (nanos : Nat) : List Char :=
  if nanos < 1000 then Nat.toDigits 10 nanos ++ ['n', 's']
  else if nanos < 1000000 then withFraction nanos 3 ++ ['µ', 's']
  else withFraction nanos 6 ++ ['m', 's']

/-- The compound text, as a query carries it: nothing is `0s`, below one second it is a single
amount, and from there on hours and minutes stand before the seconds, hours only from one hour on
and minutes only from one minute on. -/
def compound (d : Duration) : String :=
  let text :=
    if d.total = 0 then ['0', 's']
    else if d.total < nanosPerSecond then subsecond d.total
    else
      let hours := d.seconds / 3600
      let minutes := d.seconds / 60 % 60
      let hoursText := if 0 < hours then Nat.toDigits 10 hours ++ ['h'] else []
      let minutesText :=
        if 0 < hours ∨ 0 < minutes then Nat.toDigits 10 minutes ++ ['m'] else []
      let lastMinute := d.seconds % 60 * nanosPerSecond + d.nanos
      hoursText ++ minutesText ++ withFraction lastMinute 9 ++ ['s']
  String.ofList text

/-- The text in a single unit, as messages show a deadline: seconds from one second on. -/
def inOneUnit (d : Duration) : String :=
  String.ofList <|
    if d.total < nanosPerSecond then subsecond d.total else withFraction d.total 9 ++ ['s']

end Duration

end ApplianceRest
