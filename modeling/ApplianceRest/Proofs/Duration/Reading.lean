import ApplianceRest.Duration
import Mathlib.Data.List.DropRight
import Mathlib.Data.List.SplitBy
import Mathlib.Tactic.FieldSimp
import Mathlib.Tactic.Linarith
import Mathlib.Tactic.Ring

/-!
# Durations are read back

The compound text of a duration is a row of amounts, each a decimal number and a unit. `read?` takes
such a text apart and adds the amounts up, exactly; nothing is lost in the text of a duration, and
there is one text for each (`read_compound`).

* `fraction_eq`: the digits behind the point are those of the part below one, without zeros at the
  end.
* `Entry.readAmount_text`: a number with its unit is read as the amount it is.
* `readAmounts_compound`: the amounts of which the compound text is made.
-/

namespace ApplianceRest.Duration

/-! ## Reading -/

/-- A unit in which a duration is given. -/
inductive TimeUnit where
  | hour
  | minute
  | second
  | millisecond
  | microsecond
  | nanosecond
deriving DecidableEq

namespace TimeUnit

/-- How a unit is written. -/
def symbol : TimeUnit → List Char
  | .hour => ['h']
  | .minute => ['m']
  | .second => ['s']
  | .millisecond => ['m', 's']
  | .microsecond => ['µ', 's']
  | .nanosecond => ['n', 's']

/-- How many nanoseconds a unit has. -/
def size : TimeUnit → Nat
  | .hour => 3600 * nanosPerSecond
  | .minute => 60 * nanosPerSecond
  | .second => nanosPerSecond
  | .millisecond => 1000000
  | .microsecond => 1000
  | .nanosecond => 1

/-- The unit that is written so. -/
def ofSymbol? (text : List Char) : Option TimeUnit :=
  [hour, minute, second, millisecond, microsecond, nanosecond].find? (·.symbol == text)

/-- The units of less than a second. -/
def subseconds : List TimeUnit := [.nanosecond, .microsecond, .millisecond]

end TimeUnit

/-- A decimal number as it is written: its digits, and those behind the point if there is one. -/
structure Numeral where
  whole : List Char
  fraction : Option (List Char)
deriving DecidableEq

namespace Numeral

/-- The number that is written so. -/
def ofChars? (text : List Char) : Option Numeral :=
  match text.splitOn '.' with
  | [whole] => if whole ≠ [] ∧ whole.all Char.isDigit then some ⟨whole, none⟩ else none
  | [whole, fraction] =>
    if whole ≠ [] ∧ whole.all Char.isDigit ∧ fraction.all Char.isDigit then
      some ⟨whole, some fraction⟩
    else none
  | _ => none

/-- What a number is worth. -/
def value (n : Numeral) : ℚ :=
  let fraction := n.fraction.getD []
  Nat.ofDigitChars 10 n.whole 0 + Nat.ofDigitChars 10 fraction 0 / 10 ^ fraction.length

/-- Whether the digits behind the point are needed, all of them. -/
def IsTrimmed (n : Numeral) : Prop :=
  ∀ fraction, n.fraction = some fraction → fraction ≠ [] ∧ fraction.getLast? ≠ some '0'

end Numeral

/-- A number of units. -/
structure Amount where
  number : Numeral
  unit : TimeUnit
deriving DecidableEq

/-- How many nanoseconds an amount is. -/
def Amount.nanoseconds (a : Amount) : ℚ := a.number.value * a.unit.size

/-- Whether a character is one of a number. -/
def isNumeric (c : Char) : Bool := c.isDigit || c == '.'

/-- The amount that is written so. -/
def readAmount? (text : List Char) : Option Amount := do
  let number ← Numeral.ofChars? (text.takeWhile isNumeric)
  let unit ← TimeUnit.ofSymbol? (text.dropWhile isNumeric)
  return ⟨number, unit⟩

/-- The amounts of a text. A new one begins where a number follows a unit; there has to be one. -/
def readAmounts? (text : String) : Option (List Amount) :=
  if text = "" then none
  else (text.toList.splitBy fun c d => isNumeric c || !isNumeric d).mapM readAmount?

/-- The nanoseconds of a text, which are those of all its amounts. -/
def read? (text : String) : Option ℚ :=
  (readAmounts? text).map fun amounts => (amounts.map Amount.nanoseconds).sum

/-! ## Numbers -/

/-- The number that `withFraction` writes. -/
def numeral (value places : Nat) : Numeral where
  whole := Nat.toDigits 10 (value / 10 ^ places)
  fraction :=
    if value % 10 ^ places = 0 then none else some (fraction (value % 10 ^ places) places)

variable {value part places : Nat}

theorem isDigit_of_mem_digits {n : Nat} {c : Char} (h : c ∈ Nat.toDigits 10 n) : c.isDigit = true :=
  Nat.isDigit_of_mem_toDigits (by decide) (by decide) h

theorem ofDigitChars_toDigits (n : Nat) : Nat.ofDigitChars 10 (Nat.toDigits 10 n) 0 = n :=
  Nat.ofDigitChars_toDigits (by decide) (by decide)

/-- The digits behind the point are followed by zeros up to the number of places, and with these
they are the digits of the part. -/
theorem fraction_eq (hpos : 0 < part) (hlt : part < 10 ^ places) :
    ∃ zeros, (fraction part places).length + zeros = places ∧
      10 ^ zeros * Nat.ofDigitChars 10 (fraction part places) 0 = part := by
  have hplaces : 0 < places := by
    rcases Nat.eq_zero_or_pos places with rfl | h
    · omega
    · exact h
  set padded := List.replicate (places - (Nat.toDigits 10 part).length) '0' ++
    Nat.toDigits 10 part with hpadded
  have hlength : padded.length = places := by
    have hle := (Nat.length_toDigits_le_iff (by decide) hplaces).mpr hlt
    rw [hpadded, List.length_append, List.length_replicate]
    omega
  have hvalue : Nat.ofDigitChars 10 padded 0 = part := by
    rw [hpadded, Nat.ofDigitChars_append, Nat.ofDigitChars_replicate_zero, Nat.mul_zero,
      ofDigitChars_toDigits]
  -- what has been dropped are zeros
  have hdropped : padded.rtakeWhile (· == '0') =
      List.replicate (padded.rtakeWhile (· == '0')).length '0' :=
    List.eq_replicate_of_mem fun c hc => by simpa using List.mem_rtakeWhile_imp hc
  have hsplit : fraction part places ++
      List.replicate (padded.rtakeWhile (· == '0')).length '0' = padded := by
    rw [← hdropped]
    exact List.rdropWhile_append_rtakeWhile
  refine ⟨(padded.rtakeWhile (· == '0')).length, ?_, ?_⟩
  · have h := congrArg List.length hsplit
    rw [List.length_append, List.length_replicate, hlength] at h
    exact h
  · have h := congrArg (Nat.ofDigitChars 10 · 0) hsplit
    rw [Nat.ofDigitChars_append, Nat.ofDigitChars_replicate_zero, hvalue] at h
    exact h

theorem fraction_ne_nil (hpos : 0 < part) (hlt : part < 10 ^ places) :
    fraction part places ≠ [] := by
  obtain ⟨zeros, -, hvalue⟩ := fraction_eq hpos hlt
  intro hnil
  rw [hnil, Nat.ofDigitChars_nil, Nat.mul_zero] at hvalue
  omega

theorem getLast?_fraction (part places : Nat) : (fraction part places).getLast? ≠ some '0' := by
  intro hlast
  have hne : fraction part places ≠ [] := by
    rintro hnil
    rw [hnil] at hlast
    cases hlast
  rw [List.getLast?_eq_some_getLast hne, Option.some.injEq] at hlast
  refine List.rdropWhile_last_not (· == '0') _ hne ?_
  exact beq_iff_eq.mpr hlast

theorem isDigit_of_mem_fraction {c : Char} (h : c ∈ fraction part places) : c.isDigit = true := by
  have hpadded := (List.rdropWhile_prefix (· == '0') (l := _)).subset h
  rcases List.mem_append.mp hpadded with hzero | hdigit
  · rw [List.eq_of_mem_replicate hzero]
    decide
  · exact isDigit_of_mem_digits hdigit

/-- A number is worth what it has been written for. -/
theorem value_numeral (value places : Nat) :
    (numeral value places).value = (value : ℚ) / 10 ^ places := by
  have hdiv := Nat.div_add_mod value (10 ^ places)
  have hpow : (10 : ℚ) ^ places ≠ 0 := by positivity
  rw [Numeral.value, numeral]
  rw [ofDigitChars_toDigits, eq_div_iff hpow]
  by_cases hzero : value % 10 ^ places = 0
  · rw [if_pos hzero]
    rw [hzero] at hdiv
    have hcast : (value : ℚ) = 10 ^ places * (value / 10 ^ places : Nat) := by
      exact_mod_cast hdiv.symm
    rw [hcast]
    simp
    ring
  · rw [if_neg hzero]
    obtain ⟨zeros, hlength, hpart⟩ := fraction_eq (Nat.pos_of_ne_zero hzero)
      (Nat.mod_lt value (Nat.pow_pos (by decide)))
    set ds := fraction (value % 10 ^ places) places
    -- the places are those of the digits and the zeros
    have hsplit : (10 : ℚ) ^ places = 10 ^ ds.length * 10 ^ zeros := by
      rw [← hlength, pow_add]
    have hcast : (value : ℚ) = 10 ^ places * (value / 10 ^ places : Nat) +
        10 ^ zeros * (Nat.ofDigitChars 10 ds 0 : Nat) := by
      rw [← hpart] at hdiv
      exact_mod_cast hdiv.symm
    have hds : (10 : ℚ) ^ ds.length ≠ 0 := by positivity
    rw [hcast, hsplit]
    simp only [Option.getD_some]
    field_simp

theorem isTrimmed_numeral (value places : Nat) : (numeral value places).IsTrimmed := by
  intro digits hdigits
  rw [numeral] at hdigits
  split at hdigits
  · cases hdigits
  · next hzero =>
    cases hdigits
    exact ⟨fraction_ne_nil (Nat.pos_of_ne_zero hzero) (Nat.mod_lt value (Nat.pow_pos (by decide))),
      getLast?_fraction _ _⟩

/-- A whole number has no point. -/
theorem withFraction_zero (n : Nat) : withFraction n 0 = Nat.toDigits 10 n := by
  rw [withFraction]
  simp [Nat.mod_one]

theorem no_point_of_isDigit {ds : List Char} (h : ∀ c ∈ ds, c.isDigit = true) : '.' ∉ ds :=
  fun hmem => absurd (h '.' hmem) (by decide)

theorem ofChars_withFraction (value places : Nat) :
    Numeral.ofChars? (withFraction value places) = some (numeral value places) := by
  have hwhole : ∀ c ∈ Nat.toDigits 10 (value / 10 ^ places), c.isDigit = true :=
    fun c hc => isDigit_of_mem_digits hc
  have hfraction : ∀ c ∈ fraction (value % 10 ^ places) places, c.isDigit = true :=
    fun c hc => isDigit_of_mem_fraction hc
  have hne : Nat.toDigits 10 (value / 10 ^ places) ≠ [] := Nat.toDigits_ne_nil
  rw [withFraction, numeral, Numeral.ofChars?]
  simp only [Nat.pow_eq]
  by_cases hzero : value % 10 ^ places = 0
  · rw [if_pos hzero, if_pos hzero, List.splitOn_eq_singleton (no_point_of_isDigit hwhole)]
    exact if_pos ⟨hne, List.all_eq_true.mpr hwhole⟩
  · rw [if_neg hzero, if_neg hzero, List.splitOn_append_cons_self,
      List.splitOn_eq_singleton (no_point_of_isDigit hwhole),
      List.splitOn_eq_singleton (no_point_of_isDigit hfraction)]
    exact if_pos ⟨hne, List.all_eq_true.mpr hwhole, List.all_eq_true.mpr hfraction⟩

theorem isNumeric_of_mem_withFraction {c : Char} (h : c ∈ withFraction value places) :
    isNumeric c = true := by
  have hdigit : c.isDigit = true → isNumeric c = true := fun hc => by simp [isNumeric, hc]
  rw [withFraction] at h
  split at h
  · exact hdigit (isDigit_of_mem_digits h)
  · rcases List.mem_append.mp h with hc | hc
    · exact hdigit (isDigit_of_mem_digits hc)
    · rcases List.mem_cons.mp hc with rfl | hc
      · decide
      · exact hdigit (isDigit_of_mem_fraction hc)

theorem withFraction_ne_nil (value places : Nat) : withFraction value places ≠ [] := by
  rw [withFraction]
  split
  · exact Nat.toDigits_ne_nil
  · simp

/-! ## Amounts -/

theorem TimeUnit.ofSymbol_symbol (u : TimeUnit) : ofSymbol? u.symbol = some u := by
  cases u <;> decide

theorem TimeUnit.symbol_ne_nil (u : TimeUnit) : u.symbol ≠ [] := by
  cases u <;> decide

theorem TimeUnit.not_isNumeric_of_mem_symbol (u : TimeUnit) :
    ∀ c ∈ u.symbol, isNumeric c = false := by
  have hall : (u.symbol.all fun c => !isNumeric c) = true := by cases u <;> decide
  intro c hc
  have hnot := List.all_eq_true.mp hall c hc
  rwa [Bool.not_eq_true'] at hnot

/-- An amount to be written: so many units, counted in the last of some places behind the point. -/
structure Entry where
  value : Nat
  places : Nat
  unit : TimeUnit

namespace Entry

/-- The text of an amount: the number and the symbol of the unit. -/
def text (e : Entry) : List Char := withFraction e.value e.places ++ e.unit.symbol

/-- What is read from that text. -/
def amount (e : Entry) : Amount := ⟨numeral e.value e.places, e.unit⟩

variable (e : Entry)

theorem text_ne_nil : e.text ≠ [] :=
  List.append_ne_nil_of_left_ne_nil (withFraction_ne_nil _ _) _

theorem readAmount_text : readAmount? e.text = some e.amount := by
  obtain ⟨c, rest, hsymbol⟩ := List.exists_cons_of_ne_nil e.unit.symbol_ne_nil
  have hc : isNumeric c = false :=
    e.unit.not_isNumeric_of_mem_symbol c (by simp [hsymbol])
  have hnumber : ∀ d ∈ withFraction e.value e.places, isNumeric d = true :=
    fun _ hd => isNumeric_of_mem_withFraction hd
  have htake : e.text.takeWhile isNumeric = withFraction e.value e.places := by
    rw [text, List.takeWhile_append_of_pos hnumber, hsymbol,
      List.takeWhile_cons_of_neg (by simp [hc]), List.append_nil]
  have hdrop : e.text.dropWhile isNumeric = e.unit.symbol := by
    rw [text, List.dropWhile_append_of_pos hnumber, hsymbol,
      List.dropWhile_cons_of_neg (by simp [hc])]
  rw [readAmount?, htake, hdrop, ofChars_withFraction, TimeUnit.ofSymbol_symbol]
  rfl

/-- An amount begins with a character of a number. -/
theorem isNumeric_head_text : isNumeric (e.text.head e.text_ne_nil) = true := by
  have hne := withFraction_ne_nil e.value e.places
  have hhead : e.text.head e.text_ne_nil = (withFraction e.value e.places).head hne :=
    List.head_append_of_ne_nil hne
  rw [hhead]
  exact isNumeric_of_mem_withFraction (List.head_mem hne)

/-- An amount ends with a character that is none of a number. -/
theorem isNumeric_getLast_text : isNumeric (e.text.getLast e.text_ne_nil) = false := by
  have hlast : e.text.getLast e.text_ne_nil = e.unit.symbol.getLast e.unit.symbol_ne_nil :=
    List.getLast_append_of_ne_nil _ e.unit.symbol_ne_nil
  rw [hlast]
  exact e.unit.not_isNumeric_of_mem_symbol _ (List.getLast_mem _)

/-- Inside an amount no number follows a unit. -/
theorem isChain_text : e.text.IsChain fun c d => (isNumeric c || !isNumeric d) = true := by
  unfold text
  rw [List.isChain_append]
  refine ⟨?_, ?_, ?_⟩
  · refine (List.pairwise_of_forall_mem_list ?_).isChain
    intro c hc d _
    simp [isNumeric_of_mem_withFraction hc]
  · refine (List.pairwise_of_forall_mem_list ?_).isChain
    intro c _ d hd
    simp [e.unit.not_isNumeric_of_mem_symbol d hd]
  · intro c hc d _
    simp [isNumeric_of_mem_withFraction (List.mem_of_mem_getLast? hc)]

/-- How many nanoseconds the amount is. -/
theorem nanoseconds_amount :
    e.amount.nanoseconds = (e.value : ℚ) / 10 ^ e.places * e.unit.size := by
  rw [Amount.nanoseconds, amount, value_numeral]

end Entry

/-- A row of amounts is read amount by amount. -/
theorem readAmounts_row {row : List Entry} (hne : row ≠ []) :
    readAmounts? (.ofList (row.flatMap Entry.text)) = some (row.map Entry.amount) := by
  have hsplit : (row.flatMap Entry.text).splitBy (fun c d => isNumeric c || !isNumeric d) =
      row.map Entry.text := by
    refine List.splitBy_flatten ?_ ?_ ?_
    · intro hmem
      obtain ⟨e, -, he⟩ := List.mem_map.mp hmem
      exact e.text_ne_nil he
    · intro text htext
      obtain ⟨e, -, rfl⟩ := List.mem_map.mp htext
      exact e.isChain_text
    · -- the next amount begins with its number, behind the unit of this one
      refine (List.pairwise_of_forall_mem_list ?_).isChain
      intro text htext text' htext'
      obtain ⟨e, -, rfl⟩ := List.mem_map.mp htext
      obtain ⟨e', -, rfl⟩ := List.mem_map.mp htext'
      exact ⟨e.text_ne_nil, e'.text_ne_nil,
        by simp [e.isNumeric_getLast_text, e'.isNumeric_head_text]⟩
  have hempty : String.ofList (row.flatMap Entry.text) ≠ "" := by
    intro heq
    have hflat : row.flatMap Entry.text = [] := by simpa using congrArg String.toList heq
    rw [hflat, List.splitBy_nil] at hsplit
    exact hne (List.map_eq_nil_iff.mp hsplit.symm)
  rw [readAmounts?, if_neg hempty, String.toList_ofList, hsplit]
  clear hsplit hempty hne
  induction row with
  | nil => rfl
  | cons e row ih =>
    rw [List.map_cons, List.mapM_cons, e.readAmount_text, ih]
    rfl

/-! ## The compound text -/

/-- The amounts of a text from one second on: hours and minutes where there are any. -/
def longEntries (d : Duration) : List Entry :=
  (if TimeUnit.hour.size ≤ d.total then [⟨d.seconds / 3600, 0, .hour⟩] else []) ++
    (if TimeUnit.minute.size ≤ d.total then [⟨d.seconds / 60 % 60, 0, .minute⟩] else []) ++
    [⟨d.seconds % 60 * nanosPerSecond + d.nanos, 9, .second⟩]

/-- The amounts of which the compound text of a duration is made. -/
def entries (d : Duration) : List Entry :=
  if d.total = 0 then [⟨0, 0, .second⟩]
  else if d.total < 1000 then [⟨d.total, 0, .nanosecond⟩]
  else if d.total < 1000000 then [⟨d.total, 3, .microsecond⟩]
  else if d.total < nanosPerSecond then [⟨d.total, 6, .millisecond⟩]
  else d.longEntries

variable (d : Duration)

/-- There are hours exactly from an hour on. -/
theorem hour_le_total : TimeUnit.hour.size ≤ d.total ↔ 0 < d.seconds / 3600 := by
  have hnanos : d.nanos < 1000000000 := d.nanos_lt
  simp only [TimeUnit.size, total, nanosPerSecond]
  omega

/-- There are minutes, or hours, exactly from a minute on. -/
theorem minute_le_total :
    TimeUnit.minute.size ≤ d.total ↔ 0 < d.seconds / 3600 ∨ 0 < d.seconds / 60 % 60 := by
  have hnanos : d.nanos < 1000000000 := d.nanos_lt
  simp only [TimeUnit.size, total, nanosPerSecond]
  omega

theorem text_whole (n : Nat) (u : TimeUnit) :
    Entry.text ⟨n, 0, u⟩ = Nat.toDigits 10 n ++ u.symbol := by
  rw [Entry.text, withFraction_zero]

theorem flatMap_text_ite {c : Prop} [Decidable c] (e : Entry) :
    (if c then [e] else []).flatMap Entry.text = if c then e.text else [] := by
  split <;> simp

theorem compound_eq : d.compound = .ofList (d.entries.flatMap Entry.text) := by
  unfold compound entries subsecond
  by_cases hzero : d.total = 0
  · rw [if_pos hzero, if_pos hzero]
    rfl
  rw [if_neg hzero, if_neg hzero]
  by_cases hnano : d.total < 1000
  · have hsecond : d.total < nanosPerSecond := lt_trans hnano (by decide)
    rw [if_pos hsecond, if_pos hnano, if_pos hnano, List.flatMap_singleton, text_whole]
    rfl
  rw [if_neg hnano, if_neg hnano]
  by_cases hmicro : d.total < 1000000
  · have hsecond : d.total < nanosPerSecond := lt_trans hmicro (by decide)
    rw [if_pos hsecond, if_pos hmicro, if_pos hmicro, List.flatMap_singleton]
    rfl
  rw [if_neg hmicro, if_neg hmicro]
  by_cases hsecond : d.total < nanosPerSecond
  · rw [if_pos hsecond, if_pos hsecond, List.flatMap_singleton]
    rfl
  · -- hours and minutes stand in the text where they stand among the amounts
    rw [if_neg hsecond, if_neg hsecond, longEntries, List.flatMap_append, List.flatMap_append,
      flatMap_text_ite, flatMap_text_ite, List.flatMap_singleton, text_whole, text_whole]
    simp only [d.hour_le_total, d.minute_le_total]
    exact congrArg String.ofList (List.append_assoc _ _ _)

theorem entries_ne_nil : d.entries ≠ [] := by
  unfold entries longEntries
  split_ifs <;> simp

/-- The compound text is read as its amounts. -/
theorem readAmounts_compound : readAmounts? d.compound = some (d.entries.map Entry.amount) := by
  rw [compound_eq]
  exact readAmounts_row d.entries_ne_nil

/-! ## What the amounts add up to -/

/-- The nanoseconds of some amounts. -/
def sumOf (row : List Entry) : ℚ := ((row.map Entry.amount).map Amount.nanoseconds).sum

theorem sumOf_append (row more : List Entry) : sumOf (row ++ more) = sumOf row + sumOf more := by
  simp [sumOf]

theorem sumOf_singleton (e : Entry) :
    sumOf [e] = (e.value : ℚ) / 10 ^ e.places * e.unit.size := by
  simp [sumOf, Entry.nanoseconds_amount]

/-- An amount that is left out only where it is nothing does not change the sum. -/
theorem sumOf_ite {c : Prop} [Decidable c] {e : Entry} (h : ¬c → e.value = 0) :
    sumOf (if c then [e] else []) = sumOf [e] := by
  by_cases hc : c
  · rw [if_pos hc]
  · rw [if_neg hc, sumOf_singleton, h hc]
    simp [sumOf]

theorem sumOf_longEntries : sumOf d.longEntries = (d.total : ℚ) := by
  have hhour : ¬TimeUnit.hour.size ≤ d.total → d.seconds / 3600 = 0 := by
    rw [d.hour_le_total]
    omega
  have hminute : ¬TimeUnit.minute.size ≤ d.total → d.seconds / 60 % 60 = 0 := by
    rw [d.minute_le_total]
    omega
  have htotal : d.seconds / 3600 * (3600 * nanosPerSecond) +
      d.seconds / 60 % 60 * (60 * nanosPerSecond) +
      (d.seconds % 60 * nanosPerSecond + d.nanos) = d.total := by
    simp only [total, nanosPerSecond]
    omega
  rw [longEntries, sumOf_append, sumOf_append, sumOf_ite hhour, sumOf_ite hminute, sumOf_singleton,
    sumOf_singleton, sumOf_singleton, ← htotal]
  simp only [TimeUnit.size, nanosPerSecond]
  push_cast
  ring

/-- The amounts of the compound text add up to the duration. -/
theorem sumOf_entries : sumOf d.entries = (d.total : ℚ) := by
  unfold entries
  split_ifs with hzero hnano hmicro hsecond
  · rw [sumOf_singleton, hzero]
    simp
  · rw [sumOf_singleton]
    simp [TimeUnit.size]
  · rw [sumOf_singleton]
    norm_num [TimeUnit.size]
  · rw [sumOf_singleton]
    norm_num [TimeUnit.size]
  · exact d.sumOf_longEntries

/-! ## Canonical texts -/

/-- What the amounts look like of which the text of a duration is made. -/
structure IsCanonical (d : Duration) (amounts : List Amount) : Prop where
  /-- nothing is nothing in seconds -/
  zero : d.total = 0 → d.compound = "0s" ∧ amounts = [⟨⟨['0'], none⟩, .second⟩]
  /-- below one second there is one amount, in the largest unit of which there is at least one -/
  short : 0 < d.total → d.total < nanosPerSecond →
    ∃ a, amounts = [a] ∧ a.unit ∈ TimeUnit.subseconds ∧ 1 ≤ a.number.value ∧
      ∀ u ∈ TimeUnit.subseconds, u.size ≤ d.total → u.size ≤ a.unit.size
  /-- from one second on there are seconds, with hours and minutes in front where there are any -/
  long : nanosPerSecond ≤ d.total →
    ∃ hours minutes seconds : Numeral,
      amounts =
        (if TimeUnit.hour.size ≤ d.total then [⟨hours, .hour⟩] else []) ++
          (if TimeUnit.minute.size ≤ d.total then [⟨minutes, .minute⟩] else []) ++
          [⟨seconds, .second⟩] ∧
      hours.fraction = none ∧ minutes.fraction = none ∧ minutes.value < 60 ∧ seconds.value < 60
  /-- behind a point there are digits, of which the last is none that can be left out -/
  trimmed : ∀ a ∈ amounts, a.number.IsTrimmed

/-- An amount of at least one unit, in a unit that is larger than any other of which there is one. -/
theorem short_entry {places : Nat} {u : TimeUnit} (hunit : u ∈ TimeUnit.subseconds)
    (hsize : 10 ^ places = u.size) (hle : u.size ≤ d.total)
    (hlargest : ∀ v ∈ TimeUnit.subseconds, v.size ≤ d.total → v.size ≤ u.size) :
    ∃ a, [Entry.mk d.total places u].map Entry.amount = [a] ∧ a.unit ∈ TimeUnit.subseconds ∧
      1 ≤ a.number.value ∧ ∀ v ∈ TimeUnit.subseconds, v.size ≤ d.total → v.size ≤ a.unit.size := by
  refine ⟨_, rfl, hunit, ?_, hlargest⟩
  have hpos : (0 : ℚ) < 10 ^ places := by positivity
  show 1 ≤ (numeral d.total places).value
  rw [value_numeral, le_div_iff₀ hpos, one_mul]
  have hnat : 10 ^ places ≤ d.total := hsize ▸ hle
  exact_mod_cast hnat

theorem isCanonical_entries : IsCanonical d (d.entries.map Entry.amount) where
  zero hzero := by
    have hentries : d.entries = [⟨0, 0, .second⟩] := if_pos hzero
    refine ⟨?_, ?_⟩
    · rw [compound_eq, hentries]
      decide
    · rw [hentries]
      decide
  short hpos hlt := by
    have hzero : d.total ≠ 0 := Nat.ne_of_gt hpos
    unfold entries
    rw [if_neg hzero]
    have hlarger : ∀ v ∈ TimeUnit.subseconds,
        v.size = 1 ∨ v.size = 1000 ∨ v.size = 1000000 := by decide
    by_cases hnano : d.total < 1000
    · rw [if_pos hnano]
      refine short_entry d (by decide) (by decide) hpos ?_
      intro v hv hle
      show v.size ≤ 1
      rcases hlarger v hv with h | h | h <;> omega
    rw [if_neg hnano]
    by_cases hmicro : d.total < 1000000
    · rw [if_pos hmicro]
      refine short_entry d (by decide) (by decide) (Nat.le_of_not_lt hnano) ?_
      intro v hv hle
      show v.size ≤ 1000
      rcases hlarger v hv with h | h | h <;> omega
    · rw [if_neg hmicro, if_pos hlt]
      refine short_entry d (by decide) (by decide) (Nat.le_of_not_lt hmicro) ?_
      intro v hv hle
      show v.size ≤ 1000000
      rcases hlarger v hv with h | h | h <;> omega
  long hle := by
    have hsizes : (1000000 : Nat) ≤ nanosPerSecond := by decide
    unfold entries
    rw [if_neg (by omega), if_neg (by omega), if_neg (by omega), if_neg (by omega), longEntries]
    refine ⟨numeral (d.seconds / 3600) 0, numeral (d.seconds / 60 % 60) 0,
      numeral (d.seconds % 60 * nanosPerSecond + d.nanos) 9, ?_, ?_, ?_, ?_, ?_⟩
    · rw [List.map_append, List.map_append]
      congr 1
      congr 1
      · split <;> rfl
      · split <;> rfl
    · simp [numeral, Nat.mod_one]
    · simp [numeral, Nat.mod_one]
    · rw [value_numeral, pow_zero, div_one]
      exact_mod_cast Nat.mod_lt _ (by decide)
    · have hnanos : d.nanos < 1000000000 := d.nanos_lt
      have hlt : d.seconds % 60 * nanosPerSecond + d.nanos < 60 * 10 ^ 9 := by
        simp only [nanosPerSecond]
        omega
      rw [value_numeral, div_lt_iff₀ (by positivity)]
      exact_mod_cast hlt
  trimmed a ha := by
    obtain ⟨e, -, rfl⟩ := List.mem_map.mp ha
    exact isTrimmed_numeral e.value e.places

/-- Durations of as many nanoseconds are the same. -/
theorem total_inj {d d' : Duration} (h : d.total = d'.total) : d = d' := by
  rcases d with ⟨seconds, nanos, hs, hn⟩
  rcases d' with ⟨seconds', nanos', hs', hn'⟩
  simp only [total, nanosPerSecond] at h hn hn'
  obtain rfl : seconds = seconds' := by omega
  obtain rfl : nanos = nanos' := by omega
  rfl

/-- The compound text of a duration is read as exactly that duration, so no two durations share it;
and it is made of the amounts it should be: `0s`, a single amount below one second, and from there
on seconds with the hours and minutes that there are, without idle digits. -/
theorem read_compound (d : Duration) :
    read? d.compound = some (d.total : ℚ) ∧
    (∀ d' : Duration, d'.compound = d.compound ↔ d' = d) ∧
    ∃ amounts, readAmounts? d.compound = some amounts ∧ IsCanonical d amounts := by
  have hread : ∀ d : Duration, read? d.compound = some (d.total : ℚ) := by
    intro d
    rw [read?, d.readAmounts_compound, ← d.sumOf_entries]
    rfl
  refine ⟨hread d, ?_, _, d.readAmounts_compound, d.isCanonical_entries⟩
  intro d'
  constructor
  · intro heq
    have h := hread d'
    rw [heq, hread d, Option.some.injEq, Nat.cast_inj] at h
    exact total_inj h.symm
  · rintro rfl
    rfl

example : (Duration.mk 90 250000000).compound = "1m30.25s" := by decide

end ApplianceRest.Duration
