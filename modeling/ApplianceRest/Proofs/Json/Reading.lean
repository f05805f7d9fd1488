import ApplianceRest.Json.Atom

/-!
# What a reader makes of a text

`Gives` says that a reading succeeds, with which value and which rest; readings are put together as
readers are. `Reads` says that a text is one way to write a value wherever a document may hold it:
the reader takes the value from the front of the text and leaves what follows.
-/

namespace ApplianceRest.Json

variable {α β : Type} {s t rest rest' : Bytes}

/-- A reading succeeds with `x`, and `rest` is still to be read. -/
def Gives (reading : Except Error (Taken α s)) (x : α) (rest : Bytes) : Prop :=
  ∃ shorter, reading = .ok ⟨x, rest, shorter⟩

namespace Gives

variable {reading : Except Error (Taken α s)} {x : α} {y : β}

theorem map (h : Gives reading x rest) (f : α → β) :
    Gives (reading.map (·.map f)) (f x) rest := by
  obtain ⟨shorter, rfl⟩ := h
  exact ⟨shorter, rfl⟩

theorem within (h : Gives reading x rest) (hle : s.length ≤ t.length) :
    Gives (reading.map (·.within hle)) x rest := by
  obtain ⟨shorter, rfl⟩ := h
  exact ⟨_, rfl⟩

theorem behind (h : Gives reading x rest) (b : UInt8) :
    Gives (reading.map (·.behind b)) x rest :=
  h.within (t := b :: s) (Nat.le_succ s.length)

theorem map_behind (h : Gives reading x rest) (f : α → β) (b : UInt8) :
    Gives (reading.map fun taken => (taken.map f).behind b) (f x) rest := by
  obtain ⟨shorter, rfl⟩ := h
  exact ⟨_, rfl⟩

/-- What is done with a value that was read. -/
theorem bind {next : Taken α s → Except Error (Taken β t)} (h : Gives reading x rest)
    (hnext : ∀ shorter, Gives (next ⟨x, rest, shorter⟩) y rest') :
    Gives (reading >>= next) y rest' := by
  obtain ⟨shorter, rfl⟩ := h
  exact hnext shorter

end Gives

namespace Reader

/-! ## Tokens -/

theorem skipBlank_cons {b : UInt8} (hb : isBlank b = false) (r : Bytes) :
    skipBlank (b :: r) = b :: r :=
  List.dropWhile_cons_of_neg (by simp [hb])

/-- Where a token stands in front, nothing is passed over. -/
theorem gives_fromToken {read : Reader α} {x : α} {b : UInt8} {r : Bytes}
    (hb : isBlank b = false) (h : Gives (read (b :: r)) x rest) :
    Gives (fromToken read (b :: r)) x rest := by
  have hread : Gives (read (skipBlank (b :: r))) x rest := by rwa [skipBlank_cons hb]
  exact hread.within (length_skipBlank_le (b :: r))

theorem word_append (expected rest : Bytes) :
    ∃ within, word expected (expected ++ rest) = .ok ⟨rest, within⟩ := by
  induction expected with
  | nil => exact ⟨Nat.le_refl _, rfl⟩
  | cons b expected ih =>
    obtain ⟨within, ih⟩ := ih
    refine ⟨Nat.le_succ_of_le within, ?_⟩
    show word (b :: expected) (b :: (expected ++ rest)) = _
    rw [word, if_pos rfl, ih]
    rfl

theorem gives_constant (x : α) (first : UInt8) (expected rest : Bytes) :
    Gives (constant x first expected (expected ++ rest)) x rest := by
  obtain ⟨within, h⟩ := word_append expected rest
  refine ⟨Nat.lt_succ_of_le within, ?_⟩
  rw [constant, h]
  rfl

/-! ## Values -/

/-- What stands behind a value in a document: nothing, or what ends an item or a member. -/
def Follows (rest : Bytes) : Prop :=
  ∀ b ∈ rest.head?, b = comma ∨ b = closeBracket ∨ b = closeBrace

theorem follows_nil : Follows [] := by
  intro b hb
  cases hb

theorem follows_cons {b : UInt8} (h : b = comma ∨ b = closeBracket ∨ b = closeBrace) (r : Bytes) :
    Follows (b :: r) := by
  intro c hc
  obtain rfl : b = c := by simpa using hc
  exact h

/-- A reader takes the value `x` from the text in front of what may follow a value. The text starts
with a token that is not the end of a list, so that it may be an item of one. -/
structure Reads (read : Reader α) (text : Bytes) (x : α) : Prop where
  starts : ∃ b r, text = b :: r ∧ isBlank b = false ∧ b ≠ closeBracket
  gives : ∀ rest, Follows rest → Gives (read (text ++ rest)) x rest

/-- A document with nothing behind it is read as a whole. -/
theorem Reads.whole_eq {read : Reader α} {text : Bytes} {x : α} (h : Reads read text x) :
    whole read text = .ok x := by
  have hread := h.gives [] follows_nil
  rw [List.append_nil] at hread
  obtain ⟨shorter, hread⟩ := hread
  rw [whole, hread]
  rfl

end Reader

end ApplianceRest.Json
