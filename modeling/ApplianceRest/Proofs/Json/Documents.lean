import ApplianceRest.Proofs.Json.Passing

/-!
# Values of an expected type are documents

What is read where one type is expected is read where any is: as the document that stands for the
value. The same holds of the values that an object has under its keys, and so an object is a row of
members, each with the document that its value denotes (`objectMembers?`).
-/

namespace ApplianceRest.Json

/-! ## Machine words -/

/-- A machine word that a number was read as holds that number. -/
theorem Word.toInt_of_ofInt? {w : Word} {i : Int} {x : w.Value} (h : w.ofInt? i = some x) :
    w.toInt x = i := by
  have hmin : Int64.minValue.toInt = -9223372036854775808 := by decide
  have hmax : Int64.maxValue.toInt = 9223372036854775807 := by decide
  cases w with
  | i64 =>
    rw [ofInt?] at h
    split at h
    · next hi =>
      cases h
      exact Int64.toInt_ofInt_of_le (by omega) (by omega)
    · cases h
  | u32 =>
    rw [ofInt?] at h
    split at h
    · next hi =>
      cases h
      have hlt : i.toNat < UInt32.size := by omega
      rw [toInt, UInt32.toNat_ofNat_of_lt' hlt]
      exact Int.toNat_of_nonneg hi.1
    · cases h
  | u64 =>
    rw [ofInt?] at h
    split at h
    · next hi =>
      cases h
      have hlt : i.toNat < UInt64.size := by omega
      rw [toInt, UInt64.toNat_ofNat_of_lt' hlt]
      exact Int.toNat_of_nonneg hi.1
    · cases h

namespace Reader

variable {α : Type} {read : Reader α} {s r rest : Bytes} {depth : Nat}

/-! ## Values of an expected type -/

theorem document_eq (depth : Nat) : ∃ nested, document depth = value nested := by
  cases depth with
  | zero => exact ⟨none, rfl⟩
  | succ depth => exact ⟨some (document depth), rfl⟩

theorem gives_document_text {t : String} (h : Gives (textValue s) t rest) :
    Gives (document depth s) (.text t) rest := by
  obtain ⟨nested, hdocument⟩ := document_eq depth
  obtain ⟨r, hs, hstring⟩ := gives_textValue_iff.mp h
  rw [hdocument, value, gives_fromToken_iff, hs]
  dsimp only
  rw [if_neg (by decide), if_neg (by decide), if_neg (by decide), if_neg (by decide), if_pos rfl]
  exact hstring.map_behind Json.text quote

theorem gives_document_flag {b : Bool} (h : Gives (flagValue s) b rest) :
    Gives (document depth s) (.boolean b) rest := by
  obtain ⟨nested, hdocument⟩ := document_eq depth
  rcases gives_flagValue_iff.mp h with ⟨rfl, hs⟩ | ⟨rfl, hs⟩
  · rw [hdocument, value, gives_fromToken_iff, hs]
    dsimp only
    rw [if_neg (by decide), if_pos rfl]
    exact gives_constant (Json.boolean true) 0x74 rueWord rest
  · rw [hdocument, value, gives_fromToken_iff, hs]
    dsimp only
    rw [if_neg (by decide), if_neg (by decide), if_pos rfl]
    exact gives_constant (Json.boolean false) 0x66 alseWord rest

theorem gives_document_word {w : Word} {x : w.Value} (h : Gives (wordValue w s) x rest) :
    Gives (document depth s) (.number (.whole (w.toInt x))) rest := by
  obtain ⟨nested, hdocument⟩ := document_eq depth
  obtain ⟨b, r, i, hs, hb, hnumber, hi⟩ := gives_wordValue_iff.mp h
  rw [hdocument, value, gives_fromToken_iff, hs]
  dsimp only
  rw [if_neg (ne_of_startsNumber hb (by decide)), if_neg (ne_of_startsNumber hb (by decide)),
    if_neg (ne_of_startsNumber hb (by decide)), if_pos hb, Word.toInt_of_ofInt? hi]
  exact hnumber.map Json.number

section Nested

variable {f : α → Json}

/-- A value that need not be there is a document if it is one where it is. -/
theorem gives_document_option
    (hread : ∀ {s x rest}, Gives (read s) x rest → Gives (document depth s) (f x) rest)
    {x : Option α} (h : Gives (optionalValue read s) x rest) :
    Gives (document depth s) ((x.map f).getD .null) rest := by
  obtain ⟨nested, hdocument⟩ := document_eq depth
  rcases gives_optionalValue_iff.mp h with ⟨rfl, hs⟩ | ⟨-, y, rfl, hy⟩
  · rw [hdocument, value, gives_fromToken_iff, hs]
    dsimp only
    rw [if_pos rfl]
    exact gives_constant Json.null 0x6E ullWord rest
  · -- a value that is there starts at the token
    have hvalue := hread hy
    rw [hdocument] at hvalue ⊢
    exact gives_fromToken_skipBlank.mp hvalue

/-- A list is a document if its items are. -/
theorem gives_document_list
    (hread : ∀ {s x rest}, Gives (read s) x rest → Gives (document depth s) (f x) rest)
    {xs : List α} (h : Gives (listValue read s) xs rest) :
    Gives (document (depth + 1) s) (.array (xs.map f)) rest := by
  obtain ⟨r, hs, hitems⟩ := gives_listValue_iff.mp h
  rw [document, value, gives_fromToken_iff, hs]
  dsimp only
  rw [if_neg (by decide), if_neg (by decide), if_neg (by decide), if_neg (by decide),
    if_neg (by decide), if_pos rfl]
  exact (gives_items_along hread hitems).map_behind Json.array openBracket

end Nested

/-! ## Objects -/

/-- Passes over a value, and keeps the document that it denotes. One that nests too deep, or that
holds a number out of range or a string that is no text, denotes none. -/
def denoted : Reader (Option Json) := fun s =>
  (skip s).map (·.map fun _ => (document greatestDepth s).toOption.map (·.value))

theorem gives_denoted {d : Json} (h : Gives (document greatestDepth s) d rest) :
    Gives (denoted s) (some d) rest := by
  have hskip := (gives_skip_of_document h).map
    fun _ => (document greatestDepth s).toOption.map (·.value)
  obtain ⟨_, h⟩ := h
  rw [h] at hskip
  rw [denoted, h]
  exact hskip

/-- Puts a member behind those that have been found. -/
def collect (key : String) (found : List (String × Option Json)) :
    Reader (List (String × Option Json)) := fun s =>
  (memberValue denoted s).map (·.map fun value => found ++ [(key, value)])

/-- The members of an object, in order. -/
def objectMembers : Reader (List (String × Option Json)) := fromToken fun s =>
  match s with
  | [] => .error (.unfinished .value)
  | b :: r =>
    if b = openBrace then (members collect true [] r).map (·.behind b)
    else .error (.malformed .expectedValue)

/-- The members of the object that a text is, in order, each with the document that its value
denotes. -/
def objectMembers? (s : Bytes) : Option (List (String × Option Json)) :=
  (whole objectMembers s).toOption

/-- Whether a document is read from its text, wherever a document may hold it. -/
def IsReadBack (d : Json) : Prop :=
  ∀ rest, Follows rest → Gives (document greatestDepth (d.toBytes ++ rest)) d rest

/-- Members that are read back are found in the order in which they are written. -/
theorem readsMembers_collect {ms : List (String × Json)} (h : ∀ m ∈ ms, IsReadBack m.2)
    (found : List (String × Option Json)) :
    ReadsMembers collect ms found (found ++ ms.map fun m => (m.1, some m.2)) := by
  induction ms generalizing found with
  | nil =>
    rw [List.map_nil, List.append_nil]
    exact .nil found
  | cons m ms ih =>
    obtain ⟨hm, hms⟩ := List.forall_mem_cons.mp h
    rw [List.map_cons, List.append_cons]
    refine .cons (fun rest hrest => ?_) (ih hms _)
    have hvalue := gives_memberValue (skipBlank_cons (by decide) _) (gives_denoted (hm rest hrest))
    exact hvalue.map fun value => found ++ [(m.1, value)]

/-- The members of an object that was written are those that it was written with. -/
theorem objectMembers?_toBytes {ms : List (String × Json)} (h : ∀ m ∈ ms, IsReadBack m.2) :
    objectMembers? (Json.object ms).toBytes = some (ms.map fun m => (m.1, some m.2)) := by
  obtain ⟨t, htext, hmembers⟩ := gives_members (readsMembers_collect h [])
  have hread : Gives (objectMembers (openBrace :: t)) (ms.map fun m => (m.1, some m.2)) [] := by
    rw [objectMembers]
    refine gives_fromToken (by decide) ?_
    have hgives := hmembers []
    rw [List.append_nil, List.nil_append] at hgives
    dsimp only
    rw [if_pos rfl]
    exact hgives.behind openBrace
  rw [objectMembers?, htext, whole_eq_ok.mpr ⟨[], hread, rfl⟩]
  rfl

end Reader

end ApplianceRest.Json
