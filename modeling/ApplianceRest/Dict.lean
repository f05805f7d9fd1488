/-!
# Dictionaries in key order

Values under distinct text keys, kept in the order of the keys. Keys compare character by character
by code point, which is also the order of their UTF-8 bytes.

* `Dict.get?_insert_self` and `Dict.get?_insert_of_ne`: a key has the value that was last put under
  it.
* `Dict.ext_get?`: dictionaries with the same value under every key are equal.
-/

namespace ApplianceRest

/-- Values under distinct keys, in ascending key order. -/
structure Dict (α : Type) where
  entries : List (String × α)
  sorted : entries.Pairwise fun a b => a.1 < b.1

namespace Dict

variable {α β : Type}

/-- The dictionary without entries. -/
def empty : Dict α := ⟨[], .nil⟩

instance : Inhabited (Dict α) := ⟨empty⟩

instance [DecidableEq α] : DecidableEq (Dict α) := fun a b =>
  decidable_of_iff (a.entries = b.entries) (by cases a; cases b; simp)

theorem ext {a b : Dict α} (h : a.entries = b.entries) : a = b := by
  cases a; cases b; simp_all

/-- The value under a key. -/
def get? (d : Dict α) (key : String) : Option α := d.entries.lookup key

/-- The keys in order. -/
def keys (d : Dict α) : List String := d.entries.map (·.1)

/-- The values in the order of their keys. -/
def values (d : Dict α) : List α := d.entries.map (·.2)

/-- Puts a value under a key in a list of entries in key order, in place of one that is there. -/
def insertEntry (key : String) (value : α) : List (String × α) → List (String × α)
  | [] => [(key, value)]
  | (k, v) :: rest =>
    if key < k then (key, value) :: (k, v) :: rest
    else if key = k then (key, value) :: rest
    else (k, v) :: insertEntry key value rest

theorem mem_insertEntry {key : String} {value : α} {entries : List (String × α)}
    {e : String × α} (h : e ∈ insertEntry key value entries) :
    e = (key, value) ∨ e ∈ entries := by
  induction entries with
  | nil => simpa [insertEntry] using h
  | cons head rest ih =>
    obtain ⟨k, v⟩ := head
    unfold insertEntry at h
    split at h
    · simpa using h
    · split at h
      · rcases List.mem_cons.1 h with h | h <;> simp [h]
      · rcases List.mem_cons.1 h with h | h
        · simp [h]
        · rcases ih h with h | h <;> simp [h]

theorem sorted_insertEntry {key : String} {value : α} {entries : List (String × α)}
    (h : entries.Pairwise fun a b => a.1 < b.1) :
    (insertEntry key value entries).Pairwise fun a b => a.1 < b.1 := by
  induction entries with
  | nil => simp [insertEntry]
  | cons head rest ih =>
    obtain ⟨k, v⟩ := head
    obtain ⟨hhead, hrest⟩ := List.pairwise_cons.1 h
    unfold insertEntry
    split
    · next hlt =>
      refine List.pairwise_cons.2 ⟨fun e he => ?_, h⟩
      rcases List.mem_cons.1 he with rfl | he
      · exact hlt
      · exact String.lt_trans hlt (hhead e he)
    · next hlt =>
      split
      · next heq => exact List.pairwise_cons.2 ⟨fun e he => heq ▸ hhead e he, hrest⟩
      · next hne =>
        refine List.pairwise_cons.2 ⟨fun e he => ?_, ih hrest⟩
        rcases mem_insertEntry he with rfl | he
        · rcases Decidable.em (k < key) with hk | hk
          · exact hk
          · exact absurd (String.le_antisymm hk hlt) hne
        · exact hhead e he

/-- Puts a value under a key, in place of one that is there. -/
def insert (d : Dict α) (key : String) (value : α) : Dict α :=
  ⟨insertEntry key value d.entries, sorted_insertEntry d.sorted⟩

/-- A key above all others goes to the end. -/
theorem insertEntry_of_lt {key : String} {entries : List (String × α)}
    (h : ∀ e ∈ entries, e.1 < key) (value : α) :
    insertEntry key value entries = entries ++ [(key, value)] := by
  induction entries with
  | nil => rfl
  | cons head rest ih =>
    obtain ⟨k, v⟩ := head
    obtain ⟨hk, hrest⟩ := List.forall_mem_cons.mp h
    have hlt : ¬ key < k := String.lt_asymm hk
    have hne : key ≠ k := fun heq => String.lt_irrefl k (heq ▸ hk)
    rw [insertEntry, if_neg hlt, if_neg hne, ih hrest, List.cons_append]

/-! Looking a key up sees the last value that was put under it. -/

theorem lookup_insertEntry_self (key : String) (value : α) (entries : List (String × α)) :
    (insertEntry key value entries).lookup key = some value := by
  induction entries with
  | nil => simp [insertEntry]
  | cons head rest ih =>
    obtain ⟨k, v⟩ := head
    unfold insertEntry
    split
    · simp
    · split
      · simp
      · next hne =>
        have : (key == k) = false := by simpa using hne
        simp [List.lookup_cons, this, ih]

theorem lookup_insertEntry_of_ne {key other : String} (h : other ≠ key) (value : α)
    (entries : List (String × α)) :
    (insertEntry key value entries).lookup other = entries.lookup other := by
  have hother : (other == key) = false := by simpa using h
  induction entries with
  | nil => simp [insertEntry, List.lookup_cons, hother]
  | cons head rest ih =>
    obtain ⟨k, v⟩ := head
    unfold insertEntry
    split
    · simp [List.lookup_cons, hother]
    · split
      · next heq => subst heq; simp [List.lookup_cons, hother]
      · simp [List.lookup_cons, ih]

@[simp] theorem get?_empty (key : String) : (empty : Dict α).get? key = none := rfl

@[simp] theorem get?_insert_self (d : Dict α) (key : String) (value : α) :
    (d.insert key value).get? key = some value :=
  lookup_insertEntry_self key value d.entries

theorem get?_insert_of_ne (d : Dict α) {key other : String} (h : other ≠ key) (value : α) :
    (d.insert key value).get? other = d.get? other :=
  lookup_insertEntry_of_ne h value d.entries

/-! Looking up all keys sees everything that is there. -/

/-- Below all other keys there is nothing. -/
theorem lookup_of_lt {key : String} {entries : List (String × α)} (h : ∀ e ∈ entries, key < e.1) :
    entries.lookup key = none := by
  rw [List.lookup_eq_none_iff]
  intro entry hentry
  have hne : key ≠ entry.1 := fun heq => String.lt_irrefl _ (heq ▸ h entry hentry)
  simpa using hne

/-- A key that is found is not below the first one. -/
theorem le_of_lookup {key k : String} {v w : α} {rest : List (String × α)}
    (hrest : ∀ e ∈ rest, k < e.1) (h : ((k, w) :: rest).lookup key = some v) : k ≤ key := by
  intro hlt
  have hall : ∀ e ∈ (k, w) :: rest, key < e.1 :=
    List.forall_mem_cons.mpr ⟨hlt, fun e he => String.lt_trans hlt (hrest e he)⟩
  rw [lookup_of_lt hall] at h
  cases h

theorem entries_eq_of_lookup_eq {a b : List (String × α)} (ha : a.Pairwise fun x y => x.1 < y.1)
    (hb : b.Pairwise fun x y => x.1 < y.1) (h : ∀ key, a.lookup key = b.lookup key) : a = b := by
  induction a generalizing b with
  | nil =>
    cases b with
    | nil => rfl
    | cons entry rest =>
      have hkey := h entry.1
      rw [List.lookup_cons_self] at hkey
      cases hkey
  | cons first as ih =>
    obtain ⟨k, v⟩ := first
    obtain ⟨hfirst, has⟩ := List.pairwise_cons.mp ha
    have hhere := (h k).symm
    rw [List.lookup_cons_self] at hhere
    cases b with
    | nil => cases hhere
    | cons other bs =>
      obtain ⟨l, w⟩ := other
      obtain ⟨hother, hbs⟩ := List.pairwise_cons.mp hb
      have hthere := h l
      rw [List.lookup_cons_self] at hthere
      -- each of the least keys is found on the other side
      have hle : k ≤ l := le_of_lookup hfirst hthere
      have hge : l ≤ k := le_of_lookup hother hhere
      obtain rfl : k = l := String.le_antisymm hle hge
      rw [List.lookup_cons_self, Option.some.injEq] at hhere
      subst hhere
      have hrest : ∀ key, as.lookup key = bs.lookup key := by
        intro key
        by_cases hkey : key = k
        · subst hkey
          rw [lookup_of_lt hfirst, lookup_of_lt hother]
        · have hfar : (key == k) = false := by simpa using hkey
          have hboth := h key
          rw [List.lookup_cons, List.lookup_cons, hfar] at hboth
          exact hboth
      rw [ih has hbs hrest]

theorem ext_get? {a b : Dict α} (h : ∀ key, a.get? key = b.get? key) : a = b :=
  ext (entries_eq_of_lookup_eq a.sorted b.sorted h)

/-- Under two different keys values may be put in either order. -/
theorem insert_comm (d : Dict α) {key other : String} (h : key ≠ other) (value value' : α) :
    (d.insert key value).insert other value' = (d.insert other value').insert key value := by
  apply ext_get?
  intro k
  by_cases hother : k = other
  · subst hother
    rw [get?_insert_self, get?_insert_of_ne _ h.symm, get?_insert_self]
  · rw [get?_insert_of_ne _ hother]
    by_cases hkey : k = key
    · subst hkey
      rw [get?_insert_self, get?_insert_self]
    · rw [get?_insert_of_ne _ hkey, get?_insert_of_ne _ hkey, get?_insert_of_ne _ hother]

/-- The same keys with other values. -/
def map (f : α → β) (d : Dict α) : Dict β :=
  ⟨d.entries.map fun e => (e.1, f e.2), by
    have h := d.sorted
    rw [List.pairwise_map]
    exact h⟩

theorem map_map {γ : Type} (f : α → β) (g : β → γ) (d : Dict α) :
    (d.map f).map g = d.map (g ∘ f) := by
  apply ext
  simp [map]

theorem map_id_of {f : α → α} (h : ∀ a, f a = a) (d : Dict α) : d.map f = d := by
  apply ext
  simp [map, h]

end Dict

end ApplianceRest
