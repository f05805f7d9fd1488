import ApplianceRest.Proofs.Json.Numbers
import ApplianceRest.Proofs.Json.Strings

/-!
# Nested values are read back

A value that need not be there is read as `null` or as itself. The items of a list and the members
of an object are read one after another, each up to what stands behind it. For a list every item has
to be one that its reader reads (`reads_listValue`); for an object every member has to be one that
takes what was read before it a step on (`ReadsMembers`).
-/

namespace ApplianceRest.Json.Reader

open Text (bytes bytes_append bytes_cons)

variable {α β σ : Type} {read : Reader α} {s r rest t : Bytes} {x : α} {xs : List α}

/-! ## Truth values and options -/

theorem reads_flagValue (b : Bool) : Reads flagValue (Json.boolean b).toBytes b := by
  cases b with
  | true =>
    refine ⟨⟨0x74, rueWord, rfl, by decide⟩, fun rest _ => ?_⟩
    show Gives (flagValue (0x74 :: (rueWord ++ rest))) true rest
    refine gives_fromToken (by decide) ?_
    exact gives_constant true 0x74 rueWord rest
  | false =>
    refine ⟨⟨0x66, alseWord, rfl, by decide⟩, fun rest _ => ?_⟩
    show Gives (flagValue (0x66 :: (alseWord ++ rest))) false rest
    refine gives_fromToken (by decide) ?_
    exact gives_constant false 0x66 alseWord rest

theorem reads_optionalValue_none : Reads (optionalValue read) Json.null.toBytes none := by
  refine ⟨⟨0x6E, ullWord, rfl, by decide⟩, fun rest _ => ?_⟩
  show Gives (optionalValue read (0x6E :: (ullWord ++ rest))) none rest
  refine gives_fromToken (by decide) ?_
  exact gives_constant none 0x6E ullWord rest

/-- A value that is not written as `null` would be is read as a value. -/
theorem reads_optionalValue_some (h : Reads read t x) (hnull : t.head? ≠ some 0x6E) :
    Reads (optionalValue read) t (some x) := by
  obtain ⟨b, r, htext, hblank, hclose⟩ := h.starts
  refine ⟨⟨b, r, htext, hblank, hclose⟩, fun rest hrest => ?_⟩
  have hread := h.gives rest hrest
  have hb : b ≠ 0x6E := by
    rintro rfl
    exact hnull (by rw [htext, List.head?_cons])
  rw [htext] at hread ⊢
  refine gives_fromToken hblank ?_
  simp only [if_neg hb]
  exact hread.map some

/-! ## Lists -/

theorem nextItem_last (atStart : Bool) (hs : skipBlank s = closeBracket :: rest) :
    ∃ shorter, nextItem atStart s = .ok (.last rest shorter) := by
  refine ⟨length_lt_of_skipBlank hs, ?_⟩
  unfold nextItem
  split
  · next hnil => rw [hs] at hnil; cases hnil
  · next hcons =>
    rw [hs] at hcons
    cases hcons
    rw [if_pos rfl]

theorem nextItem_first {b : UInt8} (hs : skipBlank s = b :: r) (hclose : b ≠ closeBracket) :
    ∃ within, nextItem true s = .ok (.item (b :: r) within) := by
  refine ⟨hs ▸ length_skipBlank_le s, ?_⟩
  unfold nextItem
  split
  · next hnil => rw [hs] at hnil; cases hnil
  · next hcons =>
    rw [hs] at hcons
    cases hcons
    rw [if_neg hclose, if_pos rfl]

theorem nextItem_comma {b : UInt8} (hs : skipBlank s = comma :: t) (ht : skipBlank t = b :: r)
    (hclose : b ≠ closeBracket) : ∃ within, nextItem false s = .ok (.item (b :: r) within) := by
  have hlength : (b :: r).length ≤ t.length := ht ▸ length_skipBlank_le t
  refine ⟨Nat.le_trans hlength (Nat.le_of_lt (length_lt_of_skipBlank hs)), ?_⟩
  unfold nextItem
  split
  · next hnil => rw [hs] at hnil; cases hnil
  · next hcons =>
    rw [hs] at hcons
    cases hcons
    rw [if_neg (by decide), if_neg (by decide), if_pos rfl]
    split
    · next hnil => rw [ht] at hnil; cases hnil
    · next hcons =>
      rw [ht] at hcons
      cases hcons
      rw [if_neg hclose]

theorem gives_items_last (atStart : Bool) (hs : skipBlank s = closeBracket :: rest) :
    Gives (items read atStart s) [] rest := by
  obtain ⟨shorter, hnext⟩ := nextItem_last atStart hs
  rw [items, hnext]
  exact ⟨shorter, rfl⟩

theorem gives_items_item {atStart : Bool} {within}
    (hnext : nextItem atStart s = .ok (.item t within)) (hitem : Gives (read t) x r)
    (hitems : Gives (items read false r) xs rest) :
    Gives (items read atStart s) (x :: xs) rest := by
  rw [items, hnext]
  refine hitem.bind fun shorter => hitems.bind fun shorter' => ⟨_, rfl⟩

/-- The text behind an item: a comma and the next item, or the closing bracket. -/
theorem bytes_restChars_cons (item : Json) (items : List Json) :
    bytes (restChars (item :: items)) = comma :: (item.toBytes ++ bytes (restChars items)) := by
  rw [restChars, List.cons_append, bytes_cons, bytes_append]
  rfl

theorem toBytes_array_cons (item : Json) (items : List Json) :
    (Json.array (item :: items)).toBytes =
      openBracket :: (item.toBytes ++ bytes (restChars items)) := by
  show bytes (chars (.array (item :: items))) = _
  rw [chars, List.cons_append, bytes_cons, bytes_append]
  rfl

theorem head?_toBytes_array (items : List Json) :
    (Json.array items).toBytes.head? = some openBracket := by
  cases items with
  | nil => rfl
  | cons item items => rw [toBytes_array_cons, List.head?_cons]

theorem follows_restChars (items : List Json) (rest : Bytes) :
    Follows (bytes (restChars items) ++ rest) := by
  cases items with
  | nil => exact follows_cons (.inr (.inl rfl)) rest
  | cons item items =>
    rw [bytes_restChars_cons]
    exact follows_cons (.inl rfl) _

section List

variable {doc : β → Json} {f : β → α} (hitem : ∀ y, Reads read (doc y).toBytes (f y))

include hitem

theorem gives_items_rest (ys : List β) (rest : Bytes) :
    Gives (items read false (bytes (restChars (ys.map doc)) ++ rest)) (ys.map f) rest := by
  induction ys with
  | nil => exact gives_items_last false (skipBlank_cons (by decide) rest)
  | cons y ys ih =>
    obtain ⟨b, r, htext, hblank, hclose⟩ := (hitem y).starts
    obtain ⟨within, hnext⟩ :=
      nextItem_comma (skipBlank_cons (by decide) _)
        (skipBlank_cons hblank (r ++ (bytes (restChars (ys.map doc)) ++ rest))) hclose
    -- behind the item stands the text of the others, and that may follow a value
    have hread := (hitem y).gives _ (follows_restChars (ys.map doc) rest)
    rw [htext] at hread
    rw [List.map_cons, List.map_cons, bytes_restChars_cons, htext, List.cons_append,
      List.append_assoc]
    exact gives_items_item hnext hread ih

/-- A list is read back if its items are. -/
theorem reads_listValue (ys : List β) :
    Reads (listValue read) (Json.array (ys.map doc)).toBytes (ys.map f) := by
  cases ys with
  | nil =>
    refine ⟨⟨openBracket, [closeBracket], rfl, by decide⟩, fun rest _ => ?_⟩
    show Gives (listValue read (openBracket :: closeBracket :: rest)) [] rest
    refine gives_fromToken (by decide) ?_
    exact (gives_items_last true (skipBlank_cons (by decide) rest)).behind openBracket
  | cons y ys =>
    have htext := toBytes_array_cons (doc y) (ys.map doc)
    refine ⟨⟨openBracket, _, htext, by decide⟩, fun rest _ => ?_⟩
    obtain ⟨b, r, hfirst, hblank, hclose⟩ := (hitem y).starts
    obtain ⟨within, hnext⟩ :=
      nextItem_first (skipBlank_cons hblank (r ++ (bytes (restChars (ys.map doc)) ++ rest))) hclose
    have hread := (hitem y).gives _ (follows_restChars (ys.map doc) rest)
    rw [hfirst] at hread
    rw [List.map_cons, htext, hfirst, List.cons_append, List.append_assoc]
    refine gives_fromToken (by decide) ?_
    exact (gives_items_item hnext hread (gives_items_rest hitem ys rest)).behind openBracket

end List

/-! ## Objects -/

theorem nextMember_last (atStart : Bool) (hs : skipBlank s = closeBrace :: rest) :
    ∃ shorter, nextMember atStart s = .ok (.last rest shorter) := by
  refine ⟨length_lt_of_skipBlank hs, ?_⟩
  unfold nextMember
  split
  · next hnil => rw [hs] at hnil; cases hnil
  · next hcons =>
    rw [hs] at hcons
    cases hcons
    rw [if_pos rfl]

theorem nextMember_first (hs : skipBlank s = quote :: r) :
    ∃ shorter, nextMember true s = .ok (.member r shorter) := by
  refine ⟨length_lt_of_skipBlank hs, ?_⟩
  unfold nextMember
  split
  · next hnil => rw [hs] at hnil; cases hnil
  · next hcons =>
    rw [hs] at hcons
    cases hcons
    rw [if_neg (by decide), if_pos rfl, if_pos rfl]

theorem nextMember_comma (hs : skipBlank s = comma :: t) (ht : skipBlank t = quote :: r) :
    ∃ shorter, nextMember false s = .ok (.member r shorter) := by
  refine ⟨Nat.lt_trans (length_lt_of_skipBlank ht) (length_lt_of_skipBlank hs), ?_⟩
  unfold nextMember
  split
  · next hnil => rw [hs] at hnil; cases hnil
  · next hcons =>
    rw [hs] at hcons
    cases hcons
    rw [if_neg (by decide), if_neg (by decide), if_pos rfl]
    split
    · next hnil => rw [ht] at hnil; cases hnil
    · next hcons =>
      rw [ht] at hcons
      cases hcons
      rw [if_pos rfl]

/-- A value is read from behind its colon. -/
theorem gives_memberValue (hs : skipBlank s = colon :: r) (h : Gives (read r) x rest) :
    Gives (memberValue read s) x rest := by
  unfold memberValue
  split
  · next hnil => rw [hs] at hnil; cases hnil
  · next hcons =>
    rw [hs] at hcons
    cases hcons
    rw [if_pos rfl]
    exact h.within _

variable {step : String → σ → Reader σ} {acc next last : σ}

theorem gives_members_last (atStart : Bool) (hs : skipBlank s = closeBrace :: rest) :
    Gives (members step atStart acc s) acc rest := by
  obtain ⟨shorter, hnext⟩ := nextMember_last atStart hs
  rw [members, hnext]
  exact ⟨shorter, rfl⟩

theorem gives_members_member {atStart : Bool} {r' : Bytes} {key : String} {shorter}
    (hnext : nextMember atStart s = .ok (.member t shorter)) (hkey : Gives (string t) key r)
    (hstep : Gives (step key acc r) next r')
    (hmembers : Gives (members step false next r') last rest) :
    Gives (members step atStart acc s) last rest := by
  rw [members, hnext]
  refine hkey.bind fun _ => hstep.bind fun _ => hmembers.bind fun _ => ⟨_, rfl⟩

/-- A member takes what was read before it from `acc` to `next`. -/
def ReadsMember (step : String → σ → Reader σ) (member : String × Json) (acc next : σ) : Prop :=
  ∀ rest, Follows rest → Gives (step member.1 acc (colon :: (member.2.toBytes ++ rest))) next rest

/-- The members of an object take what was read before them from one value to another, one step
each. -/
inductive ReadsMembers (step : String → σ → Reader σ) : List (String × Json) → σ → σ → Prop
  | nil (acc : σ) : ReadsMembers step [] acc acc
  | cons {member : String × Json} {members : List (String × Json)} {acc next last : σ}
      (head : ReadsMember step member acc next) (tail : ReadsMembers step members next last) :
      ReadsMembers step (member :: members) acc last

/-- The text of a member from its key on. -/
def memberBytes (member : String × Json) : Bytes :=
  bytes (stringChars member.1) ++ colon :: member.2.toBytes

theorem memberBytes_append (member : String × Json) (rest : Bytes) : memberBytes member ++ rest =
    quote :: (bytes (member.1.toList.flatMap escapedChar) ++
      quote :: colon :: (member.2.toBytes ++ rest)) := by
  rw [memberBytes, List.append_assoc, bytes_stringChars]
  rfl

/-- The text behind a member: a comma and the next member, or the closing brace. -/
theorem bytes_restMemberChars_cons (member : String × Json) (members : List (String × Json)) :
    bytes (restMemberChars (member :: members)) =
      comma :: (memberBytes member ++ bytes (restMemberChars members)) := by
  obtain ⟨key, value⟩ := member
  rw [restMemberChars, bytes_append, List.cons_append, bytes_cons, bytes_append, bytes_cons]
  rfl

theorem toBytes_object_cons (member : String × Json) (members : List (String × Json)) :
    (Json.object (member :: members)).toBytes =
      openBrace :: (memberBytes member ++ bytes (restMemberChars members)) := by
  obtain ⟨key, value⟩ := member
  show bytes (chars (.object ((key, value) :: members))) = _
  rw [chars, bytes_append, List.cons_append, bytes_cons, bytes_append, bytes_cons]
  rfl

theorem head?_toBytes_object (members : List (String × Json)) :
    (Json.object members).toBytes.head? = some openBrace := by
  cases members with
  | nil => rfl
  | cons member members => rw [toBytes_object_cons, List.head?_cons]

theorem follows_restMemberChars (members : List (String × Json)) (rest : Bytes) :
    Follows (bytes (restMemberChars members) ++ rest) := by
  cases members with
  | nil => exact follows_cons (.inr (.inr rfl)) rest
  | cons member members =>
    rw [bytes_restMemberChars_cons]
    exact follows_cons (.inl rfl) _

theorem gives_members_rest {ms : List (String × Json)} (h : ReadsMembers step ms acc last)
    (rest : Bytes) :
    Gives (members step false acc (bytes (restMemberChars ms) ++ rest)) last rest := by
  induction h with
  | nil acc => exact gives_members_last false (skipBlank_cons (by decide) rest)
  | @cons member ms acc next last head tail ih =>
    rw [bytes_restMemberChars_cons, List.cons_append, List.append_assoc, memberBytes_append]
    obtain ⟨shorter, hnext⟩ := nextMember_comma (skipBlank_cons (by decide) _)
      (skipBlank_cons (by decide) (bytes (member.1.toList.flatMap escapedChar) ++
        quote :: colon :: (member.2.toBytes ++ (bytes (restMemberChars ms) ++ rest))))
    exact gives_members_member hnext (gives_string member.1 _)
      (head _ (follows_restMemberChars ms rest)) ih

/-- An object is read from behind its opening brace if each member takes what was read before it a
step on. -/
theorem gives_members {ms : List (String × Json)} (h : ReadsMembers step ms acc last) :
    ∃ t, (Json.object ms).toBytes = openBrace :: t ∧
      ∀ rest, Gives (members step true acc (t ++ rest)) last rest := by
  cases h with
  | nil acc =>
    exact ⟨[closeBrace], rfl, fun rest => gives_members_last true (skipBlank_cons (by decide) rest)⟩
  | @cons member ms acc next last head tail =>
    refine ⟨_, toBytes_object_cons member ms, fun rest => ?_⟩
    rw [List.append_assoc, memberBytes_append]
    obtain ⟨shorter, hnext⟩ := nextMember_first (skipBlank_cons (by decide)
      (bytes (member.1.toList.flatMap escapedChar) ++
        quote :: colon :: (member.2.toBytes ++ (bytes (restMemberChars ms) ++ rest))))
    exact gives_members_member hnext (gives_string member.1 _)
      (head _ (follows_restMemberChars ms rest)) (gives_members_rest tail rest)

end ApplianceRest.Json.Reader
