import ApplianceRest.Proofs.Json.Framing

/-!
# What a reader makes of a written value

A reader takes a value that is written from the front of a text, and what it makes of the value is
the same wherever the value stands (`Reader.IsReadAs`). Of an atom that is what the atom says; of a
list it is what the items are read as, one by one (`Reader.isReadAs_listValue`); and the members of
an object take what was read before them on, step by step (`Reader.gives_members_iff`).
-/

namespace ApplianceRest.Json

open Reader

variable {α σ : Type} {s t r rest : Bytes} {b : UInt8} {w : Written}

/-! ## The first byte of a value -/

/-- The kinds of values that can be told apart by their first byte. -/
inductive Kind where
  | null
  | boolean (value : Bool)
  | number
  | string
  | list
  | object
deriving DecidableEq

/-- The kind of the values that start with a byte. -/
def Kind.ofByte? (b : UInt8) : Option Kind :=
  if b = 0x6E then some .null
  else if b = 0x74 then some (.boolean true)
  else if b = 0x66 then some (.boolean false)
  else if startsNumber b then some .number
  else if b = quote then some .string
  else if b = openBracket then some .list
  else if b = openBrace then some .object
  else none

theorem Kind.ofByte?_of_startsNumber (hb : startsNumber b = true) : ofByte? b = some .number := by
  unfold ofByte?
  rw [if_neg (ne_of_startsNumber hb (by decide)), if_neg (ne_of_startsNumber hb (by decide)),
    if_neg (ne_of_startsNumber hb (by decide)), if_pos hb]

namespace Written

/-- The kind of a value. -/
def kind : Written → Kind
  | .atom _ .null _ => .null
  | .atom _ (.boolean value) _ => .boolean value
  | .atom _ (.number _) _ => .number
  | .atom _ (.string _) _ => .string
  | .list .. => .list
  | .object .. => .object

/-- The first byte of a value says of which kind it is. -/
theorem kind_of_token (h : w.token ++ r = b :: t) : Kind.ofByte? b = some w.kind := by
  have hhead : ∀ {c u}, w.token = c :: u → b = c := by
    intro c u htext
    rw [htext] at h
    exact (List.cons.inj h).1.symm
  match w with
  | .atom _ .null _ =>
    rw [hhead rfl]
    rfl
  | .atom _ (.boolean true) _ =>
    rw [hhead rfl]
    rfl
  | .atom _ (.boolean false) _ =>
    rw [hhead rfl]
    rfl
  | .atom _ (.number n) _ =>
    rcases n.bytes_eq_cons with ⟨c, u, htext, hc⟩
    rw [hhead htext]
    exact Kind.ofByte?_of_startsNumber hc
  | .atom _ (.string _) _ =>
    rw [hhead rfl]
    rfl
  | .list _ [] _ _ =>
    rw [hhead rfl]
    rfl
  | .list _ (_ :: _) _ _ =>
    rw [hhead rfl]
    rfl
  | .object _ [] _ _ =>
    rw [hhead rfl]
    rfl
  | .object _ (_ :: _) _ _ =>
    rw [hhead rfl]
    rfl

/-- A value that starts as a kind of values do is of that kind. -/
theorem kind_eq {k : Kind} (h : w.token ++ r = b :: t) (hb : Kind.ofByte? b = some k) :
    w.kind = k :=
  Option.some.inj ((kind_of_token h).symm.trans hb)

theorem token_of_atom {a : Atom} (h : w.atom? = some a) : w.token = a.bytes := by
  match w with
  | .atom _ a' _ =>
    cases h
    rw [token]
  | .list .. => cases h
  | .object .. => cases h

end Written

namespace Reader

/-! ## Atoms -/

/-- A reader reads a value up to its end wherever the value stands in a text, and what it reads it
as is what `P` holds of. -/
structure IsReadAs (read : Reader α) (w : Written) (P : α → Prop) : Prop where
  gives_iff : ∀ {s r x rest}, skipBlank s = w.token ++ r → Ends r →
    (Gives (read s) x rest ↔ rest = r ∧ P x)

theorem isReadAs_textValue (w : Written) : IsReadAs textValue w
    fun x => ∃ body, w.atom? = some (.string body) ∧ body.text? = some x := by
  constructor
  intro s r x rest hs _
  rw [gives_textValue_iff, hs]
  constructor
  · rintro ⟨t, ht, h⟩
    have hkind : w.kind = .string := Written.kind_eq ht rfl
    match w, hkind with
    | .atom _ (.string body) _, _ =>
      rw [Written.token, Atom.bytes, List.cons_append, List.append_assoc] at ht
      cases ht
      rcases gives_string_quoted.mp h with ⟨hrest, hx⟩
      exact ⟨hrest, body, rfl, hx⟩
  · rintro ⟨rfl, body, hbody, hx⟩
    rw [Written.token_of_atom hbody, Atom.bytes, List.cons_append, List.append_assoc]
    exact ⟨_, rfl, gives_string_quoted.mpr ⟨rfl, hx⟩⟩

theorem isReadAs_flagValue (w : Written) :
    IsReadAs flagValue w fun x => w.atom? = some (.boolean x) := by
  constructor
  intro s r x rest hs _
  rw [gives_flagValue_iff, hs]
  constructor
  · rintro (⟨rfl, ht⟩ | ⟨rfl, ht⟩)
    · have hkind : w.kind = .boolean true := Written.kind_eq ht rfl
      match w, hkind with
      | .atom _ (.boolean true) _, _ =>
        rw [Written.token, Atom.bytes, List.cons_append] at ht
        exact ⟨(List.append_cancel_left (List.cons.inj ht).2).symm, rfl⟩
    · have hkind : w.kind = .boolean false := Written.kind_eq ht rfl
      match w, hkind with
      | .atom _ (.boolean false) _, _ =>
        rw [Written.token, Atom.bytes, List.cons_append] at ht
        exact ⟨(List.append_cancel_left (List.cons.inj ht).2).symm, rfl⟩
  · rintro ⟨rfl, hx⟩
    rw [Written.token_of_atom hx]
    cases x with
    | true => exact Or.inl ⟨rfl, rfl⟩
    | false => exact Or.inr ⟨rfl, rfl⟩

theorem isReadAs_wordValue (word : Word) (w : Written) : IsReadAs (wordValue word) w
    fun x => ∃ n i, w.atom? = some (.number n) ∧ n.value? = some (.whole i) ∧
      word.ofInt? i = some x := by
  constructor
  intro s r x rest hs hr
  rw [gives_wordValue_iff, hs]
  constructor
  · rintro ⟨b, t, i, ht, hb, h, hi⟩
    have hkind := Written.kind_eq ht (Kind.ofByte?_of_startsNumber hb)
    match w, hkind with
    | .atom _ (.number n) _, _ =>
      rw [← ht, Written.token, Atom.bytes, gives_number_numeral hr] at h
      exact ⟨h.1, n, i, rfl, h.2, hi⟩
  · rintro ⟨rfl, n, i, hn, hvalue, hi⟩
    have h := (gives_number_numeral hr).mpr ⟨rfl, hvalue⟩
    rw [Written.token_of_atom hn, Atom.bytes]
    rcases n.bytes_eq_cons with ⟨b, t, htext, hb⟩
    rw [htext] at h ⊢
    exact ⟨b, _, i, rfl, hb, h, hi⟩

/-- `null` is read as nothing, and any other value as what it is read as without the choice. -/
theorem isReadAs_optionalValue {read : Reader α} {P : α → Prop} (h : IsReadAs read w P) :
    IsReadAs (optionalValue read) w fun x =>
      (x = none ∧ w.atom? = some .null) ∨
        (w.atom? ≠ some .null ∧ ∃ y, x = some y ∧ P y) := by
  constructor
  intro s r x rest hs hr
  have htoken : skipBlank (skipBlank s) = w.token ++ r := by rw [skipBlank_skipBlank, hs]
  have hread : ∀ y, Gives (read (skipBlank s)) y rest ↔ rest = r ∧ P y :=
    fun y => h.gives_iff htoken hr
  -- the reader looks at the first byte only, and no other value starts with the one of `null`
  have hnull : w.atom? = some .null ↔ (w.token ++ r).head? = some 0x6E := by
    constructor
    · intro hw
      rw [Written.token_of_atom hw]
      rfl
    · intro hhead
      rcases w.token_eq_cons with ⟨b, t, htext, -⟩
      rw [htext, List.cons_append, List.head?_cons, Option.some.injEq] at hhead
      have htoken : w.token ++ r = 0x6E :: (t ++ r) := by rw [htext, hhead, List.cons_append]
      have hkind : w.kind = .null := Written.kind_eq htoken rfl
      match w, hkind with
      | .atom _ .null _, _ => rfl
  rw [gives_optionalValue_iff]
  simp only [hread, hs, ne_eq, ← hnull]
  constructor
  · rintro (⟨rfl, ht⟩ | ⟨hw, y, rfl, rfl, hy⟩)
    · have hw := hnull.mpr (by rw [ht]; rfl)
      rw [Written.token_of_atom hw] at ht
      exact ⟨(List.append_cancel_left (List.cons.inj ht).2).symm, Or.inl ⟨rfl, hw⟩⟩
    · exact ⟨rfl, Or.inr ⟨hw, y, rfl, hy⟩⟩
  · rintro ⟨rfl, ⟨rfl, hw⟩ | ⟨hw, y, rfl, hy⟩⟩
    · rw [Written.token_of_atom hw]
      exact Or.inl ⟨rfl, rfl⟩
    · exact Or.inr ⟨hw, y, rfl, rfl, hy⟩

/-! ## Lists -/

/-- Some items stand next in a text, at the start of a list or behind an item of it, and behind
them its closing bracket and `r`. -/
def ItemsAt (atStart : Bool) (s r : Bytes) : List Written → Prop
  | [] => skipBlank s = closeBracket :: r
  | w :: ws => ∃ within, nextItem atStart s =
      .ok (.item (w.token ++ (w.behind.bytes ++ (Written.restItems ws ++ r))) within)

theorem itemsAt_restItems (pad : Blanks) (ws : List Written) (r : Bytes) :
    ItemsAt false (pad.bytes ++ (Written.restItems ws ++ r)) r ws := by
  cases ws with
  | nil =>
    unfold ItemsAt
    rw [skipBlank_blanks]
    exact skipBlank_cons (by decide) r
  | cons w ws =>
    rw [Written.restItems_cons]
    have hitem := skipBlank_before w (w.behind.bytes ++ (Written.restItems ws ++ r))
    rcases w.token_eq_cons with ⟨b, t, htext, -, hbracket, -⟩
    change ∃ within, nextItem false _ = .ok (.item (w.token ++ _) within)
    rw [htext, List.cons_append] at hitem ⊢
    exact nextItem_comma (skipBlank_comma pad _) hitem hbracket

theorem itemsAt_start {ws : List Written} (h : w.items? = some ws) (r : Bytes) :
    ∃ t, w.token ++ r = openBracket :: t ∧ ItemsAt true t r ws := by
  match w with
  | .atom .. => cases h
  | .object .. => cases h
  | .list _ [] inner _ =>
    cases h
    refine ⟨_, Written.token_list_nil r, ?_⟩
    unfold ItemsAt
    rw [skipBlank_blanks]
    exact skipBlank_cons (by decide) r
  | .list _ (w :: ws) _ _ =>
    cases h
    refine ⟨_, Written.token_list_cons w ws r, ?_⟩
    have hitem := skipBlank_before w (w.behind.bytes ++ (Written.restItems ws ++ r))
    rcases w.token_eq_cons with ⟨b, t, htext, -, hbracket, -⟩
    change ∃ within, nextItem true _ = .ok (.item (w.token ++ _) within)
    rw [htext, List.cons_append] at hitem ⊢
    exact nextItem_first hitem hbracket

/-- The items of a list are found behind its opening bracket. -/
theorem itemsAt_of_openBracket (h : w.token ++ r = openBracket :: t) :
    ∃ ws, w.items? = some ws ∧ ItemsAt true t r ws := by
  have hkind : w.kind = .list := Written.kind_eq h rfl
  match w, hkind with
  | .list before ws inner behind, _ =>
    rcases itemsAt_start (w := .list before ws inner behind) rfl r with ⟨t', ht', hitems⟩
    rw [h] at ht'
    cases ht'
    exact ⟨ws, rfl, hitems⟩

/-- The items of a list are read one by one, each as what it is read as on its own. -/
theorem gives_items_iff {read : Reader α} {P : Written → α → Prop}
    (hread : ∀ w, IsReadAs read w (P w)) {atStart : Bool} {ws : List Written} {xs : List α}
    (hs : ItemsAt atStart s r ws) :
    Gives (items read atStart s) xs rest ↔ rest = r ∧ List.Forall₂ P ws xs := by
  induction ws generalizing s atStart xs with
  | nil =>
    have hlast : Gives (items read atStart s) [] r := gives_items_last atStart hs
    constructor
    · intro h
      rcases h.unique hlast with ⟨rfl, rfl⟩
      exact ⟨rfl, List.Forall₂.nil⟩
    · rintro ⟨rfl, h⟩
      cases h
      exact hlast
  | cons w ws ih =>
    rcases hs with ⟨within, hnext⟩
    have hends := ends_blanks w.behind (ends_restItems ws r)
    have hitem : ∀ {x r'}, Gives (read (w.token ++ (w.behind.bytes ++ (Written.restItems ws ++ r))))
        x r' ↔ r' = w.behind.bytes ++ (Written.restItems ws ++ r) ∧ P w x :=
      (hread w).gives_iff (skipBlank_token w _) hends
    have hitems := itemsAt_restItems w.behind ws r
    constructor
    · intro h
      rcases items_cases h with ⟨shorter, hlast, -⟩ | ⟨t, within', x, r', xs', hitem', hx, hxs, rfl⟩
      · -- an item stands next, and not the end of the list
        rw [hnext] at hlast
        cases hlast
      · rw [hnext] at hitem'
        cases hitem'
        rcases hitem.mp hx with ⟨rfl, hfirst⟩
        rcases (ih hitems).mp hxs with ⟨rfl, hothers⟩
        exact ⟨rfl, List.Forall₂.cons hfirst hothers⟩
    · rintro ⟨rfl, h⟩
      cases h with
      | cons hx hxs =>
        exact gives_items_item hnext (hitem.mpr ⟨rfl, hx⟩) ((ih hitems).mpr ⟨rfl, hxs⟩)

theorem isReadAs_listValue {read : Reader α} {P : Written → α → Prop}
    (hread : ∀ w, IsReadAs read w (P w)) (w : Written) : IsReadAs (listValue read) w
      fun xs => ∃ ws, w.items? = some ws ∧ List.Forall₂ P ws xs := by
  constructor
  intro s r xs rest hs _
  rw [gives_listValue_iff, hs]
  constructor
  · rintro ⟨t, ht, h⟩
    rcases itemsAt_of_openBracket ht with ⟨ws, hws, hitems⟩
    rcases (gives_items_iff hread hitems).mp h with ⟨hrest, hxs⟩
    exact ⟨hrest, ws, hws, hxs⟩
  · rintro ⟨rfl, ws, hws, hxs⟩
    rcases itemsAt_start hws rest with ⟨t, ht, hitems⟩
    exact ⟨t, ht, (gives_items_iff hread hitems).mpr ⟨rfl, hxs⟩⟩

/-! ## Objects -/

/-- Some members stand next in a text, at the start of an object or behind a member of it, and
behind them its closing brace and `r`. -/
def MembersAt (atStart : Bool) (s r : Bytes) : List (Key × Written) → Prop
  | [] => skipBlank s = closeBrace :: r
  | (k, w) :: ms => ∃ shorter, nextMember atStart s =
      .ok (.member (k.body.bytes ++ quote :: (k.behind.bytes ++ colon :: (w.before.bytes ++
        (w.token ++ (w.behind.bytes ++ (Written.restMembers ms ++ r)))))) shorter)

theorem membersAt_restMembers (pad : Blanks) (ms : List (Key × Written)) (r : Bytes) :
    MembersAt false (pad.bytes ++ (Written.restMembers ms ++ r)) r ms := by
  cases ms with
  | nil =>
    unfold MembersAt
    rw [skipBlank_blanks]
    exact skipBlank_cons (by decide) r
  | cons m ms =>
    rw [Written.restMembers_cons]
    exact nextMember_comma (skipBlank_comma pad _) (skipBlank_key m.1 _)

theorem membersAt_start {ms : List (Key × Written)} (h : w.members? = some ms) (r : Bytes) :
    ∃ t, w.token ++ r = openBrace :: t ∧ MembersAt true t r ms := by
  match w with
  | .atom .. => cases h
  | .list .. => cases h
  | .object _ [] inner _ =>
    cases h
    refine ⟨_, Written.token_object_nil r, ?_⟩
    unfold MembersAt
    rw [skipBlank_blanks]
    exact skipBlank_cons (by decide) r
  | .object _ ((k, w) :: ms) _ _ =>
    cases h
    exact ⟨_, Written.token_object_cons k w ms r, nextMember_first (skipBlank_key k _)⟩

/-- The members of an object are found behind its opening brace. -/
theorem membersAt_of_openBrace (h : w.token ++ r = openBrace :: t) :
    ∃ ms, w.members? = some ms ∧ MembersAt true t r ms := by
  have hkind : w.kind = .object := Written.kind_eq h rfl
  match w, hkind with
  | .object before ms inner behind, _ =>
    rcases membersAt_start (w := .object before ms inner behind) rfl r with ⟨t', ht', hmembers⟩
    rw [h] at ht'
    cases ht'
    exact ⟨ms, rfl, hmembers⟩

/-- A member whose key says `key` and whose value is `w` takes what was read before it from one
value to another wherever the member stands, just where `T` holds of the two. -/
structure TakesMember (step : String → σ → Reader σ) (T : String → Written → σ → σ → Prop) :
    Prop where
  gives_iff : ∀ {key w acc s r next rest}, skipBlank s = colon :: (w.before.bytes ++
    (w.token ++ r)) → Ends r → (Gives (step key acc s) next rest ↔ rest = r ∧ T key w acc next)

/-- Some members, whose keys are texts, take what was read before them from one value to another,
one after another. -/
def Runs (T : String → Written → σ → σ → Prop) : List (Key × Written) → σ → σ → Prop
  | [], acc, last => last = acc
  | (k, w) :: ms, acc, last =>
    ∃ key next, k.body.text? = some key ∧ T key w acc next ∧ Runs T ms next last

theorem gives_memberValue_iff {read : Reader α} {P : α → Prop} {x : α} (h : IsReadAs read w P)
    (hs : skipBlank s = colon :: (w.before.bytes ++ (w.token ++ r))) (hr : Ends r) :
    Gives (memberValue read s) x rest ↔ rest = r ∧ P x := by
  have hread : Gives (read (w.before.bytes ++ (w.token ++ r))) x rest ↔ rest = r ∧ P x :=
    h.gives_iff (skipBlank_before w r) hr
  constructor
  · intro hvalue
    rcases memberValue_cases hvalue with ⟨t, ht, hx⟩
    rw [hs] at ht
    cases ht
    exact hread.mp hx
  · intro hx
    exact gives_memberValue hs (hread.mpr hx)

/-- The members of an object take what was read before them on, one after another. -/
theorem gives_members_iff {step : String → σ → Reader σ} {T : String → Written → σ → σ → Prop}
    (hstep : TakesMember step T) {atStart : Bool} {ms : List (Key × Written)} {acc last : σ}
    (hs : MembersAt atStart s r ms) :
    Gives (members step atStart acc s) last rest ↔ rest = r ∧ Runs T ms acc last := by
  induction ms generalizing s atStart acc with
  | nil =>
    have hlast : Gives (members step atStart acc s) acc r := gives_members_last atStart hs
    constructor
    · intro h
      rcases h.unique hlast with ⟨rfl, rfl⟩
      exact ⟨rfl, rfl⟩
    · rintro ⟨rfl, rfl⟩
      exact hlast
  | cons m ms ih =>
    rcases m with ⟨k, w⟩
    rcases hs with ⟨shorter, hnext⟩
    have hends := ends_blanks w.behind (ends_restMembers ms r)
    have hcolon : ∀ u, skipBlank (k.behind.bytes ++ colon :: u) = colon :: u := by
      intro u
      rw [skipBlank_blanks, skipBlank_cons (by decide)]
    have hmembers := membersAt_restMembers w.behind ms r
    constructor
    · intro h
      rcases members_cases h with ⟨shorter, hlast, -⟩ |
        ⟨t, shorter', key, r', next, r'', hnext', hkey, hvalue, hrest⟩
      · -- a member stands next, and not the end of the object
        rw [hnext] at hlast
        cases hlast
      · rw [hnext] at hnext'
        cases hnext'
        rcases gives_string_quoted.mp hkey with ⟨rfl, htext⟩
        rcases (hstep.gives_iff (hcolon _) hends).mp hvalue with ⟨rfl, htakes⟩
        rcases (ih hmembers).mp hrest with ⟨rfl, hruns⟩
        exact ⟨rfl, key, next, htext, htakes, hruns⟩
    · rintro ⟨rfl, key, next, htext, htakes, hruns⟩
      exact gives_members_member hnext (gives_string_quoted.mpr ⟨rfl, htext⟩)
        ((hstep.gives_iff (hcolon _) hends).mpr ⟨rfl, htakes⟩) ((ih hmembers).mpr ⟨rfl, hruns⟩)

/-! ## Texts -/

/-- A text that is a value and blanks around it is read as the value is. -/
theorem IsReadAs.whole_eq_ok {read : Reader α} {P : α → Prop} {x : α} (h : IsReadAs read w P) :
    whole read w.bytes = .ok x ↔ P x := by
  have hends : Ends w.behind.bytes := by
    have hblanks := ends_blanks w.behind ends_nil
    rwa [List.append_nil] at hblanks
  have hread : ∀ rest, Gives (read w.bytes) x rest ↔ rest = w.behind.bytes ∧ P x :=
    fun rest => h.gives_iff (skipBlank_before w _) hends
  have hblank : skipBlank w.behind.bytes = [] := by
    have hnil := skipBlank_blanks w.behind []
    rwa [List.append_nil] at hnil
  rw [Reader.whole_eq_ok]
  constructor
  · rintro ⟨rest, hx, -⟩
    exact ((hread rest).mp hx).2
  · intro hx
    exact ⟨_, (hread _).mpr ⟨rfl, hx⟩, hblank⟩

end Reader

end ApplianceRest.Json
