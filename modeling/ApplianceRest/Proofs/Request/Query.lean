import ApplianceRest.Proofs.Request.Hierarchy

/-!
# Reading a query back

The query of a request spells out its parameters. Split at its ampersands, each piece split at its
first equals sign, and both sides decoded (`readQuery?`), it is the list of the parameters in the
order of their keys, the values of one key in the order in which they were set. The deadline stands
among them, in place of any values that were set for its key, and it is the one at which a silent
line is given up.

* `readQuery_intercalate`: what is written as a query is read back.
* `query_spells_parameters`: the query of a run without error.
-/

namespace ApplianceRest.Request

open Http (Method)
open Percent (encodeChars keptInQuery)

/-! ## Reading -/

/-- The two sides of the first equals sign. -/
def splitPair? (piece : List Char) : Option (List Char × List Char) :=
  match piece.dropWhile (· ≠ '=') with
  | [] => none
  | _ :: value => some (piece.takeWhile (· ≠ '='), value)

/-- The parameter that a piece of a query stands for. -/
def readPair? (piece : List Char) : Option (String × String) := do
  let (key, value) ← splitPair? piece
  return (← Percent.decode? (.ofList key), ← Percent.decode? (.ofList value))

/-- The parameters that a query stands for, in order. -/
def readQuery? (query : String) : Option (List (String × String)) :=
  if query = "" then some [] else (query.toList.splitOn '&').mapM readPair?

/-! ## What is to be sent -/

/-- The value that a setting gives for a parameter. -/
def Setting.valueUnder? (key : String) : Setting → Option String
  | .parameter k value => if k = key then some value else none
  | _ => none

/-- The deadline that a setting gives. -/
def Setting.deadline? : Setting → Option Duration
  | .timeout deadline => some deadline
  | _ => none

/-- The values that are given for a parameter, in order. -/
def givenValues (settings : List Setting) (key : String) : List String :=
  settings.filterMap (Setting.valueUnder? key)

/-- The deadline of a request: the last one that is given, else that of the client, else none. -/
def effectiveTimeout (client : Client) (settings : List Setting) : Duration :=
  ((settings.filterMap Setting.deadline?).getLast?.or client.timeout).getD .zero

/-- The values that are sent for a parameter: those that are given, unless it is the one that
carries the deadline and there is a deadline. -/
def sentValues (client : Client) (settings : List Setting) (key : String) : List String :=
  let deadline := effectiveTimeout client settings
  if key = timeoutKey ∧ deadline.isZero = false then [deadline.compound]
  else givenValues settings key

variable {client : Client} {method : Method} {settings : List Setting} {r : Request}

/-! ## Pieces -/

theorem toList_pairText (pair : String × String) :
    (pairText pair).toList =
      encodeChars keptInQuery pair.1.toList ++ '=' :: encodeChars keptInQuery pair.2.toList := by
  rw [pairText, Percent.component, Percent.component, String.toList_append, String.toList_append,
    Percent.toList_encode, Percent.toList_encode, List.append_assoc]
  rfl

/-- No equals sign is left in a key, so the first one is that behind the key. -/
theorem splitPair_pairText (pair : String × String) :
    splitPair? (pairText pair).toList =
      some (encodeChars keptInQuery pair.1.toList, encodeChars keptInQuery pair.2.toList) := by
  have hkey : ∀ c ∈ encodeChars keptInQuery pair.1.toList, decide (c ≠ '=') = true := by
    intro c hc
    have hne : c ≠ '=' := by
      rintro rfl
      exact Percent.mark_not_mem_encodeChars (Or.inr rfl) _ hc
    exact decide_eq_true hne
  have hdrop : (pairText pair).toList.dropWhile (· ≠ '=') =
      '=' :: encodeChars keptInQuery pair.2.toList := by
    rw [toList_pairText, List.dropWhile_append_of_pos hkey]
    exact List.dropWhile_cons_of_neg (by decide)
  have htake : (pairText pair).toList.takeWhile (· ≠ '=') =
      encodeChars keptInQuery pair.1.toList := by
    rw [toList_pairText, List.takeWhile_append_of_pos hkey,
      List.takeWhile_cons_of_neg (by decide), List.append_nil]
  rw [splitPair?, hdrop, htake]

theorem readPair_pairText (pair : String × String) :
    readPair? (pairText pair).toList = some pair := by
  have hkey := Percent.decode_encodeChars Percent.isSafe_keptInQuery pair.1.toList
  have hvalue := Percent.decode_encodeChars Percent.isSafe_keptInQuery pair.2.toList
  rw [readPair?, splitPair_pairText]
  simp only [Option.bind_eq_bind, Option.bind_some, hkey, hvalue, String.ofList_toList]
  rfl

theorem ampersand_not_mem_pairText (pair : String × String) : '&' ∉ (pairText pair).toList := by
  rw [toList_pairText, List.mem_append, List.mem_cons]
  rintro (h | h | h)
  · exact Percent.mark_not_mem_encodeChars (Or.inl rfl) _ h
  · exact absurd h (by decide)
  · exact Percent.mark_not_mem_encodeChars (Or.inl rfl) _ h

/-! ## Queries -/

theorem toList_intercalate_pairText (sent : List (String × String)) :
    ("&".intercalate (sent.map pairText)).toList =
      List.intercalate ['&'] (sent.map fun pair => (pairText pair).toList) := by
  rw [String.toList_intercalate, List.map_map]
  rfl

/-- Every parameter brings an equals sign, so only the query without parameters is empty. -/
theorem intercalate_pairText_eq_empty (sent : List (String × String)) :
    "&".intercalate (sent.map pairText) = "" ↔ sent = [] := by
  rw [← String.toList_eq_nil_iff, toList_intercalate_pairText]
  constructor
  · intro h
    cases sent with
    | nil => rfl
    | cons pair rest =>
      have hne : (pairText pair).toList ≠ [] := by
        rw [toList_pairText]
        simp
      cases rest with
      | nil =>
        rw [List.map_cons, List.map_nil, List.intercalate_singleton] at h
        exact absurd h hne
      | cons next rest =>
        rw [List.map_cons, List.map_cons, List.intercalate_cons_cons, List.append_assoc,
          List.append_eq_nil_iff] at h
        exact absurd h.1 hne
  · rintro rfl
    rfl

/-- What is written as a query is read back. -/
theorem readQuery_intercalate (sent : List (String × String)) :
    readQuery? ("&".intercalate (sent.map pairText)) = some sent := by
  by_cases hsent : sent = []
  · subst hsent
    rfl
  · have hpieces : ∀ piece ∈ sent.map (fun pair => (pairText pair).toList), '&' ∉ piece := by
      intro piece hpiece
      obtain ⟨pair, -, rfl⟩ := List.mem_map.mp hpiece
      exact ampersand_not_mem_pairText pair
    have hread : (sent.map fun pair => (pairText pair).toList).mapM readPair? = some sent := by
      clear hsent hpieces
      induction sent with
      | nil => rfl
      | cons pair rest ih =>
        rw [List.map_cons, List.mapM_cons, readPair_pairText, ih]
        rfl
    rw [readQuery?, if_neg (mt (intercalate_pairText_eq_empty sent).mp hsent),
      toList_intercalate_pairText,
      List.splitOn_intercalate '&' hpieces (by simpa using hsent), hread]

/-! ## Parameters -/

/-- The parameters under one key are the values that a dictionary holds under it. -/
theorem pairs_under (d : Dict (List String)) (key : String) :
    ((pairs d).filter fun pair => pair.1 = key).map (·.2) = (d.get? key).getD [] := by
  obtain ⟨entries, hsorted⟩ := d
  rw [pairs, Dict.get?]
  show ((entries.flatMap _).filter _).map _ = _
  induction entries with
  | nil => rfl
  | cons entry rest ih =>
    obtain ⟨k, values⟩ := entry
    obtain ⟨hfirst, hrest⟩ := List.pairwise_cons.mp hsorted
    rw [List.flatMap_cons, List.filter_append, List.map_append, ih hrest]
    by_cases hk : k = key
    · -- the keys behind are greater, so nothing else stands under this one
      subst hk
      rw [Dict.lookup_of_lt hfirst, List.lookup_cons_self]
      simp [List.filter_map, Function.comp_def]
    · have hkey : (key == k) = false := by simpa using Ne.symm hk
      rw [List.lookup_cons, hkey]
      simp [List.filter_map, Function.comp_def, hk]

/-- The parameters stand in the order of the bytes of their keys. -/
theorem pairwise_pairs (d : Dict (List String)) :
    (pairs d).Pairwise fun a b => Text.bytes a.1.toList ≤ Text.bytes b.1.toList := by
  rw [pairs, List.pairwise_flatMap]
  refine ⟨?_, d.sorted.imp ?_⟩
  · intro entry _
    rw [List.pairwise_map]
    exact List.pairwise_of_forall fun _ _ => List.le_refl _
  · intro a b hlt x hx y hy
    obtain ⟨v, -, rfl⟩ := List.mem_map.mp hx
    obtain ⟨w, -, rfl⟩ := List.mem_map.mp hy
    exact List.le_of_lt (Text.bytes_lt hlt)

/-- The parameters that a run collects are, under each key, the values that it gives. -/
theorem get_parametersAfter (settings : List Setting) (key : String) :
    ((parametersAfter settings).get? key).getD [] = givenValues settings key := by
  induction settings using List.reverseRec with
  | nil => rfl
  | append_singleton before s ih =>
    rw [parametersAfter, List.foldl_concat, ← parametersAfter, givenValues, List.filterMap_append,
      ← givenValues, ← ih]
    cases s with
    | parameter k value =>
      by_cases hk : k = key
      · subst hk
        simp [Setting.onParameters, Setting.valueUnder?]
      · have hget := Dict.get?_insert_of_ne (parametersAfter before) (Ne.symm hk)
          (((parametersAfter before).get? k).getD [] ++ [value])
        simp [Setting.onParameters, Setting.valueUnder?, hk, hget]
    | _ => simp [Setting.onParameters, Setting.valueUnder?]

theorem timeoutAfter_eq (client : Client) (settings : List Setting) :
    timeoutAfter client settings = effectiveTimeout client settings := by
  induction settings using List.reverseRec with
  | nil => rfl
  | append_singleton before s ih =>
    rw [timeoutAfter, List.foldl_concat, ← timeoutAfter, ih, effectiveTimeout, effectiveTimeout,
      List.filterMap_append]
    cases s with
    | timeout deadline => simp [Setting.onTimeout, Setting.deadline?]
    | _ => simp [Setting.onTimeout, Setting.deadline?]

theorem Holds.timeout_eq (h : Holds client settings r) :
    r.timeout = effectiveTimeout client settings := h.timeout.trans (timeoutAfter_eq _ _)

/-- What is sent under a key is what is to be sent under it. -/
theorem Holds.get_sentParameters (h : Holds client settings r) (key : String) :
    (r.sentParameters.get? key).getD [] = sentValues client settings key := by
  have hgiven : (r.parameters.get? key).getD [] = givenValues settings key := by
    rw [h.parameters, get_parametersAfter]
  rw [sentParameters, sentValues, h.timeout_eq]
  cases hzero : (effectiveTimeout client settings).isZero with
  | true => simpa using hgiven
  | false =>
    by_cases hkey : key = timeoutKey
    · subst hkey
      simp
    · have hget := Dict.get?_insert_of_ne r.parameters hkey
        [(effectiveTimeout client settings).compound]
      simpa [hkey, hget] using hgiven

/-! ## Deadlines -/

/-- A line that stays silent is given up at the deadline of the request, and never without one. -/
theorem send_silent (hr : r.error = none) {line : Line} (hup : line.isUp = true)
    (hsilent : line.replies.head? = some .silent) :
    (r.send line).1 = if r.timeout.isZero then .waiting else .error (.timeout r.timeout) := by
  rw [send_fst hr, Line.exchange, hup, hsilent]
  rfl

/-- A failure that tells of a deadline tells of that of the request. -/
theorem eq_timeout_of_send (hr : r.error = none) {line : Line} {deadline : Duration}
    (h : (r.send line).1 = .error (.timeout deadline)) :
    deadline = r.timeout ∧ r.timeout.isZero = false := by
  rw [send_fst hr] at h
  rcases take_eq_error h with ⟨response, -, hfailure⟩ | hnetwork | ⟨-, htimeout, hzero⟩
  · -- an answer does not tell of deadlines
    rcases Response.failure_cases hfailure with ⟨_, he⟩ | ⟨_, _, he⟩ | ⟨_, he⟩ <;> cases he
  · cases hnetwork
  · cases htimeout
    exact ⟨rfl, hzero⟩

theorem isZero_of_waiting (hr : r.error = none) {line : Line}
    (h : (r.send line).1 = .waiting) : r.timeout.isZero = true := by
  rw [send_fst hr] at h
  exact (take_eq_waiting h).2

/-- The query of a run that left no error spells out what the run asks for. Read back, it is a list
of parameters in the order of the bytes of their keys, which has under each key the values to be
sent, in order; it is empty only if there are none. The deadline that stands in it is the one at
which a silent line is given up and of which the failure tells, and without a deadline nothing is
ever given up. -/
theorem query_spells_parameters (client : Client) (method : Method) (settings : List Setting)
    (hend : ((new client method).setAll settings).error = none) :
    let r := (new client method).setAll settings
    let deadline := effectiveTimeout client settings
    (∃ sent, readQuery? r.query = some sent ∧
      (sent.Pairwise fun a b => Text.bytes a.1.toList ≤ Text.bytes b.1.toList) ∧
      (∀ key, (sent.filter fun pair => pair.1 = key).map (·.2) =
        sentValues client settings key)) ∧
    (r.query = "" ↔ ∀ key, sentValues client settings key = []) ∧
    (∀ line : Line, line.isUp = true → line.replies.head? = some .silent →
      (r.send line).1 = if deadline.isZero then .waiting else .error (.timeout deadline)) ∧
    (∀ line reported, (r.send line).1 = .error (.timeout reported) →
      reported = deadline ∧ deadline.isZero = false) ∧
    (∀ line, (r.send line).1 = .waiting → deadline.isZero = true) := by
  intro r deadline
  have h : Holds client settings r := holds_setAll hend
  have hunder : ∀ key, ((pairs r.sentParameters).filter fun pair => pair.1 = key).map (·.2) =
      sentValues client settings key :=
    fun key => (pairs_under r.sentParameters key).trans (h.get_sentParameters key)
  have htimeout : r.timeout = deadline := h.timeout_eq
  refine ⟨⟨pairs r.sentParameters, readQuery_intercalate _, pairwise_pairs _, hunder⟩, ?_, ?_, ?_,
    ?_⟩
  · rw [query, intercalate_pairText_eq_empty]
    constructor
    · intro hnil key
      rw [← hunder key, hnil]
      rfl
    · intro hall
      -- a parameter that is sent would be a value under its key
      rw [List.eq_nil_iff_forall_not_mem]
      intro pair hpair
      have hnone := (hunder pair.1).trans (hall pair.1)
      rw [List.map_eq_nil_iff, List.filter_eq_nil_iff] at hnone
      exact hnone pair hpair (by simp)
  · intro line hup hsilent
    rw [← htimeout]
    exact send_silent hend hup hsilent
  · intro line reported hline
    rw [← htimeout]
    exact eq_timeout_of_send hend hline
  · intro line hline
    rw [← htimeout]
    exact isZero_of_waiting hend hline

/-- Settings with marks among the keys and values, empty ones, and a value for the deadline. -/
def queryRun : List Setting :=
  [.parameter "b" "1", .parameter "timeout" "5s", .parameter "a&b=c" "é+ %", .parameter "b" "",
    .timeout ⟨90, 250000000, by decide, by decide⟩, .parameter "" "x"]

theorem query_spells_queryRun :
    ((new sampleClient .get).setAll queryRun).error = none ∧
    ∃ sent, readQuery? ((new sampleClient .get).setAll queryRun).query = some sent ∧
      (sent.Pairwise fun a b => Text.bytes a.1.toList ≤ Text.bytes b.1.toList) ∧
      (sent.filter fun pair => pair.1 = "b").map (·.2) = ["1", ""] ∧
      (sent.filter fun pair => pair.1 = "timeout").map (·.2) = ["1m30.25s"] := by
  have hend : ((new sampleClient .get).setAll queryRun).error = none := by decide
  obtain ⟨sent, hread, hsorted, hunder⟩ := (query_spells_parameters sampleClient .get queryRun hend).1
  refine ⟨hend, sent, hread, hsorted, (hunder "b").trans (by decide), (hunder "timeout").trans ?_⟩
  decide +kernel

end ApplianceRest.Request
