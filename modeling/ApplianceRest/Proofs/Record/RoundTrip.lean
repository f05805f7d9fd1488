import ApplianceRest.Proofs.Json.Nesting
import ApplianceRest.Record.Reader
import ApplianceRest.Record.Writer

/-!
# Records are read back

A record that is written and read again comes back with those of its fields reset that are never
written, at every depth (`Shape.reset`), and its text says nothing of those fields
(`Shape.document_reset`). It takes a shape that can be read at all: one whose records have each key
once, and whose options can be told from `null` (`Shape.isSound`).

* `Shape.reads_document` is the round trip of a shape, by recursion on it.
* `Resets.roundTrips` brings it to the types of the library.
-/

namespace ApplianceRest.Record

open Json (Bytes Gives Reader)
open Json.Reader
open Text (bytes)

/-! ## What is kept -/

mutual

/-- A value whose fields that are never written are reset, at every depth. -/
@[simp] def Shape.reset : (shape : Shape) → shape.Carrier → shape.Carrier
  | .text, s => s
  | .flag, b => b
  | .word _, x => x
  | .optional content, x => x.map content.reset
  | .list item, xs => xs.map item.reset
  | .dict item, d => d.map item.reset
  | .record _ fields, values => fields.reset values

/-- Fields of which those are reset that are never written, at every depth. -/
@[simp] def Fields.reset : (fields : Fields) → fields.Carrier → fields.Carrier
  | .nil, () => ()
  | .cons _ role content rest, (value, values) =>
    (if role = .readOnly then content.default else content.reset value, rest.reset values)

end

mutual

/-- Whether no value of the shape has a field that is never written. -/
def Shape.isWritable : Shape → Bool
  | .text => true
  | .flag => true
  | .word _ => true
  | .optional content => content.isWritable
  | .list item => item.isWritable
  | .dict item => item.isWritable
  | .record _ fields => fields.isWritable

/-- Whether none of some fields is never written, at any depth. -/
def Fields.isWritable : Fields → Bool
  | .nil => true
  | .cons _ role content rest => role != .readOnly && content.isWritable && rest.isWritable

end

mutual

/-- Where every field can be written, everything is kept. -/
theorem Shape.reset_eq_self : (shape : Shape) → shape.isWritable = true → (v : shape.Carrier) →
    shape.reset v = v
  | .text, _, _ => rfl
  | .flag, _, _ => rfl
  | .word _, _, _ => rfl
  | .optional content, h, x => by
    have hcontent : content.reset = id := funext (content.reset_eq_self h)
    rw [Shape.reset, hcontent, Option.map_id, id]
  | .list item, h, xs => by
    have hitem : item.reset = id := funext (item.reset_eq_self h)
    rw [Shape.reset, hitem, List.map_id]
  | .dict item, h, d => Dict.map_id_of (item.reset_eq_self h) d
  | .record _ fields, h, values => fields.reset_eq_self h values

theorem Fields.reset_eq_self : (fields : Fields) → fields.isWritable = true →
    (values : fields.Carrier) → fields.reset values = values
  | .nil, _, () => rfl
  | .cons _ role content rest, h, (value, values) => by
    rw [Fields.isWritable, Bool.and_eq_true, Bool.and_eq_true, bne_iff_ne] at h
    obtain ⟨⟨hrole, hcontent⟩, hrest⟩ := h
    rw [Fields.reset, if_neg hrole, content.reset_eq_self hcontent, rest.reset_eq_self hrest]

end

/-- Whether `null` is a value of the shape. -/
def Shape.isOptional : Shape → Bool
  | .optional _ => true
  | _ => false

mutual

/-- Whether what is written of a value says what it was: no value but a missing one is written as
`null`, and no two fields are written under one key. -/
def Shape.isSound : Shape → Bool
  | .text => true
  | .flag => true
  | .word _ => true
  | .optional content => !content.isOptional && content.isSound
  | .list item => item.isSound
  | .dict item => item.isSound
  | .record _ fields => fields.isSound

/-- Whether some fields have different keys, and sound contents. -/
def Fields.isSound : Fields → Bool
  | .nil => true
  | .cons key _ content rest => !rest.keys.contains key && content.isSound && rest.isSound

end

/-- What is read of fields from what is written of them. -/
def Fields.written : (fields : Fields) → fields.Carrier → fields.Slots
  | .nil, () => ()
  | .cons _ role content rest, (value, values) =>
    (if role.isWritten (content.isEmpty value) then some (content.reset value) else none,
      rest.written values)

/-! ## Fields -/

theorem Shape.default_eq_reset (shape : Shape) {v : shape.Carrier} (h : shape.isEmpty v = true) :
    shape.default = shape.reset v := by
  cases shape with
  | text =>
    have hv : v = "" := by simpa [Shape.isEmpty] using h
    rw [hv]
    rfl
  | flag => cases h
  | word w => cases h
  | optional content =>
    have hv : v = none := by simpa [Shape.isEmpty] using h
    rw [hv]
    rfl
  | list item =>
    have hv : v = [] := by simpa [Shape.isEmpty] using h
    rw [hv]
    rfl
  | dict item =>
    have hv : v.entries = [] := by simpa [Shape.isEmpty] using h
    refine Dict.ext ?_
    simp [Shape.reset, Shape.default, Dict.map, Dict.empty, hv]
  | record name fields => cases h

theorem Role.ne_readOnly_of_isWritten {role : Role} {isEmpty : Bool}
    (h : role.isWritten isEmpty = true) : role ≠ .readOnly := by
  rintro rfl
  cases h

/-- A field that is not written may be missing when it is read; it is never written, or it was
empty. -/
theorem Role.of_not_isWritten {role : Role} {isEmpty : Bool} (h : ¬ role.isWritten isEmpty = true) :
    role.mayBeMissing = true ∧ (role ≠ .readOnly → isEmpty = true) := by
  cases role with
  | required => exact absurd rfl h
  | optional => exact ⟨rfl, fun _ => by simpa [Role.isWritten] using h⟩
  | readOnly => exact ⟨rfl, fun hne => absurd rfl hne⟩
  | defaulted => exact absurd rfl h
  | omittable => exact ⟨rfl, fun _ => by simpa [Role.isWritten] using h⟩

/-- Every field is read as what is kept of it, whether it was written or not. -/
theorem Fields.fromSlots_written : (fields : Fields) → (values : fields.Carrier) →
    fields.fromSlots (fields.written values) = .ok (fields.reset values)
  | .nil, () => rfl
  | .cons key role content rest, (value, values) => by
    have hrest := rest.fromSlots_written values
    rw [Fields.written, Fields.reset]
    split
    · next hwritten =>
      rw [if_neg (Role.ne_readOnly_of_isWritten hwritten), Fields.fromSlots, hrest]
      rfl
    · -- nothing was written, so the field is read as its default
      next hwritten =>
      obtain ⟨hmissing, hempty⟩ := Role.of_not_isWritten hwritten
      have hvalue : content.default =
          if role = .readOnly then content.default else content.reset value := by
        split
        · rfl
        · next hrole => exact content.default_eq_reset (hempty hrole)
      simp only [Fields.fromSlots, if_pos hmissing, hrest, ← hvalue]
      rfl

theorem Fields.mem_keys_of_mem_documents : {fields : Fields} → {values : fields.Carrier} →
    {member : String × Json} → member ∈ fields.documents values → member.1 ∈ fields.keys
  | .cons key role content rest, (value, values), member, h => by
    have hrest : member ∈ rest.documents values → member.1 ∈ rest.keys :=
      Fields.mem_keys_of_mem_documents
    rw [Fields.documents] at h
    rw [Fields.keys]
    split at h
    · rcases List.mem_cons.mp h with rfl | h
      · exact List.mem_cons_self
      · exact List.mem_cons_of_mem _ (hrest h)
    · exact List.mem_cons_of_mem _ (hrest h)

/-- No key is written twice. -/
theorem Fields.nodup_documents : {fields : Fields} → fields.isSound = true →
    (values : fields.Carrier) → ((fields.documents values).map (·.1)).Nodup
  | .nil, _, () => List.nodup_nil
  | .cons key role content rest, hsound, (x, values) => by
    rw [Fields.isSound, Bool.and_eq_true, Bool.and_eq_true, Bool.not_eq_true'] at hsound
    have hrest := Fields.nodup_documents hsound.2 values
    rw [Fields.documents]
    split
    · rw [List.map_cons, List.nodup_cons]
      refine ⟨fun hmem => ?_, hrest⟩
      obtain ⟨member, hmember, hkey⟩ := List.mem_map.mp hmem
      have hcontains := List.contains_iff_mem.mpr (Fields.mem_keys_of_mem_documents hmember)
      rw [hkey, hsound.1.1] at hcontains
      cases hcontains
    · exact hrest

section Members

variable {key : String} {role : Role} {content : Shape} {rest : Fields}

/-- A member under the key of the first field fills its slot. -/
theorem readsMember_first {value : content.Carrier}
    (h : Reads content.read (content.document value).toBytes (content.reset value))
    (slots : rest.Slots) :
    ReadsMember (fun k slots t => (Fields.cons key role content rest).readMember k slots t)
      (key, content.document value) (none, slots) (some (content.reset value), slots) := by
  intro r hr
  have hvalue := gives_memberValue (skipBlank_cons (by decide) _) (h.gives r hr)
  simp only [Fields.readMember, if_pos, Option.isSome_none, Bool.false_eq_true, if_false]
  exact hvalue.map fun value => (some value, slots)

/-- Members under other keys leave the slot of the first field as it is. -/
theorem readsMembers_behind {ms : List (String × Json)} {slots slots' : rest.Slots}
    (h : ReadsMembers (fun k slots t => rest.readMember k slots t) ms slots slots')
    (hkeys : ∀ m ∈ ms, m.1 ≠ key) (slot : Option content.Carrier) :
    ReadsMembers (fun k slots t => (Fields.cons key role content rest).readMember k slots t) ms
      (slot, slots) (slot, slots') := by
  induction h with
  | nil slots => exact .nil (slot, slots)
  | @cons member ms slots next last head tail ih =>
    obtain ⟨hkey, hkeys⟩ := List.forall_mem_cons.mp hkeys
    refine .cons (fun r hr => ?_) (ih hkeys)
    simp only [Fields.readMember, if_neg hkey]
    exact (head r hr).map fun slots => (slot, slots)

end Members

/-! ## Values -/

/-- Entries that stand in key order behind those that are known are read one after another. -/
theorem readsMembers_entries {item : Shape}
    (h : ∀ x, Reads item.read (item.document x).toBytes (item.reset x))
    (entries : List (String × item.Carrier)) {known d : Dict item.Carrier}
    (hd : d.entries = known.entries ++ entries.map fun e => (e.1, item.reset e.2)) :
    ReadsMembers (fun key (known : Dict item.Carrier) t =>
        (memberValue item.read t).map (·.map (known.insert key)))
      (entries.map fun e => (e.1, item.document e.2)) known d := by
  induction entries generalizing known with
  | nil =>
    have heq : known = d := Dict.ext (by simpa using hd.symm)
    rw [heq]
    exact .nil d
  | cons e entries ih =>
    -- the key stands behind all that are known, so its entry goes to the end
    have hsorted := d.sorted
    rw [hd, List.pairwise_append] at hsorted
    have hlast : (known.insert e.1 (item.reset e.2)).entries =
        known.entries ++ [(e.1, item.reset e.2)] :=
      Dict.insertEntry_of_lt
        (fun k hk => hsorted.2.2 k hk (e.1, item.reset e.2) List.mem_cons_self) _
    have hrest : d.entries = (known.insert e.1 (item.reset e.2)).entries ++
        entries.map fun e => (e.1, item.reset e.2) := by
      rw [hd, hlast, List.map_cons, List.append_assoc]
      rfl
    refine .cons (fun r hr => ?_) (ih hrest)
    have hvalue := gives_memberValue (skipBlank_cons (by decide) _) ((h e.2).gives r hr)
    exact hvalue.map (known.insert e.1)

/-- Only a missing value is written as `null`. -/
theorem Shape.head?_document {shape : Shape} (h : shape.isOptional = false) (v : shape.Carrier) :
    (shape.document v).toBytes.head? ≠ some 0x6E := by
  cases shape with
  | text =>
    have htext := bytes_stringChars v []
    rw [List.append_nil] at htext
    show (bytes (Json.stringChars v)).head? ≠ _
    rw [htext, List.head?_cons]
    decide
  | flag => cases v <;> decide
  | word w =>
    obtain ⟨b, r, htext, hstart⟩ := startsNumber_chars (w.toInt v)
    show (bytes (Json.Number.whole (w.toInt v)).chars).head? ≠ _
    rw [htext, List.head?_cons]
    rintro hb
    obtain rfl : b = 0x6E := by simpa using hb
    exact absurd hstart (by decide)
  | optional content => cases h
  | list item =>
    rw [Shape.document, head?_toBytes_array]
    decide
  | dict item =>
    rw [Shape.document, head?_toBytes_object]
    decide
  | record name fields =>
    rw [Shape.document, head?_toBytes_object]
    decide

/-- A record is read from the members of an object if these fill its slots. -/
theorem Fields.reads_object {name : String} {fields : Fields} {ms : List (String × Json)}
    {slots : fields.Slots} {values : fields.Carrier}
    (h : ReadsMembers (fun key slots t => fields.readMember key slots t) ms fields.noSlots slots)
    (hvalues : fields.fromSlots slots = .ok values) :
    Reads (Shape.record name fields).read (Json.object ms).toBytes values := by
  obtain ⟨t, htext, hmembers⟩ := gives_members h
  refine ⟨⟨openBrace, t, htext, by decide⟩, fun rest _ => ?_⟩
  rw [htext]
  refine gives_fromToken (by decide) ?_
  have hbracket : ¬ openBrace = openBracket := by decide
  simp only [if_pos, if_neg hbracket]
  refine (hmembers rest).bind fun shorter => ?_
  simp only [hvalues]
  exact ⟨_, rfl⟩

mutual

/-- What is written of a value is read as what is kept of it. -/
theorem Shape.reads_document : (shape : Shape) → shape.isSound = true → (v : shape.Carrier) →
    Reads shape.read (shape.document v).toBytes (shape.reset v)
  | .text, _, s => reads_textValue s
  | .flag, _, b => reads_flagValue b
  | .word w, _, x => reads_wordValue w x
  | .optional content, _, none => reads_optionalValue_none
  | .optional content, h, some x => by
    rw [Shape.isSound, Bool.and_eq_true, Bool.not_eq_true'] at h
    exact reads_optionalValue_some (content.reads_document h.2 x) (Shape.head?_document h.1 x)
  | .list item, h, xs => reads_listValue (fun x => item.reads_document h x) xs
  | .dict item, h, d => by
    have hall : (d.map item.reset).entries =
        Dict.empty.entries ++ d.entries.map fun e => (e.1, item.reset e.2) := rfl
    obtain ⟨t, htext, hmembers⟩ := gives_members
      (readsMembers_entries (fun x => item.reads_document h x) d.entries hall)
    refine ⟨⟨openBrace, t, htext, by decide⟩, fun rest _ => ?_⟩
    rw [Shape.document, htext]
    refine gives_fromToken (by decide) ?_
    simp only [if_pos]
    exact (hmembers rest).behind openBrace
  | .record _ fields, h, values =>
    Fields.reads_object (fields.reads_documents h values) (fields.fromSlots_written values)

/-- The members that are written of some fields fill the slots of those fields. -/
theorem Fields.reads_documents : (fields : Fields) → fields.isSound = true →
    (values : fields.Carrier) →
    ReadsMembers (fun key slots t => fields.readMember key slots t) (fields.documents values)
      fields.noSlots (fields.written values)
  | .nil, _, () => .nil ()
  | .cons key role content rest, h, (value, values) => by
    rw [Fields.isSound, Bool.and_eq_true, Bool.and_eq_true, Bool.not_eq_true'] at h
    obtain ⟨⟨hkey, hcontent⟩, hsound⟩ := h
    have hkeys : ∀ m ∈ rest.documents values, m.1 ≠ key := by
      rintro m hm rfl
      have hmem := List.contains_iff_mem.mpr (Fields.mem_keys_of_mem_documents hm)
      rw [hkey] at hmem
      cases hmem
    have hrest := rest.reads_documents hsound values
    rw [Fields.documents, Fields.written]
    -- the member of the first field, if there is one, fills its slot before the others are read
    split
    · exact .cons (readsMember_first (content.reads_document hcontent value) rest.noSlots)
        (readsMembers_behind hrest hkeys (some (content.reset value)))
    · exact readsMembers_behind hrest hkeys none

end

/-! ## What the text says -/

theorem Shape.isEmpty_reset (shape : Shape) (v : shape.Carrier) :
    shape.isEmpty (shape.reset v) = shape.isEmpty v := by
  cases shape with
  | text => rfl
  | flag => rfl
  | word w => rfl
  | optional content => exact Option.isNone_map
  | list item => exact List.isEmpty_map
  | dict item => exact List.isEmpty_map
  | record name fields => rfl

mutual

/-- The fields that are reset are those that are not written. -/
theorem Shape.document_reset : (shape : Shape) → (v : shape.Carrier) →
    shape.document (shape.reset v) = shape.document v
  | .text, _ => rfl
  | .flag, _ => rfl
  | .word _, _ => rfl
  | .optional _, none => rfl
  | .optional content, some x => content.document_reset x
  | .list item, xs => by
    have hitem : ∀ x, item.document (item.reset x) = item.document x := item.document_reset
    simp only [Shape.document, Shape.reset, List.map_map, Function.comp_def, hitem]
  | .dict item, d => by
    have hitem : ∀ x, item.document (item.reset x) = item.document x := item.document_reset
    simp only [Shape.document, Shape.reset, Dict.map, List.map_map, Function.comp_def, hitem]
  | .record _ fields, values => congrArg Json.object (fields.documents_reset values)

theorem Fields.documents_reset : (fields : Fields) → (values : fields.Carrier) →
    fields.documents (fields.reset values) = fields.documents values
  | .nil, () => rfl
  | .cons key role content rest, (value, values) => by
    have hrest := rest.documents_reset values
    by_cases hrole : role = .readOnly
    · -- such a field is written neither before nor after it is reset
      subst hrole
      exact hrest
    · rw [Fields.reset, if_neg hrole, Fields.documents, Fields.documents, content.isEmpty_reset,
        content.document_reset, hrest]

end

/-! ## Types -/

section Types

variable {α : Type} [Wire α] {writable : α → α}

/-- `writable` resets the fields of a value that are never written, and what is written of a value
can be read. -/
structure Resets (writable : α → α) : Prop where
  isSound : (Wire.shape α).isSound = true
  reset_row : ∀ v, (Wire.shape α).reset (Wire.row v) = Wire.row (writable v)

/-- Values go over the wire up to `writable`: a value that is written and read again comes back as
what `writable` leaves of it, and that is all that its text says. -/
structure RoundTrips (writable : α → α) : Prop where
  decode_document : ∀ v, decode α (document v).toBytes = .ok (writable v)
  toBytes_eq_iff : ∀ v w, (document v).toBytes = (document w).toBytes ↔ writable v = writable w

namespace Resets

/-- Where every field can be written, nothing is reset. -/
theorem of_isWritable (hsound : (Wire.shape α).isSound = true)
    (h : (Wire.shape α).isWritable = true) : Resets (id : α → α) :=
  ⟨hsound, fun v => Shape.reset_eq_self (Wire.shape α) h (Wire.row v)⟩

variable (h : Resets writable)

include h

theorem reset_list (vs : List α) :
    (vs.map Wire.row).map (Wire.shape α).reset = (vs.map writable).map Wire.row := by
  simp only [List.map_map, Function.comp_def, h.reset_row]

theorem document_writable (v : α) : document (writable v) = document v := by
  rw [document, ← h.reset_row, Shape.document_reset]
  rfl

theorem decode_document (v : α) : decode α (document v).toBytes = .ok (writable v) := by
  have hread := ((Wire.shape α).reads_document h.isSound (Wire.row v)).whole_eq
  rw [decode, document, hread, h.reset_row]
  exact congrArg Except.ok (Wire.ofRow_row (writable v))

theorem roundTrips : RoundTrips writable := by
  refine ⟨h.decode_document, fun v w => ?_⟩
  constructor
  · intro htext
    have hdecode := h.decode_document v
    rw [htext, h.decode_document w] at hdecode
    exact (Except.ok.inj hdecode).symm
  · intro hwritable
    rw [← h.document_writable v, hwritable, h.document_writable w]

end Resets

end Types

end ApplianceRest.Record
