/-
The slots of a page under insertions and deletions.

* `Page.InStep` — bitmap and slots tell the same, and every row stands at its address; so it is for a page that was read,
  and insertions and deletions keep it so (`PageCall.inStep_run`), with any number of fields in the rows;
* `Page.InStep.marked_bytes` — the bytes of the page mark the slots that are used;
* `Page.Fills` — what an insertion does with the first empty slot, and that a deletion undoes it;
* `Page.Empties` — what a deletion does with the slot that it names;
* `Page.insert_eq_error_iff`, `Page.delete_eq_error_iff` — every reason to refuse a row, in the order that they are looked at;
* `PageCall.orderly_run` — all of this after any calls.

Design notes.  Nothing is asked of the rows.  That their fields have the types of the page matters only when the page is
read again, and is told in `Page.WellFormed`.
-/
import RelStore.Proofs.Storage.PageBytes

namespace RelStore

namespace Page

variable {p p' : Page} {r : Row} {i slot : Nat}

/-! ### Bitmap and slots -/

/-- Bitmap and slots tell the same, and every row stands at its address.  The bitmap is made of whole bytes, which have
room in the page. -/
structure InStep (p : Page) : Prop where
  length_bitmap : p.bitmap.length = 8 * bitmapSize p.slots.length
  fits : bitmapSize p.slots.length ≤ p.size
  marks : p.bitmap.take p.slots.length = p.slots.map Option.isSome
  record : ∀ {i : Nat} {r : Row}, p.slots[i]? = some (some r) → r.record = some ⟨p.id, i⟩

theorem WellFormed.inStep (h : p.WellFormed) : p.InStep where
  length_bitmap := by rw [h.length_slots, h.length_bitmap]
  fits := by
    have := slotCount_fits p.schema p.size
    rw [h.length_slots]
    omega
  marks := h.marks
  record := h.record

theorem isSome_getElem (p : Page) (hi : i < p.slots.length) : (p.slots[i]).isSome = p.isUsed i := by
  rw [isUsed, List.getElem?_eq_getElem hi]
  cases p.slots[i] <;> rfl

theorem isNone_getElem (p : Page) (hi : i < p.slots.length) : (p.slots[i]).isNone = !p.isUsed i := by
  rw [← isSome_getElem p hi, Option.not_isSome]

/-- A bit of the bitmap says whether its slot is used. -/
theorem InStep.getElem?_bitmap (h : p.InStep) (hi : i < p.slots.length) : p.bitmap[i]? = some (p.isUsed i) := by
  rw [← List.getElem?_take_of_lt hi, h.marks, List.getElem?_map, List.getElem?_eq_getElem hi, Option.map_some,
    isSome_getElem p hi]

/-- So does the bit in the bytes of the page. -/
theorem InStep.marked_bytes (h : p.InStep) (hi : i < p.slots.length) : marked p.bytes i = p.isUsed i := by
  have hlength : (bytesOfBits p.bitmap).length = bitmapSize p.slots.length := length_bytesOfBits h.length_bitmap
  have hbyte : i / 8 < (bytesOfBits p.bitmap).length := by
    rw [hlength, bitmapSize]
    omega
  have hsize := h.fits
  have hget : p.bytes[i / 8]? = (bytesOfBits p.bitmap)[i / 8]? := by
    rw [bytes, resize, List.getElem?_append_left (by rw [List.length_take, List.length_append]; omega),
      List.getElem?_take_of_lt (by omega), List.getElem?_append_left hbyte]
  have hbit := getElem?_bitsOfBytes (bytesOfBits p.bitmap) i
  rw [bitsOfBytes_bytesOfBits h.length_bitmap, h.getElem?_bitmap hi, List.getElem?_eq_getElem hbyte,
    Option.map_some, Option.some.injEq] at hbit
  rw [marked, List.getD_eq_getElem?_getD, hget, List.getElem?_eq_getElem hbyte, Option.getD_some, hbit]

/-- Filling or emptying one slot keeps bitmap and slots in step. -/
theorem InStep.setSlot (h : p.InStep) (hslot : slot < p.slots.length) {content : Option Row}
    (hcontent : ∀ r, content = some r → r.record = some ⟨p.id, slot⟩) : (p.setSlot slot content).InStep where
  length_bitmap := by
    rw [bitmap_setSlot, slots_setSlot, List.length_set, List.length_set, h.length_bitmap]
  fits := by
    rw [slots_setSlot, List.length_set]
    exact h.fits
  marks := by
    rw [bitmap_setSlot, slots_setSlot, List.length_set, List.take_set, h.marks, List.map_set]
  record := by
    intro i r hr
    rw [slots_setSlot, List.getElem?_set] at hr
    split at hr
    · next heq =>
      subst heq
      exact hcontent r (Option.some.inj hr)
    · exact h.record hr

/-! ### Insertions -/

/-- Whether the page can store the row, as far as types go. -/
def Conforms (p : Page) (r : Row) : Prop :=
  r.schema.agrees p.schema = true ∧ Row.wellTyped p.schema r.fields = true

/-- The row went to the first empty slot.  There is one empty slot less, and a deletion at the row's address restores the
page. -/
structure Fills (p : Page) (r : Row) (slot : Nat) (p' : Page) : Prop where
  empty : slot < p.slots.length ∧ p.isUsed slot = false
  least : ∀ i < slot, p.isUsed i = true
  slots : p'.slots = p.slots.set slot (some { r with record := some ⟨p.id, slot⟩ })
  bitmap : p'.bitmap = p.bitmap.set slot true
  emptySlots : p'.emptySlots + 1 = p.emptySlots
  restored : ∀ r' : Row, r'.record = some ⟨p.id, slot⟩ → p'.delete r' = .ok p

theorem findIdx?_eq_none_iff : p.slots.findIdx? Option.isNone = none ↔ p.emptySlots = 0 := by
  rw [List.findIdx?_eq_none_iff, emptySlots, List.countP_eq_zero]
  refine forall₂_congr fun s _ => ?_
  rw [Bool.not_eq_true]

/-- The first empty slot. -/
theorem findIdx?_eq_some_iff : p.slots.findIdx? Option.isNone = some slot
    ↔ (slot < p.slots.length ∧ p.isUsed slot = false) ∧ ∀ i < slot, p.isUsed i = true := by
  rw [List.findIdx?_eq_some_iff_getElem]
  constructor
  · rintro ⟨hlt, hempty, hbefore⟩
    rw [isNone_getElem p hlt, Bool.not_eq_true'] at hempty
    refine ⟨⟨hlt, hempty⟩, fun i hi => ?_⟩
    have hused := hbefore i hi
    rwa [isNone_getElem p (Nat.lt_trans hi hlt), Bool.not_eq_true, Bool.not_eq_false'] at hused
  · rintro ⟨⟨hlt, hempty⟩, hbefore⟩
    refine ⟨hlt, ?_, fun i hi => ?_⟩
    · rw [isNone_getElem p hlt, hempty]
      rfl
    · rw [isNone_getElem p (Nat.lt_trans hi hlt), hbefore i hi]
      exact Bool.false_ne_true

theorem insert_eq_error_iff {e : StorageError} :
    p.insert r = .error e
      ↔ ¬ p.Conforms r ∧ e = .mismatch p.schema r.schema ∨ p.Conforms r ∧ p.emptySlots = 0 ∧ e = .pageFull p.id := by
  rw [← findIdx?_eq_none_iff, Page.insert, Conforms, ← Bool.and_eq_true]
  split
  · next hconforms =>
    split
    · next slot hslot =>
      rw [hslot]
      exact ⟨nofun, fun h => h.elim (fun hnot => absurd hconforms hnot.1) nofun⟩
    · next hfull =>
      exact ⟨fun h => .inr ⟨hconforms, hfull, (Except.error.inj h).symm⟩, fun h =>
        h.elim (fun hnot => absurd hconforms hnot.1) fun hfull => congrArg Except.error hfull.2.2.symm⟩
  · next hnot =>
    exact ⟨fun h => .inl ⟨hnot, (Except.error.inj h).symm⟩, fun h =>
      h.elim (fun hnot => congrArg Except.error hnot.2.symm) fun hconforms => absurd hconforms.1 hnot⟩

theorem getElem_eq_none (hi : i < p.slots.length) (hempty : p.isUsed i = false) : p.slots[i] = none := by
  rw [← Option.isNone_iff_eq_none, isNone_getElem p hi, hempty]
  rfl

/-- Emptying a slot that was empty undoes filling it. -/
theorem InStep.setSlot_setSlot (h : p.InStep) (hslot : slot < p.slots.length) (hempty : p.isUsed slot = false)
    (content : Option Row) : (p.setSlot slot content).setSlot slot none = p := by
  obtain ⟨hlt, hbit⟩ := List.getElem?_eq_some_iff.mp (h.getElem?_bitmap hslot)
  have hslots : (p.slots.set slot content).set slot none = p.slots := by
    rw [List.set_set, ← getElem_eq_none hslot hempty, List.set_getElem_self]
  have hbitmap : (p.bitmap.set slot content.isSome).set slot false = p.bitmap := by
    rw [List.set_set, ← hempty, ← hbit, List.set_getElem_self]
  rw [Page.setSlot, slots_setSlot, bitmap_setSlot, hslots, Option.isSome_none, hbitmap]
  rfl

/-! ### Deletions -/

/-- The slot was used, and is empty now; nothing else changed. -/
structure Empties (p : Page) (slot : Nat) (p' : Page) : Prop where
  used : p.isUsed slot = true
  slots : p'.slots = p.slots.set slot none
  bitmap : p'.bitmap = p.bitmap.set slot false
  emptySlots : p'.emptySlots = p.emptySlots + 1

theorem lt_of_isUsed (h : p.isUsed slot = true) : slot < p.slots.length := by
  obtain ⟨r, hr⟩ := isUsed_iff.mp h
  exact (List.getElem?_eq_some_iff.mp hr).1

theorem delete_of_isUsed (hr : r.record = some ⟨p.id, slot⟩) (hused : p.isUsed slot = true) :
    p.delete r = .ok (p.setSlot slot none) := by
  simp only [Page.delete, hr, ne_eq, not_true_eq_false, if_false, hused, if_true]

theorem delete_eq_error_iff {e : StorageError} :
    p.delete r = .error e
      ↔ r.record = none ∧ e = .missingRecordId
        ∨ ∃ record, r.record = some record ∧ (record.page ≠ p.id ∧ e = .notOnPage record p.id
          ∨ record.page = p.id ∧ p.isUsed record.slot = false ∧ e = .slotEmpty p.id record.slot) := by
  constructor
  · intro h
    rw [Page.delete] at h
    split at h
    · next hnone =>
      cases h
      exact .inl ⟨hnone, rfl⟩
    · next record hrecord =>
      refine .inr ⟨record, hrecord, ?_⟩
      split at h
      · next hpage =>
        cases h
        exact .inl ⟨hpage, rfl⟩
      · next hpage =>
        split at h
        · cases h
        · next hused =>
          cases h
          exact .inr ⟨Decidable.not_not.mp hpage, Bool.eq_false_iff.mpr hused, rfl⟩
  · rintro (⟨hnone, rfl⟩ | ⟨record, hrecord, ⟨hpage, rfl⟩ | ⟨hpage, hused, rfl⟩⟩)
    · rw [Page.delete, hnone]
    · simp only [Page.delete, hrecord, if_pos hpage]
    · simp only [Page.delete, hrecord, hpage, ne_eq, not_true_eq_false, if_false, hused, Bool.false_eq_true]

/-- The row at an address of the page is deleted. -/
theorem exists_delete (hr : r.record = some ⟨p.id, slot⟩) (hused : p.isUsed slot = true) :
    ∃ p', p.delete r = .ok p' ∧ p.Empties slot p' := by
  have hlt := lt_of_isUsed hused
  refine ⟨_, delete_of_isUsed hr hused, hused, rfl, rfl, ?_⟩
  have hsome : (p.slots[slot]).isNone = false := by rw [isNone_getElem p hlt, hused]; rfl
  rw [emptySlots, slots_setSlot, List.countP_set hlt, hsome]
  rfl

/-- A row that conforms is stored if there is an empty slot. -/
theorem InStep.exists_insert (h : p.InStep) (hr : p.Conforms r) (hroom : p.emptySlots ≠ 0) :
    ∃ slot p', p.insert r = .ok (⟨p.id, slot⟩, p') ∧ p.Fills r slot p' := by
  obtain ⟨slot, hslot⟩ : ∃ slot, p.slots.findIdx? Option.isNone = some slot :=
    Option.ne_none_iff_exists'.mp (mt findIdx?_eq_none_iff.mp hroom)
  obtain ⟨⟨hlt, hempty⟩, hbefore⟩ := findIdx?_eq_some_iff.mp hslot
  refine ⟨slot, p.setSlot slot (some { r with record := some ⟨p.id, slot⟩ }), ?_, ⟨hlt, hempty⟩, hbefore, rfl, rfl, ?_, ?_⟩
  · rw [Page.insert, if_pos (Bool.and_eq_true _ _ ▸ hr), hslot]
  · have hpos : 0 < p.slots.countP Option.isNone := Nat.pos_of_ne_zero hroom
    rw [emptySlots, emptySlots, slots_setSlot, List.countP_set hlt, getElem_eq_none hlt hempty]
    show p.slots.countP Option.isNone - 1 + 0 + 1 = _
    omega
  · intro r' hr'
    have hused : (p.setSlot slot (some { r with record := some ⟨p.id, slot⟩ })).isUsed slot = true :=
      isUsed_iff.mpr ⟨_, List.getElem?_set_self hlt⟩
    rw [delete_of_isUsed (p := p.setSlot slot _) hr' hused, h.setSlot_setSlot hlt hempty]

end Page

namespace PageCall

variable {p : Page}

/-- A page that a call leaves as it is, or one slot of which it fills or empties. -/
theorem step_cases (p : Page) (call : PageCall) :
    step p call = p ∨ ∃ slot content, slot < p.slots.length
      ∧ (∀ r, content = some r → r.record = some ⟨p.id, slot⟩) ∧ step p call = p.setSlot slot content := by
  cases call with
  | insert r =>
    rw [step, Page.insert]
    split
    · next record p' hinsert =>
      split at hinsert
      · split at hinsert
        · next slot hslot =>
          cases hinsert
          exact .inr ⟨slot, _, (Page.findIdx?_eq_some_iff.mp hslot).1.1, fun r' hr' => Option.some.inj hr' ▸ rfl, rfl⟩
        · cases hinsert
      · cases hinsert
    · exact .inl rfl
  | delete r =>
    rw [step]
    split
    · next p' hdelete =>
      rw [Page.delete] at hdelete
      split at hdelete
      · cases hdelete
      · next record hrecord =>
        split at hdelete
        · cases hdelete
        · split at hdelete
          · next hused =>
            cases hdelete
            exact .inr ⟨record.slot, none, Page.lt_of_isUsed hused, (fun r hr => by cases hr), rfl⟩
          · cases hdelete
    · exact .inl rfl

/-- What calls keep: the id, the number of slots, and the bits that stand for no slot. -/
structure SameLayout (p p' : Page) : Prop where
  id : p'.id = p.id
  length : p'.slots.length = p.slots.length
  spare : p'.bitmap.drop p.slots.length = p.bitmap.drop p.slots.length

theorem inStep_step (h : p.InStep) (call : PageCall) : (step p call).InStep ∧ SameLayout p (step p call) := by
  rcases step_cases p call with hsame | ⟨slot, content, hslot, hcontent, hset⟩
  · rw [hsame]
    exact ⟨h, rfl, rfl, rfl⟩
  · rw [hset]
    exact ⟨h.setSlot hslot hcontent, rfl, List.length_set, List.drop_set_of_lt hslot⟩

theorem inStep_run (h : p.InStep) (calls : List PageCall) : (run calls p).InStep ∧ SameLayout p (run calls p) := by
  induction calls generalizing p with
  | nil => exact ⟨h, rfl, rfl, rfl⟩
  | cons call calls ih =>
    obtain ⟨hstep, hlayout⟩ := inStep_step h call
    obtain ⟨hrun, hlayout'⟩ := ih hstep
    refine ⟨hrun, hlayout'.id.trans hlayout.id, hlayout'.length.trans hlayout.length, ?_⟩
    have hspare := hlayout'.spare
    rw [hlayout.length] at hspare
    exact hspare.trans hlayout.spare

/-- The error that a call answers, if it is refused. -/
def refusal? (p : Page) : PageCall → Option StorageError
  | insert r =>
    match p.insert r with
    | .ok _ => none
    | .error e => some e
  | delete r =>
    match p.delete r with
    | .ok _ => none
    | .error e => some e

/-- A page whose bitmap and slots are in step, and what calls do to it: `id` is its id, and `spare` are the bits that stand
for no slot. -/
structure Orderly (id : PageId) (slots : Nat) (spare : List Bool) (p : Page) : Prop where
  length : p.slots.length = slots
  bits : ∀ i < slots, p.bitmap[i]? = some (p.isUsed i) ∧ Page.marked p.bytes i = p.isUsed i
  spare : p.bitmap.drop slots = spare
  record : ∀ {i : Nat} {r : Row}, p.slots[i]? = some (some r) → r.record = some ⟨id, i⟩
  inserts : ∀ r, p.Conforms r → p.emptySlots ≠ 0 → ∃ slot p', p.insert r = .ok (⟨id, slot⟩, p') ∧ p.Fills r slot p'
  insert_error : ∀ r e, p.insert r = .error e
    ↔ ¬ p.Conforms r ∧ e = .mismatch p.schema r.schema ∨ p.Conforms r ∧ p.emptySlots = 0 ∧ e = .pageFull id
  deletes : ∀ r slot, r.record = some ⟨id, slot⟩ → p.isUsed slot = true → ∃ p', p.delete r = .ok p' ∧ p.Empties slot p'
  delete_error : ∀ r e, p.delete r = .error e
    ↔ r.record = none ∧ e = .missingRecordId
      ∨ ∃ record, r.record = some record ∧ (record.page ≠ id ∧ e = .notOnPage record id
        ∨ record.page = id ∧ p.isUsed record.slot = false ∧ e = .slotEmpty id record.slot)
  unchanged : ∀ call e, refusal? p call = some e → step p call = p

/-- A call that is refused leaves the page as it is. -/
theorem step_of_refusal? {call : PageCall} {e : StorageError} (h : refusal? p call = some e) : step p call = p := by
  cases call with
  | insert r =>
    cases hinsert : p.insert r with
    | ok result =>
      rw [refusal?, hinsert] at h
      cases h
    | error e' => simp only [step, hinsert]
  | delete r =>
    cases hdelete : p.delete r with
    | ok p' =>
      rw [refusal?, hdelete] at h
      cases h
    | error e' => simp only [step, hdelete]

/-- After any insertions and deletions on a page that was read, successful or refused, a bit of the bitmap is set exactly if
its slot holds a row, and the row has the address of the slot; the bits that stand for no slot are as they were read.  A
row that conforms goes to the first empty slot, and is refused exactly if there is none; a deletion empties the slot that
it names; a refused call changes nothing; and deleting a row that was just inserted restores the page. -/
theorem orderly_run {id : PageId} {schema : Schema} {image : List UInt8} {p₀ : Page}
    (hdecode : Page.decode id schema image = .ok p₀) (calls : List PageCall) :
    Orderly id (slotCount schema image.length) (p₀.bitmap.drop (slotCount schema image.length)) (run calls p₀) := by
  obtain ⟨hwf, rfl, rfl, hsize, -⟩ := Page.wellFormed_of_decode hdecode
  obtain ⟨hstep, hlayout⟩ := inStep_run hwf.inStep calls
  have hslots : slotCount p₀.schema image.length = p₀.slots.length := by rw [← hsize, hwf.length_slots]
  rw [hslots, ← hlayout.id]
  refine ⟨hlayout.length, fun i hi => ?_, hlayout.spare, hstep.record, fun r => hstep.exists_insert,
    fun r e => Page.insert_eq_error_iff, fun r slot => Page.exists_delete, fun r e => Page.delete_eq_error_iff,
    fun call e => step_of_refusal?⟩
  rw [← hlayout.length] at hi
  exact ⟨hstep.getElem?_bitmap hi, hstep.marked_bytes hi⟩

/-- A text in the place of the one that was deleted: the page is full again, all bits past its only slot are still set, and
the text can be deleted in its turn. -/
theorem orderly_run_notePage :
    Page.decode notePage.id noteSchema noteImage = .ok notePage
      ∧ (run noteCalls notePage).bitmap.drop 1 = List.replicate 7 true
      ∧ (∀ r, (run noteCalls notePage).Conforms r → (run noteCalls notePage).insert r = .error (.pageFull notePage.id))
      ∧ ∃ p', (run noteCalls notePage).delete ⟨noteSchema, [], some ⟨notePage.id, 0⟩⟩ = .ok p'
        ∧ (run noteCalls notePage).Empties 0 p' := by
  have horderly := orderly_run decode_noteImage noteCalls
  have hslots : slotCount noteSchema noteImage.length = 1 := by decide +kernel
  have hfull : (run noteCalls notePage).emptySlots = 0 := by decide +kernel
  have hused : (run noteCalls notePage).isUsed 0 = true := by decide +kernel
  rw [hslots] at horderly
  exact ⟨decode_noteImage, horderly.spare, fun r hr => (horderly.insert_error r _).mpr (.inr ⟨hr, hfull, rfl⟩),
    horderly.deletes _ 0 rfl hused⟩

end PageCall

end RelStore
