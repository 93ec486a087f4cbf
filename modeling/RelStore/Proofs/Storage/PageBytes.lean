/-
The bytes of a page, one by one.

A page that was read is written as it was, but for the bytes that stand for nothing: those of unused slots, those behind
the text of a field, and those behind the last slot.  These are zeros then.  The bits of the bitmap are all kept, also
the ones past the last slot.

* `Page.slotStart`, `Page.columnStart`, `Page.marked` — where slots and fields stand in an image, and which are used;
* `Page.Cleared` — the bytes of an image that stand for nothing;
* `Page.getElem?_bytes_of_decode` — one byte of a page that was read;
* `PageCall.wellFormed_run` — what insertions and deletions leave is well formed, whether they are refused or not;
* `Page.Reloads` — a page comes back from its bytes with the same rows, their long texts cut;
* `PageCall.image_run` — all of this, for every image that can be read.

Design notes.  Bytes are told one by one, by their place in the image: what an image says about a slot or a field stands
at that place, whatever the slots and fields before it hold.
-/
import Mathlib.Data.List.Forall2
import RelStore.Proofs.Storage.FieldImage

namespace RelStore

theorem getElem?_flatMap_of_length {α β : Type} {f : α → List β} {width : Nat} {xs : List α}
    (h : ∀ x ∈ xs, (f x).length = width) (k : Nat) {o : Nat} (ho : o < width) :
    (xs.flatMap f)[k * width + o]? = xs[k]?.bind fun x => (f x)[o]? := by
  induction xs generalizing k with
  | nil => simp
  | cons x xs ih =>
    obtain ⟨hx, hxs⟩ := List.forall_mem_cons.mp h
    rw [List.flatMap_cons]
    cases k with
    | zero =>
      rw [Nat.zero_mul, Nat.zero_add, List.getElem?_append_left (by omega)]
      rfl
    | succ k =>
      rw [List.getElem?_append_right (by rw [Nat.succ_mul]; omega), List.getElem?_cons_succ, ← ih hxs k]
      congr 1
      rw [Nat.succ_mul]
      omega

theorem getElem?_bitsOfBytes (bytes : List UInt8) (k : Nat) :
    (bitsOfBytes bytes)[k]? = bytes[k / 8]?.map fun b => b.toNat.testBit (k % 8) := by
  have hk : k = k / 8 * 8 + k % 8 := (Nat.div_add_mod' k 8).symm
  have ho : k % 8 < 8 := Nat.mod_lt k (by decide)
  rw [hk, bitsOfBytes, getElem?_flatMap_of_length (fun b _ => length_bitsOfByte b) _ ho, ← hk]
  cases bytes[k / 8]? with
  | none => rfl
  | some b => simp [bitsOfByte, ho]

namespace Page

variable {schema : Schema} {image : List UInt8} {id : PageId} {p : Page}

/-! ### Where things stand -/

/-- Where a slot begins. -/
def slotStart (schema : Schema) (size slot : Nat) : Nat :=
  bitmapSize (slotCount schema size) + slot * schema.width

/-- Where a field of a slot begins. -/
def columnStart (schema : Schema) (size slot column : Nat) : Nat :=
  slotStart schema size slot + Schema.totalWidth (schema.types.take column)

/-- Whether the bitmap at the front of an image marks a slot as used. -/
def marked (image : List UInt8) (slot : Nat) : Bool :=
  (image.getD (slot / 8) 0).toNat.testBit (slot % 8)

/-- The bytes of an image that stand for nothing. -/
inductive Cleared (schema : Schema) (image : List UInt8) : Nat → Prop
  /-- A byte of a slot that is not used. -/
  | unused {slot o : Nat} (hslot : slot < slotCount schema image.length) (hmarked : marked image slot = false)
    (ho : o < schema.width) : Cleared schema image (slotStart schema image.length slot + o)
  /-- A byte behind the text of a field, whose length stands before it. -/
  | padding {slot column length o : Nat} (hslot : slot < slotCount schema image.length)
    (hmarked : marked image slot = true) (htype : schema.types[column]? = some .str)
    (hlength : readBigEndian (image.drop (columnStart schema image.length slot column)) = some length)
    (hlow : 4 + length ≤ o) (hhigh : o < FieldType.str.width) :
    Cleared schema image (columnStart schema image.length slot column + o)
  /-- A byte behind the last slot. -/
  | rest {i : Nat} (hi : slotStart schema image.length (slotCount schema image.length) ≤ i) : Cleared schema image i

/-- All bits of the bitmap stand for something, also those past the last slot: none is cleared. -/
theorem Cleared.bitmapSize_le {i : Nat} (h : Cleared schema image i) :
    bitmapSize (slotCount schema image.length) ≤ i := by
  cases h with
  | unused => exact Nat.le_add_right_of_le (Nat.le_add_right ..)
  | padding => exact Nat.le_add_right_of_le (Nat.le_add_right_of_le (Nat.le_add_right ..))
  | rest hi => exact Nat.le_trans (Nat.le_add_right ..) hi

theorem exists_column {types : List FieldType} {o : Nat} (h : o < Schema.totalWidth types) :
    ∃ column t o', types[column]? = some t ∧ o' < t.width ∧ o = Schema.totalWidth (types.take column) + o' := by
  induction types generalizing o with
  | nil => exact absurd h (Nat.not_lt_zero _)
  | cons t types ih =>
    rw [Schema.totalWidth] at h
    by_cases ho : o < t.width
    · exact ⟨0, t, o, rfl, ho, (Nat.zero_add o).symm⟩
    · obtain ⟨column, t', o', ht, ho', heq⟩ := ih (o := o - t.width) (by omega)
      refine ⟨column + 1, t', o', ht, ho', ?_⟩
      rw [List.take_succ_cons, Schema.totalWidth]
      omega

/-- The image of a field stands in the image of its row where it was read. -/
theorem exists_field_of_readFields {types : List FieldType} {bytes : List UInt8} {fields : List Field}
    (h : readFields types bytes = some fields) {column : Nat} {t : FieldType} (ht : types[column]? = some t) :
    ∃ f, t.parse ((bytes.drop (Schema.totalWidth (types.take column))).take t.width) = some f
      ∧ ∀ o < t.width,
        (fields.flatMap Field.image)[Schema.totalWidth (types.take column) + o]? = f.image[o]? := by
  induction types generalizing bytes fields column with
  | nil => simp at ht
  | cons t' types ih =>
    rw [readFields] at h
    split at h
    · next f fs hf hfs =>
      cases h
      have hwidth : f.image.length = t'.width := by
        rw [Field.length_image, (FieldType.parse_eq_some hf).1]
      rw [List.flatMap_cons]
      cases column with
      | zero =>
        cases ht
        refine ⟨f, hf, fun o ho => ?_⟩
        rw [List.take_zero, Schema.totalWidth, Nat.zero_add, List.getElem?_append_left (by omega)]
      | succ column =>
        obtain ⟨f', hf', himage⟩ := ih hfs ht
        rw [List.take_succ_cons, Schema.totalWidth, ← List.drop_drop]
        refine ⟨f', hf', fun o ho => ?_⟩
        rw [List.getElem?_append_right (by omega), ← himage o ho]
        congr 1
        omega
    · cases h

/-- What was read into a slot. -/
theorem exists_slot_of_readSlots {i : Nat} {bits : List Bool} {bytes : List UInt8} {slots : List (Option Row)}
    (h : readSlots id schema i bits bytes = some slots) {k : Nat} {used : Bool} (hk : bits[k]? = some used) :
    ∃ s, slots[k]? = some s ∧ (used = false → s = none)
      ∧ (used = true → ∃ r, s = some r ∧ readFields schema.types (bytes.drop (k * schema.width)) = some r.fields) := by
  induction bits generalizing i bytes slots k with
  | nil => simp at hk
  | cons bit bits ih =>
    rw [readSlots] at h
    split at h
    · cases h
    next rest hrest =>
    cases k with
    | zero =>
      cases hk
      rw [Nat.zero_mul, List.drop_zero]
      cases used with
      | true =>
        obtain ⟨fields, hfields, rfl⟩ := Option.map_eq_some_iff.mp h
        exact ⟨_, rfl, (absurd · (by decide)), fun _ => ⟨_, rfl, hfields⟩⟩
      | false =>
        cases h
        exact ⟨none, rfl, fun _ => rfl, (absurd · (by decide))⟩
    | succ k =>
      obtain ⟨s, hs, hunused, hused⟩ := ih hrest (k := k) hk
      have htail : slots[k + 1]? = rest[k]? := by
        cases bit with
        | true =>
          obtain ⟨fields, -, rfl⟩ := Option.map_eq_some_iff.mp h
          rfl
        | false =>
          cases h
          rfl
      rw [List.drop_drop, Nat.add_comm, ← Nat.succ_mul] at hused
      exact ⟨s, htail.trans hs, hunused, hused⟩

/-! ### The bytes of a well-formed page -/

theorem WellFormed.getElem?_bytes_slot (h : p.WellFormed) {slot o : Nat} {s : Option Row}
    (hs : p.slots[slot]? = some s) (ho : o < p.schema.width) :
    p.bytes[slotStart p.schema p.size slot + o]? = (slotBytes p.schema.width s)[o]? := by
  obtain ⟨zeros, hbytes⟩ := bytes_eq h
  have hbitmap := length_bytesOfBits h.length_bitmap
  have hslots := length_flatMap_slotBytes h
  have hlt : slot < slotCount p.schema p.size := by
    rw [← h.length_slots]
    exact (List.getElem?_eq_some_iff.mp hs).1
  have hnext : (slot + 1) * p.schema.width ≤ slotCount p.schema p.size * p.schema.width :=
    Nat.mul_le_mul_right _ hlt
  rw [Nat.succ_mul] at hnext
  have hwidth : ∀ s ∈ p.slots, (slotBytes p.schema.width s).length = p.schema.width := fun s hs => by
    refine length_slotBytes fun r hr => ?_
    obtain ⟨i, hi⟩ := List.mem_iff_getElem?.mp hs
    exact h.types (hi.trans (congrArg some hr))
  rw [slotStart, hbytes, List.getElem?_append_right (by omega), List.getElem?_append_left (by omega),
    show bitmapSize (slotCount p.schema p.size) + slot * p.schema.width + o - (bytesOfBits p.bitmap).length
      = slot * p.schema.width + o by omega, getElem?_flatMap_of_length hwidth slot ho, hs]
  rfl

theorem WellFormed.getElem?_bytes_rest (h : p.WellFormed) {i : Nat}
    (hlow : slotStart p.schema p.size (slotCount p.schema p.size) ≤ i) (hhigh : i < p.size) :
    p.bytes[i]? = some 0 := by
  obtain ⟨zeros, hbytes⟩ := bytes_eq h
  have hbitmap := length_bytesOfBits h.length_bitmap
  have hslots := length_flatMap_slotBytes h
  have hsize := congrArg List.length hbytes
  rw [length_bytes, List.length_append, List.length_append, List.length_replicate] at hsize
  rw [slotStart] at hlow
  rw [hbytes, List.getElem?_append_right (by omega), List.getElem?_append_right (by omega),
    List.getElem?_replicate, if_pos (by omega)]

/-! ### The bytes of a page that was read -/

theorem bitmap_of_decode (h : decode id schema image = .ok p) {i : Nat}
    (hi : i < bitmapSize (slotCount schema image.length)) : p.bytes[i]? = image[i]? := by
  obtain ⟨hwf, -, hschema, hsize, -⟩ := wellFormed_of_decode h
  obtain ⟨zeros, hbytes⟩ := bytes_eq hwf
  have hbitmap := length_bytesOfBits hwf.length_bitmap
  rw [hschema, hsize] at hbitmap
  rw [hbytes, List.getElem?_append_left (by omega)]
  rw [decode] at h
  split at h
  · cases h
    rw [bytesOfBits_bitsOfBytes, List.getElem?_take_of_lt hi]
  · cases h

/-- The bits that are read from the bitmap are the marks of the slots. -/
theorem getElem?_bits {slot : Nat} (hslot : slot < slotCount schema image.length) :
    ((bitsOfBytes (image.take (bitmapSize (slotCount schema image.length)))).take
      (slotCount schema image.length))[slot]? = some (marked image slot) := by
  have hfits := slotCount_fits schema image.length
  have hbyte : slot / 8 < bitmapSize (slotCount schema image.length) := by
    rw [bitmapSize]
    omega
  rw [List.getElem?_take_of_lt hslot, getElem?_bitsOfBytes, List.getElem?_take_of_lt hbyte, marked,
    List.getD_eq_getElem?_getD, List.getElem?_eq_getElem (by omega)]
  rfl

theorem slot_of_decode (h : decode id schema image = .ok p) {slot : Nat}
    (hslot : slot < slotCount schema image.length) :
    ∃ s, p.slots[slot]? = some s ∧ (marked image slot = false → s = none)
      ∧ (marked image slot = true → ∃ r, s = some r
        ∧ readFields schema.types (image.drop (slotStart schema image.length slot)) = some r.fields) := by
  rw [decode] at h
  split at h
  · next slots hslots =>
    cases h
    obtain ⟨s, hs, hunused, hused⟩ := exists_slot_of_readSlots hslots (getElem?_bits hslot)
    rw [List.drop_drop] at hused
    exact ⟨s, hs, hunused, hused⟩
  · cases h

/-- One byte of a field of a page that was read. -/
theorem getElem?_bytes_column (h : decode id schema image = .ok p) {slot column o : Nat} {t : FieldType}
    (hslot : slot < slotCount schema image.length) (hmarked : marked image slot = true)
    (ht : schema.types[column]? = some t) (ho : o < t.width) :
    let start := columnStart schema image.length slot column
    (t.Behind (image.drop start) o → p.bytes[start + o]? = some 0)
      ∧ (¬ t.Behind (image.drop start) o → p.bytes[start + o]? = image[start + o]?) := by
  intro start
  obtain ⟨hwf, -, rfl, hsize, -⟩ := wellFormed_of_decode h
  obtain ⟨s, hs, -, hused⟩ := slot_of_decode h hslot
  obtain ⟨r, rfl, hfields⟩ := hused hmarked
  obtain ⟨f, hf, himage⟩ := exists_field_of_readFields hfields ht
  rw [List.drop_drop] at hf
  have hin : Schema.totalWidth (p.schema.types.take column) + o < p.schema.width := by
    have hlen : (r.fields.flatMap Field.image).length = p.schema.width := by
      rw [length_images, hwf.types hs, Schema.width]
    rw [← hlen]
    refine (List.getElem?_eq_some_iff.mp ((himage o ho).trans (List.getElem?_eq_getElem ?_))).1
    rw [Field.length_image, (FieldType.parse_eq_some hf).1]
    exact ho
  have hbyte : p.bytes[start + o]? = f.image[o]? := by
    rw [← himage o ho]
    have := hwf.getElem?_bytes_slot hs hin
    rw [hsize, ← Nat.add_assoc] at this
    exact this
  obtain ⟨hbehind, hfront⟩ := FieldType.getElem?_image_of_parse hf ho
  rw [hbyte]
  rw [List.getElem?_drop] at hfront
  exact ⟨hbehind, hfront⟩

/-- A page that was read is written as it was, with zeros for the bytes that stand for nothing. -/
theorem getElem?_bytes_of_decode (h : decode id schema image = .ok p) {i : Nat} (hi : i < image.length) :
    (Cleared schema image i → p.bytes[i]? = some 0) ∧ (¬ Cleared schema image i → p.bytes[i]? = image[i]?) := by
  obtain ⟨hwf, -, hschema, hsize, -⟩ := wellFormed_of_decode h
  constructor
  · intro hcleared
    cases hcleared with
    | unused hslot hmarked ho =>
      obtain ⟨s, hs, hunused, -⟩ := slot_of_decode h hslot
      have := hwf.getElem?_bytes_slot hs (hschema ▸ ho)
      rw [hschema, hsize, hunused hmarked, slotBytes, List.getElem?_replicate, if_pos ho] at this
      exact this
    | padding hslot hmarked htype hlength hlow hhigh =>
      exact (getElem?_bytes_column h hslot hmarked htype hhigh).1 ⟨rfl, _, hlength, hlow⟩
    | rest hrest => exact hwf.getElem?_bytes_rest (by rwa [hschema, hsize]) (by rwa [hsize])
  · intro hkept
    by_cases hbitmap : i < bitmapSize (slotCount schema image.length)
    · exact bitmap_of_decode h hbitmap
    -- the byte is not behind the last slot, so it is one of a slot, and of a field in it
    have hlt : i < slotStart schema image.length (slotCount schema image.length) :=
      Nat.lt_of_not_le fun hrest => hkept (.rest hrest)
    obtain ⟨j, rfl⟩ := Nat.exists_eq_add_of_le (Nat.le_of_not_lt hbitmap)
    rw [slotStart, Nat.add_lt_add_iff_left] at hlt
    have hwidth : 0 < schema.width := Nat.pos_of_ne_zero fun hz => by simp [hz] at hlt
    have hslot : j / schema.width < slotCount schema image.length := Nat.div_lt_of_lt_mul (by rwa [Nat.mul_comm])
    have hj : bitmapSize (slotCount schema image.length) + j
        = slotStart schema image.length (j / schema.width) + j % schema.width := by
      rw [slotStart, Nat.add_assoc, Nat.div_add_mod']
    have ho := Nat.mod_lt j hwidth
    rw [hj] at hkept ⊢
    cases hmarked : marked image (j / schema.width) with
    | false => exact absurd (.unused hslot hmarked ho) hkept
    | true =>
      obtain ⟨column, t, o, ht, ho, heq⟩ := exists_column ho
      rw [heq, ← Nat.add_assoc] at hkept ⊢
      refine (getElem?_bytes_column h hslot hmarked ht ho).2 ?_
      rintro ⟨rfl, length, hlength, hlow⟩
      exact hkept (.padding hslot hmarked ht hlength hlow ho)

/-! ### Reading a page from its bytes -/

/-- The rows of a page by slot are those of another one, at the same addresses and with what a page keeps of their
fields; and the two pages have the same bytes. -/
structure Reloads (p q : Page) : Prop where
  usedSlots : q.usedSlots = p.usedSlots
  slots : List.Forall₂ (Option.Rel fun r r' => r'.record = r.record ∧ List.Forall₂ Field.KeptAs r.fields r'.fields)
    p.slots q.slots
  bytes : q.bytes = p.bytes

theorem usedSlots_stored (p : Page) : p.stored.usedSlots = p.usedSlots := by
  rw [usedSlots, usedSlots, stored, List.zipIdx_map, List.filterMap_map]
  congr 1
  funext entry
  obtain ⟨s, i⟩ := entry
  cases s <;> rfl

theorem bytes_stored (p : Page) : p.stored.bytes = p.bytes := by
  have hslots : p.stored.slots.flatMap (slotBytes p.schema.width) = p.slots.flatMap (slotBytes p.schema.width) := by
    rw [stored, List.flatMap_map]
    congr 1
    funext s
    cases s with
    | none => rfl
    | some r =>
      simp only [Option.map_some, slotBytes, cutRow, List.flatMap_map, Field.image_stored]
  rw [bytes, bytes, show p.stored.schema = p.schema from rfl, hslots]
  rfl

theorem reloads_stored (p : Page) : p.Reloads p.stored where
  usedSlots := usedSlots_stored p
  slots := by
    rw [stored, List.forall₂_map_right_iff, List.forall₂_same]
    intro s _
    cases s with
    | none => exact .none
    | some r =>
      refine .some ⟨rfl, ?_⟩
      show List.Forall₂ Field.KeptAs r.fields (r.fields.map Field.stored)
      rw [List.forall₂_map_right_iff, List.forall₂_same]
      exact fun f _ => f.keptAs_stored
  bytes := bytes_stored p

end Page

/-! ### Insertions and deletions -/

/-- What callers do to a page. -/
inductive PageCall where
  | insert (r : Row)
  | delete (r : Row)

namespace PageCall

variable {p : Page}

/-- Whether a row that is given has as many fields as columns. -/
def Proper : PageCall → Prop
  | insert r => r.Complete
  | delete _ => True

/-- The page after a call. One that is refused leaves the page as it is. -/
def step (p : Page) : PageCall → Page
  | insert r =>
    match p.insert r with
    | .ok (_, p') => p'
    | .error _ => p
  | delete r =>
    match p.delete r with
    | .ok p' => p'
    | .error _ => p

/-- The page after some calls, one after the other. -/
def run (calls : List PageCall) (p : Page) : Page :=
  calls.foldl step p

theorem wellFormed_step (h : p.WellFormed) {call : PageCall} (hcall : call.Proper) :
    (step p call).WellFormed ∧ (step p call).id = p.id ∧ (step p call).schema = p.schema
      ∧ (step p call).size = p.size := by
  cases call with
  | insert r =>
    rw [step]
    split
    · next record p' hinsert =>
      obtain ⟨hwf, hid, hschema, hsize, -⟩ := h.insert hcall hinsert
      exact ⟨hwf, hid, hschema, hsize⟩
    · exact ⟨h, rfl, rfl, rfl⟩
  | delete r =>
    rw [step]
    split
    · next p' hdelete =>
      have hrecord : ∃ record, r.record = some record ∧ record.page = p.id := by
        rw [Page.delete] at hdelete
        split at hdelete
        · cases hdelete
        · next record hrecord =>
          split at hdelete
          · cases hdelete
          · next hpage => exact ⟨record, hrecord, Decidable.not_not.mp hpage⟩
      obtain ⟨record, hrecord, hpage⟩ := hrecord
      obtain ⟨hwf, hid, hschema, hsize, -⟩ := h.delete hrecord hpage hdelete
      exact ⟨hwf, hid, hschema, hsize⟩
    · exact ⟨h, rfl, rfl, rfl⟩

theorem wellFormed_run {calls : List PageCall} (h : p.WellFormed) (hcalls : ∀ call ∈ calls, call.Proper) :
    (run calls p).WellFormed ∧ (run calls p).id = p.id ∧ (run calls p).schema = p.schema
      ∧ (run calls p).size = p.size := by
  induction calls generalizing p with
  | nil => exact ⟨h, rfl, rfl, rfl⟩
  | cons call calls ih =>
    obtain ⟨hcall, hcalls⟩ := List.forall_mem_cons.mp hcalls
    obtain ⟨hwf, hid, hschema, hsize⟩ := wellFormed_step h hcall
    obtain ⟨hwf', hid', hschema', hsize'⟩ := ih hwf hcalls
    exact ⟨hwf', hid'.trans hid, hschema'.trans hschema, hsize'.trans hsize⟩

/-- A page that was read from an image and changed by insertions and deletions has as many bytes as the image.  It is
read back from its bytes with the same rows in the same slots, only their long texts cut, and then has the same bytes
again.  The page as it was read is written as the image, with zeros for the bytes that stand for nothing. -/
theorem image_run {id : PageId} {schema : Schema} {image : List UInt8} {p₀ : Page}
    (hdecode : Page.decode id schema image = .ok p₀) {calls : List PageCall}
    (hcalls : ∀ call ∈ calls, call.Proper) :
    (run calls p₀).bytes.length = image.length
      ∧ (∃ q, Page.decode id schema (run calls p₀).bytes = .ok q ∧ (run calls p₀).Reloads q)
      ∧ ∀ i < image.length, (Page.Cleared schema image i → p₀.bytes[i]? = some 0)
        ∧ (¬ Page.Cleared schema image i → p₀.bytes[i]? = image[i]?) := by
  obtain ⟨hwf₀, hid₀, hschema₀, hsize₀, -⟩ := Page.wellFormed_of_decode hdecode
  obtain ⟨hwf, hid, hschema, hsize⟩ := wellFormed_run hwf₀ hcalls
  refine ⟨?_, ⟨(run calls p₀).stored, ?_, Page.reloads_stored _⟩, fun i hi => Page.getElem?_bytes_of_decode hdecode hi⟩
  · rw [Page.length_bytes, hsize, hsize₀]
  · rw [← hid₀, ← hid, ← hschema₀, ← hschema]
    exact Page.decode_bytes hwf

/-- A page with one slot, which holds a text of one byte.  Other bytes stand behind it, and all bits of the bitmap are
set. -/
def noteImage : List UInt8 := 255 :: bigEndian 1 ++ 97 :: List.replicate 127 9

def noteSchema : Schema := ⟨[.str], none⟩

def notePage : Page :=
  let id : PageId := ⟨.file ["note.dat"], 0⟩
  ⟨id, noteSchema, 133, List.replicate 8 true, [some ⟨noteSchema, [.str "a"], some ⟨id, 0⟩⟩]⟩

theorem decode_noteImage : Page.decode notePage.id noteSchema noteImage = .ok notePage := by
  decide +kernel

/-- The text is deleted, and a text that is too long takes its place. -/
def noteCalls : List PageCall :=
  [.delete ⟨noteSchema, [], some ⟨notePage.id, 0⟩⟩,
    .insert ⟨noteSchema, [.str (String.ofList (List.replicate 129 'a'))], none⟩]

theorem image_run_notePage :
    (∃ q, Page.decode notePage.id noteSchema (run noteCalls notePage).bytes = .ok q
      ∧ (run noteCalls notePage).Reloads q)
      ∧ notePage.bytes[0]? = some 255 ∧ notePage.bytes[6]? = some 0 := by
  have hcalls : ∀ call ∈ noteCalls, call.Proper := by
    simp only [noteCalls, List.forall_mem_cons]
    exact ⟨trivial, rfl, nofun⟩
  have hlength : readBigEndian (noteImage.drop (Page.columnStart noteSchema noteImage.length 0 0)) = some 1 := by
    decide +kernel
  have hplace : 6 = Page.columnStart noteSchema noteImage.length 0 0 + 5 := by
    decide +kernel
  have hcleared : Page.Cleared noteSchema noteImage 6 := by
    rw [hplace]
    exact .padding (by decide +kernel) (by decide +kernel) rfl hlength (by decide) (by decide)
  obtain ⟨-, hreload, hbytes⟩ := image_run decode_noteImage hcalls
  refine ⟨hreload, (hbytes 0 (by decide +kernel)).2 fun hzero => ?_, (hbytes 6 (by decide +kernel)).1 hcleared⟩
  exact absurd hzero.bitmapSize_le (by decide +kernel)

end PageCall

end RelStore
