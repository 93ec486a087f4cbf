/-
How a page is laid out.

* `le_slotCount_iff` — a page has as many slots as there is room for, with a bit for each of them in whole bytes;
* `Page.bitmapRange`, `Page.slotRange`, `Page.columnRange` — the bytes of the bitmap, of a slot and of a field in it, and
  that they lie apart from each other;
* `Page.decodeInSlices_eq` — reading a page takes no slice that is not inside the image;
* `Page.Layout` — all of this for pages of one size, with what is written of them before the padding, and for files of
  such pages;
* `Page.layout_of_lt` — every size below 2 ^ 61 has it.

Design notes.  `Page.decode` takes what there is of a slice, so that nothing in it could show a slice that goes too far.
It is compared with the same reading in which such a slice is an error.  The bits of a page below 2 ^ 61 bytes are
counted without overflow.
-/
import Mathlib
import RelStore.Proofs.Storage.PageBytes
import RelStore.Proofs.Storage.PageFile
import RelStore.Proofs.Schema.Names

namespace RelStore

/-! ### The number of slots -/

theorem bitmapSize_eq_ceilDiv (slots : Nat) : bitmapSize slots = slots ⌈/⌉ 8 :=
  (Nat.ceilDiv_eq_add_pred_div slots 8).symm

/-- There are as many slots as there is room for. -/
theorem le_slotCount_iff {schema : Schema} {size n : Nat} (h : size < 2 ^ 61) :
    n ≤ slotCount schema size ↔ bitmapSize n + n * schema.width ≤ size := by
  have hbits : n * (schema.width * 8 + 1) = 8 * (n * schema.width) + n := by
    rw [Nat.mul_add, Nat.mul_one, ← Nat.mul_assoc, Nat.mul_comm _ 8]
  rw [slotCount, Nat.mod_eq_of_lt (by rw [UInt64.size]; omega), Nat.le_div_iff_mul_le (Nat.succ_pos _), hbits, bitmapSize]
  omega

namespace Page

variable {schema : Schema} {size slot slot' column column' : Nat} {id : PageId} {image : List UInt8}

/-! ### Where the parts lie -/

/-- The bytes of the bitmap. -/
def bitmapRange (schema : Schema) (size : Nat) : Set Nat :=
  Set.Ico 0 (bitmapSize (slotCount schema size))

/-- The bytes of a slot. -/
def slotRange (schema : Schema) (size slot : Nat) : Set Nat :=
  Set.Ico (slotStart schema size slot) (slotStart schema size (slot + 1))

/-- The bytes of a field in a slot. -/
def columnRange (schema : Schema) (size slot column : Nat) : Set Nat :=
  Set.Ico (columnStart schema size slot column) (columnStart schema size slot (column + 1))

theorem slotStart_succ : slotStart schema size (slot + 1) = slotStart schema size slot + schema.width := by
  rw [slotStart, slotStart, Nat.succ_mul, Nat.add_assoc]

theorem slotStart_mono : Monotone (slotStart schema size) :=
  fun _ _ h => Nat.add_le_add_left (Nat.mul_le_mul_right _ h) _

theorem slotStart_le (h : slot ≤ slotCount schema size) : slotStart schema size slot ≤ size :=
  Nat.le_trans (slotStart_mono h) (slotCount_fits schema size)

theorem columnStart_mono (slot : Nat) : Monotone (columnStart schema size slot) := by
  intro column column' h
  obtain ⟨n, rfl⟩ := Nat.exists_eq_add_of_le h
  rw [columnStart, columnStart, List.take_add, Schema.totalWidth_append]
  omega

theorem columnStart_arity : columnStart schema size slot schema.arity = slotStart schema size (slot + 1) := by
  rw [columnStart, Schema.arity, List.take_length, slotStart_succ, Schema.width]

/-- A field takes the bytes of its type. -/
theorem columnStart_succ {t : FieldType} (ht : schema.types[column]? = some t) :
    columnStart schema size slot (column + 1) = columnStart schema size slot column + t.width := by
  rw [columnStart, columnStart, List.take_add_one, ht, Schema.totalWidth_append, ← Nat.add_assoc]
  rfl

theorem disjoint_bitmapRange (slot : Nat) : Disjoint (bitmapRange schema size) (slotRange schema size slot) := by
  rw [bitmapRange, slotRange, Set.Ico_disjoint_Ico]
  exact Nat.le_trans (Nat.min_le_left ..) (Nat.le_trans (Nat.le_add_right ..) (Nat.le_max_right ..))

theorem disjoint_slotRange (h : slot ≠ slot') :
    Disjoint (slotRange schema size slot) (slotRange schema size slot') :=
  slotStart_mono.pairwise_disjoint_on_Ico_succ h

theorem columnRange_subset (h : column < schema.arity) :
    columnRange schema size slot column ⊆ slotRange schema size slot := by
  refine Set.Ico_subset_Ico (Nat.le_add_right ..) ?_
  rw [← columnStart_arity]
  exact columnStart_mono slot h

theorem disjoint_columnRange (hcolumn : column < schema.arity) (hcolumn' : column' < schema.arity)
    (hne : slot ≠ slot' ∨ column ≠ column') :
    Disjoint (columnRange schema size slot column) (columnRange schema size slot' column') := by
  by_cases hslot : slot = slot'
  · subst hslot
    exact (columnStart_mono slot).pairwise_disjoint_on_Ico_succ (hne.resolve_left (not_not_intro rfl))
  · exact (disjoint_slotRange hslot).mono (columnRange_subset hcolumn) (columnRange_subset hcolumn')

/-! ### Reading in slices -/

/-- Why an image is not read. -/
inductive SliceError where
  /-- There are not so many bytes from there on. -/
  | outside (start length : Nat)
  | storage (cause : StorageError)

/-- The bytes from a place on, as many as are wanted. -/
def slice (bytes : List UInt8) (start length : Nat) : Except SliceError (List UInt8) :=
  if start + length ≤ bytes.length then .ok ((bytes.drop start).take length) else .error (.outside start length)

/-- The fields of one row, each from a slice of its own. -/
def readColumns (id : PageId) (image : List UInt8) (start : Nat) : List FieldType → Except SliceError (List Field)
  | [] => .ok []
  | t :: types => do
    let bytes ← slice image start t.width
    match t.parse bytes with
    | none => .error (.storage (.corrupt id))
    | some f => do
      let fields ← readColumns id image (start + t.width) types
      pure (f :: fields)

/-- What is in a slot, if its bit is set. -/
def readSlot (id : PageId) (schema : Schema) (image bitmap : List UInt8) (slot : Nat) :
    Except SliceError (Option Row) :=
  match bitmap[slot / 8]? with
  | none => .error (.outside (slot / 8) 1)
  | some byte =>
    if byte.toNat.testBit (slot % 8) then do
      let fields ← readColumns id image (slotStart schema image.length slot) schema.types
      pure (some ⟨schema, fields, some ⟨id, slot⟩⟩)
    else pure none

/-- The page with the given bytes, which are read slice by slice. -/
def decodeInSlices (id : PageId) (schema : Schema) (image : List UInt8) : Except SliceError Page := do
  let bitmap ← slice image 0 (bitmapSize (slotCount schema image.length))
  let slots ← (List.range (slotCount schema image.length)).mapM (readSlot id schema image bitmap)
  pure ⟨id, schema, image.length, bitsOfBytes bitmap, slots⟩

theorem slice_eq_ok {start length : Nat} (h : start + length ≤ image.length) :
    slice image start length = .ok ((image.drop start).take length) :=
  if_pos h

/-- What was read, or that the page is corrupt. -/
def orCorrupt {α : Type} (id : PageId) : Option α → Except SliceError α
  | some x => .ok x
  | none => .error (.storage (.corrupt id))

theorem readColumns_eq {types : List FieldType} {start : Nat}
    (h : start + Schema.totalWidth types ≤ image.length) :
    readColumns id image start types = orCorrupt id (readFields types (image.drop start)) := by
  induction types generalizing start with
  | nil => rfl
  | cons t types ih =>
    rw [Schema.totalWidth, ← Nat.add_assoc] at h
    rw [readColumns, slice_eq_ok (by omega), readFields, List.drop_drop]
    show (match t.parse ((image.drop start).take t.width) with
      | none => _
      | some f => _) = _
    rw [ih h]
    cases t.parse ((image.drop start).take t.width) with
    | none => rfl
    | some f => cases readFields types (image.drop (start + t.width)) <;> rfl

theorem readSlot_eq (hslot : slot < slotCount schema image.length) :
    readSlot id schema image (image.take (bitmapSize (slotCount schema image.length))) slot
      = if marked image slot then
          (orCorrupt id (readFields schema.types (image.drop (slotStart schema image.length slot)))).map
            fun fields => some ⟨schema, fields, some ⟨id, slot⟩⟩
        else .ok none := by
  have hfits := slotCount_fits schema image.length
  have hbyte : slot / 8 < bitmapSize (slotCount schema image.length) := by
    rw [bitmapSize]
    omega
  have hend : slotStart schema image.length (slot + 1) ≤ image.length := slotStart_le hslot
  rw [slotStart_succ, Schema.width] at hend
  rw [readSlot, marked, List.getD_eq_getElem?_getD, List.getElem?_take_of_lt hbyte,
    List.getElem?_eq_getElem (by omega), readColumns_eq hend]
  rfl

/-- Slots that are read one by one are read as one after the other. -/
theorem mapM_readSlot (id : PageId) {i k : Nat} (h : i + k ≤ slotCount schema image.length) :
    (List.range' i k).mapM (readSlot id schema image (image.take (bitmapSize (slotCount schema image.length))))
      = orCorrupt id (readSlots id schema i ((List.range' i k).map (marked image))
        (image.drop (slotStart schema image.length i))) := by
  induction k generalizing i with
  | zero => rfl
  | succ k ih =>
    rw [List.range'_succ, List.mapM_cons, ih (by omega), readSlot_eq (by omega), List.map_cons, readSlots, List.drop_drop,
      ← slotStart_succ]
    cases marked image i with
    | true =>
      cases readFields schema.types (image.drop (slotStart schema image.length i)) <;>
        cases readSlots id schema (i + 1) ((List.range' (i + 1) k).map (marked image))
          (image.drop (slotStart schema image.length (i + 1))) <;> rfl
    | false =>
      cases readSlots id schema (i + 1) ((List.range' (i + 1) k).map (marked image))
        (image.drop (slotStart schema image.length (i + 1))) <;> rfl

theorem take_bits : (bitsOfBytes (image.take (bitmapSize (slotCount schema image.length)))).take
    (slotCount schema image.length) = (List.range (slotCount schema image.length)).map (marked image) := by
  refine List.ext_getElem? fun slot => ?_
  by_cases hslot : slot < slotCount schema image.length
  · rw [getElem?_bits hslot, List.getElem?_map, List.getElem?_range hslot]
    rfl
  · rw [List.getElem?_eq_none (Nat.le_trans (List.length_take_le ..) (Nat.le_of_not_lt hslot)),
      List.getElem?_eq_none (by rw [List.length_map, List.length_range]; exact Nat.le_of_not_lt hslot)]

/-- Reading takes no slice that is not inside the image. -/
theorem decodeInSlices_eq (id : PageId) (schema : Schema) (image : List UInt8) :
    decodeInSlices id schema image = (decode id schema image).mapError .storage := by
  have hfits := slotCount_fits schema image.length
  have hbitmap : slice image 0 (bitmapSize (slotCount schema image.length)) = _ := slice_eq_ok (by omega)
  have hslots := mapM_readSlot id (Nat.le_of_eq (Nat.zero_add (slotCount schema image.length)))
  rw [← List.range_eq_range', ← take_bits, slotStart, Nat.zero_mul, Nat.add_zero] at hslots
  simp only [decodeInSlices, hbitmap, List.drop_zero, decode]
  show (List.mapM (readSlot id schema image (image.take (bitmapSize (slotCount schema image.length)))) _
    >>= fun slots => _) = _
  rw [hslots]
  cases readSlots id schema 0 ((bitsOfBytes (image.take (bitmapSize (slotCount schema image.length)))).take
    (slotCount schema image.length)) (image.drop (bitmapSize (slotCount schema image.length))) <;> rfl

/-- An image is a page, or it is corrupt. -/
theorem decode_cases (id : PageId) (schema : Schema) (image : List UInt8) :
    (∃ p, decode id schema image = .ok p) ∨ decode id schema image = .error (.corrupt id) := by
  rw [decode]
  split
  · exact .inl ⟨_, rfl⟩
  · exact .inr rfl

/-! ### Writing -/

/-- The bytes of a page before the padding. -/
def unpadded (p : Page) : List UInt8 :=
  bytesOfBits p.bitmap ++ p.slots.flatMap (slotBytes p.schema.width)

/-- What is written of a page has room in it, and only zeros are added. -/
theorem WellFormed.unpadded_le {p : Page} (h : p.WellFormed) :
    p.unpadded.length ≤ p.size ∧ ∃ zeros, p.bytes = p.unpadded ++ List.replicate zeros 0 := by
  obtain ⟨zeros, hbytes⟩ := bytes_eq h
  rw [← List.append_assoc] at hbytes
  have hlength := congrArg List.length hbytes
  rw [length_bytes, List.length_append] at hlength
  exact ⟨by rw [unpadded]; omega, zeros, hbytes⟩

/-- How pages of one size are laid out, what is read and written of them, and files of such pages. -/
structure Layout (schema : Schema) (size : Nat) : Prop where
  /-- Bitmap and slots have room, and would not have with one more slot. -/
  slotCount : IsGreatest {n | n ⌈/⌉ 8 + n * schema.width ≤ size} (slotCount schema size)
  bitmap_inside : bitmapRange schema size ⊆ Set.Iio size
  slot_inside : ∀ slot < RelStore.slotCount schema size, slotRange schema size slot ⊆ Set.Iio size
  column_width : ∀ slot column t, schema.types[column]? = some t →
    columnStart schema size slot (column + 1) = columnStart schema size slot column + t.width
  column_inside : ∀ slot, ∀ column < schema.arity, columnRange schema size slot column ⊆ slotRange schema size slot
  bitmap_apart : ∀ slot, Disjoint (bitmapRange schema size) (slotRange schema size slot)
  slots_apart : ∀ slot slot', slot ≠ slot' → Disjoint (slotRange schema size slot) (slotRange schema size slot')
  columns_apart : ∀ slot slot', ∀ column < schema.arity, ∀ column' < schema.arity, slot ≠ slot' ∨ column ≠ column' →
    Disjoint (columnRange schema size slot column) (columnRange schema size slot' column')
  /-- An image is read without a slice that goes too far. -/
  read : ∀ id image, image.length = size →
    ((∃ p, decode id schema image = .ok p) ∨ decode id schema image = .error (.corrupt id))
      ∧ decodeInSlices id schema image = (decode id schema image).mapError .storage
  /-- A page that was read, and maybe changed, is written without cutting anything off. -/
  written : ∀ id image p calls, image.length = size → decode id schema image = .ok p →
    (∀ call ∈ calls, PageCall.Proper call) → (PageCall.run calls p).unpadded.length ≤ size
      ∧ ∃ zeros, (PageCall.run calls p).bytes = (PageCall.run calls p).unpadded ++ List.replicate zeros 0
  /-- The pages of a file that opens can be counted. -/
  counted : ∀ d text f d', HeapFile.openAt d text schema size = .ok (f, d') → 0 < f.pageSize
    ∧ ∀ (d : Disk) (n : Nat), n < f.pageCount d ↔ f.pageSize * n < (d.contents f.path).length

/-- Pages of less than 2 ^ 61 bytes are laid out so, whatever the columns, also if there are none. -/
theorem layout_of_lt {size : Nat} (h : size < 2 ^ 61) (schema : Schema) : Layout schema size where
  slotCount := by
    refine ⟨?_, fun n hn => (le_slotCount_iff h).mpr ?_⟩
    · show _ ⌈/⌉ 8 + _ ≤ size
      rw [← bitmapSize_eq_ceilDiv]
      exact slotCount_fits schema size
    · rw [bitmapSize_eq_ceilDiv]
      exact hn
  bitmap_inside := fun i hi => Nat.lt_of_lt_of_le hi.2 (Nat.le_trans (Nat.le_add_right ..) (slotCount_fits schema size))
  slot_inside := fun slot hslot i hi => Nat.lt_of_lt_of_le hi.2 (slotStart_le hslot)
  column_width := fun slot column t => columnStart_succ
  column_inside := fun slot column => columnRange_subset
  bitmap_apart := disjoint_bitmapRange
  slots_apart := fun slot slot' => disjoint_slotRange
  columns_apart := fun slot slot' column hcolumn column' hcolumn' => disjoint_columnRange hcolumn hcolumn'
  read := fun id image _ => ⟨decode_cases id schema image, decodeInSlices_eq id schema image⟩
  written := by
    intro id image p calls hlength hdecode hcalls
    obtain ⟨hwf, -, -, hsize, -⟩ := wellFormed_of_decode hdecode
    obtain ⟨hrun, -, -, hrunSize⟩ := PageCall.wellFormed_run hwf hcalls
    have hle := hrun.unpadded_le
    rw [hrunSize, hsize, hlength] at hle
    exact hle
  counted := fun d text f d' hopen =>
    have hpos := HeapFile.pageSize_pos_of_open hopen
    ⟨hpos, HeapFile.lt_pageCount_iff hpos⟩

/-- A page of texts that is full to its last byte, after one of them made room for another. -/
theorem layout_of_lt_notes :
    133 < 2 ^ 61 ∧ IsGreatest {n | n ⌈/⌉ 8 + n * 132 ≤ 133} 1
      ∧ (PageCall.run PageCall.noteCalls PageCall.notePage).unpadded.length ≤ 133
      ∧ ∃ f d', HeapFile.openAt .empty "note.dat" PageCall.noteSchema 133 = .ok (f, d') ∧ 0 < f.pageSize := by
  have hlayout := layout_of_lt (show 133 < 2 ^ 61 by decide) PageCall.noteSchema
  have hcalls : ∀ call ∈ PageCall.noteCalls, call.Proper := by
    simp only [PageCall.noteCalls, List.forall_mem_cons]
    exact ⟨trivial, rfl, fun _ hnil => absurd hnil List.not_mem_nil⟩
  have hopen : ∃ f d', HeapFile.openAt .empty "note.dat" PageCall.noteSchema 133 = .ok (f, d') :=
    ⟨⟨["note.dat"], PageCall.noteSchema, 133⟩, _, rfl⟩
  obtain ⟨f, d', hopen⟩ := hopen
  exact ⟨by decide, hlayout.slotCount,
    (hlayout.written _ _ _ _ (by decide +kernel) PageCall.decode_noteImage hcalls).1,
    f, d', hopen, (hlayout.counted _ _ f d' hopen).1⟩

end Page

end RelStore
