/-
The image of a page.

A page is written as its bitmap and its slots, and read back from these bytes.  Reading a written page gives
the page back with its long texts cut (`Page.decode_bytes`), and every page that was read is well formed
(`Page.wellFormed_of_decode`):

* `Row.Complete` — a row has a field for every column;
* `Page.Cells` — the rows of a page by slot, without schema and address;
* `Page.WellFormed` — bitmap and slots tell the same, and every row stands at its address with the types of
  the page;
* `Page.WellFormed.insert`, `Page.WellFormed.delete` — both changes keep a page well formed;
* `Page.insert_eq`, `Page.delete_eq` — what the changes answer, told on the cells alone;
* `slotCount_fits` — bitmap and slots of a page have room in its bytes.
-/
import RelStore.Storage.HeapFile

namespace RelStore

/-! ### Bits of a bitmap -/

theorem bitsOfByte_natOfBits (a b c d e f g h : Bool) :
    bitsOfByte (UInt8.ofNat (natOfBits [a, b, c, d, e, f, g, h])) = [a, b, c, d, e, f, g, h] := by
  -- a byte has 256 values, so all of them are looked at
  revert a b c d e f g h
  decide +kernel

/-- Bits that fill whole bytes are read back from these bytes. -/
theorem bitsOfBytes_bytesOfBits {n : Nat} {bits : List Bool} (h : bits.length = 8 * n) :
    bitsOfBytes (bytesOfBits bits) = bits := by
  -- eight bits at a time, as the bytes are made
  induction n generalizing bits with
  | zero =>
    rw [List.length_eq_zero_iff.mp h]
    rfl
  | succ n ih =>
    match bits, h with
    | b₀ :: b₁ :: b₂ :: b₃ :: b₄ :: b₅ :: b₆ :: b₇ :: rest, h =>
      have hrest : rest.length = 8 * n := by
        simp only [List.length_cons] at h
        omega
      have := ih hrest
      simp only [bitsOfBytes] at this
      simp only [bytesOfBits, bitsOfBytes, List.flatMap_cons, bitsOfByte_natOfBits, this]
      rfl

theorem length_bytesOfBits {n : Nat} {bits : List Bool} (h : bits.length = 8 * n) :
    (bytesOfBits bits).length = n := by
  have hlen := length_bitsOfBytes (bytesOfBits bits)
  rw [bitsOfBytes_bytesOfBits h] at hlen
  omega

/-- Bitmap and slots of a page have room in its bytes. -/
theorem slotCount_fits (schema : Schema) (size : Nat) :
    bitmapSize (slotCount schema size) + slotCount schema size * schema.width ≤ size := by
  -- the product with 8 may wrap around, and then there are fewer slots, never more
  have hmod : size * 8 % UInt64.size ≤ size * 8 := Nat.mod_le _ _
  have hdiv : slotCount schema size * (schema.width * 8 + 1) ≤ size * 8 % UInt64.size :=
    Nat.div_mul_le_self _ _
  have hexp : slotCount schema size * (schema.width * 8 + 1)
      = 8 * (slotCount schema size * schema.width) + slotCount schema size := by
    rw [Nat.mul_add, Nat.mul_one, ← Nat.mul_assoc, Nat.mul_comm _ 8]
  simp only [bitmapSize]
  omega

/-- A page of no bytes has no slots. -/
theorem pos_of_slotCount {schema : Schema} {size : Nat} (h : slotCount schema size ≠ 0) : 0 < size := by
  refine Nat.pos_of_ne_zero fun hz => h ?_
  simp [slotCount, hz]

/-! ### Fields as pages keep them -/

/-- A text within the limit is not cut. -/
theorem cutText_of_length_le {room : Nat} {s : String} (h : (textBytes s).length ≤ room) :
    cutText room s = s := by
  have hlen : (textBytes s).length = utf8Length s.toList := by
    rw [← length_textBytes_ofList, String.ofList_toList]
  rw [cutText, fitting_of_le (by omega), String.ofList_toList]

/-- Whether a page keeps the field as it is. -/
def Field.Fits : Field → Prop
  | .int _ => True
  | .str s => (textBytes s).length ≤ FieldType.textLimit

instance : DecidablePred Field.Fits
  | .int _ => isTrue trivial
  | .str s => inferInstanceAs (Decidable ((textBytes s).length ≤ FieldType.textLimit))

theorem Field.stored_eq_self_iff {f : Field} : f.stored = f ↔ f.Fits := by
  cases f with
  | int v => exact ⟨fun _ => trivial, fun _ => rfl⟩
  | str s =>
    simp only [Field.stored, Field.str.injEq, Field.Fits]
    refine ⟨fun h => ?_, cutText_of_length_le⟩
    rw [← h]
    exact length_textBytes_cutText ..

theorem Field.stored_stored (f : Field) : f.stored.stored = f.stored := by
  cases f with
  | int v => rfl
  | str s => simp only [Field.stored, cutText_cutText]

/-- What is read from bytes has the type that was asked for, and is not cut any more. -/
theorem FieldType.parse_eq_some {t : FieldType} {bytes : List UInt8} {f : Field}
    (h : t.parse bytes = some f) : f.type = t ∧ f.stored = f := by
  cases t with
  | int =>
    simp only [FieldType.parse, Option.map_eq_some_iff] at h
    obtain ⟨n, -, rfl⟩ := h
    exact ⟨rfl, rfl⟩
  | str =>
    simp only [FieldType.parse, Option.bind_eq_bind, Option.bind_eq_some_iff] at h
    obtain ⟨n, -, hn⟩ := h
    split at hn
    · next hle =>
      obtain ⟨s, hs, rfl⟩ := Option.map_eq_some_iff.mp hn
      have hbytes : textBytes s = (bytes.drop 4).take n := textOfBytes?_eq_some_iff.mp hs
      refine ⟨rfl, ?_⟩
      rw [Field.stored, cutText_of_length_le]
      rw [hbytes, hle.2]
      exact hle.1
    · cases hn

theorem readFields_eq_some {types : List FieldType} {bytes : List UInt8} {fields : List Field}
    (h : readFields types bytes = some fields) :
    fields.map Field.type = types ∧ fields.map Field.stored = fields := by
  induction types generalizing bytes fields with
  | nil =>
    simp only [readFields, Option.some.injEq] at h
    subst h
    exact ⟨rfl, rfl⟩
  | cons t types ih =>
    simp only [readFields] at h
    split at h
    · next f fs hf hfs =>
      cases h
      have h1 := FieldType.parse_eq_some hf
      have h2 := ih hfs
      simp only [List.map_cons, h1.1, h1.2, h2.1, h2.2, and_self]
    · cases h

/-- The row has as many fields as its schema has columns. -/
def Row.Complete (row : Row) : Prop :=
  row.fields.length = row.schema.types.length

instance : DecidablePred Row.Complete :=
  fun row => inferInstanceAs (Decidable (row.fields.length = row.schema.types.length))

namespace Page

/-! ### Cells -/

/-- The rows of a page by slot, without schema and address. -/
abbrev Cells := List (Option (List Field))

/-- The cells of a page. -/
def cells (p : Page) : Cells :=
  p.slots.map (Option.map Row.fields)

/-- The fields of a row as a page keeps them. -/
def cutRow (fields : List Field) : List Field :=
  fields.map Field.stored

/-- Cells with all long texts cut. -/
def cut (cells : Cells) : Cells :=
  cells.map (Option.map cutRow)

@[simp] theorem cutRow_cutRow (fields : List Field) : cutRow (cutRow fields) = cutRow fields := by
  simp only [cutRow, List.map_map]
  exact List.map_congr_left fun f _ => Field.stored_stored f

theorem cutRow_eq_self_iff {fields : List Field} : cutRow fields = fields ↔ ∀ f ∈ fields, f.Fits := by
  simp only [← Field.stored_eq_self_iff, cutRow]
  induction fields with
  | nil => simp
  | cons f fields ih => simp [ih]

@[simp] theorem length_cells (p : Page) : p.cells.length = p.slots.length :=
  List.length_map _

theorem findIdx?_cells (p : Page) :
    p.cells.findIdx? Option.isNone = p.slots.findIdx? Option.isNone := by
  rw [cells, List.findIdx?_map]
  congr 1
  funext s
  cases s <;> rfl

theorem isUsed_iff_cells {p : Page} {slot : Nat} :
    p.isUsed slot = true ↔ ∃ fields, p.cells[slot]? = some (some fields) := by
  rw [isUsed_iff, cells, List.getElem?_map]
  constructor
  · rintro ⟨r, hr⟩
    exact ⟨r.fields, by rw [hr]; rfl⟩
  · rintro ⟨fields, hf⟩
    obtain ⟨s, hs, hmap⟩ := Option.map_eq_some_iff.mp hf
    obtain ⟨r, rfl, -⟩ := Option.map_eq_some_iff.mp hmap
    exact ⟨r, hs⟩

theorem cells_setSlot (p : Page) (slot : Nat) (content : Option Row) :
    (p.setSlot slot content).cells = p.cells.set slot (content.map Row.fields) := by
  rw [cells, slots_setSlot, List.map_set]
  rfl

/-- A page has empty slots as long as one of its cells is empty. -/
theorem emptySlots_pos_iff (p : Page) : 0 < p.emptySlots ↔ none ∈ p.cells := by
  rw [emptySlots, List.countP_pos_iff, cells]
  constructor
  · rintro ⟨s, hs, hnone⟩
    cases s with
    | none => exact List.mem_map.mpr ⟨none, hs, rfl⟩
    | some r => cases hnone
  · intro h
    obtain ⟨s, hs, hnone⟩ := List.mem_map.mp h
    cases s with
    | none => exact ⟨none, hs, rfl⟩
    | some r => cases hnone

/-! ### Well-formed pages -/

/-- Bitmap and slots tell the same, and every row stands at its address with the types of the page. -/
structure WellFormed (p : Page) : Prop where
  length_bitmap : p.bitmap.length = 8 * bitmapSize (slotCount p.schema p.size)
  length_slots : p.slots.length = slotCount p.schema p.size
  marks : p.bitmap.take p.slots.length = p.slots.map Option.isSome
  record : ∀ {i : Nat} {r : Row}, p.slots[i]? = some (some r) → r.record = some ⟨p.id, i⟩
  types : ∀ {i : Nat} {r : Row}, p.slots[i]? = some (some r) → r.fields.map Field.type = p.schema.types

/-- The cells of a page hold fields of the types of the page. -/
theorem WellFormed.types_of_mem_cells {p : Page} (h : p.WellFormed) {fields : List Field}
    (hfields : some fields ∈ p.cells) : fields.map Field.type = p.schema.types := by
  obtain ⟨slot, hslot, hrow⟩ := List.mem_map.mp hfields
  obtain ⟨r, rfl, rfl⟩ := Option.map_eq_some_iff.mp hrow
  obtain ⟨i, hi⟩ := List.mem_iff_getElem?.mp hslot
  exact h.types hi

/-- What is read into the slots from slot `i` on. -/
theorem readSlots_eq_some {id : PageId} {schema : Schema} {i : Nat} {bits : List Bool}
    {bytes : List UInt8} {slots : List (Option Row)}
    (h : readSlots id schema i bits bytes = some slots) :
    slots.map Option.isSome = bits ∧
      ∀ (j : Nat) (r : Row), slots[j]? = some (some r) →
        r.record = some ⟨id, i + j⟩ ∧ r.fields.map Field.type = schema.types
          ∧ r.fields.map Field.stored = r.fields := by
  -- the address counts on with the bits, so the claim is about slots from `i` on
  induction bits generalizing i bytes slots with
  | nil =>
    simp only [readSlots, Option.some.injEq] at h
    subst h
    exact ⟨rfl, fun j r hr => by simp at hr⟩
  | cons used bits ih =>
    simp only [readSlots] at h
    split at h
    · cases h
    · next rest hrest =>
      obtain ⟨hmarks, hrows⟩ := ih hrest
      have htail : ∀ (j : Nat) (r : Row), rest[j]? = some (some r) →
          r.record = some ⟨id, i + (j + 1)⟩ ∧ r.fields.map Field.type = schema.types
            ∧ r.fields.map Field.stored = r.fields := by
        intro j r hr
        have := hrows j r hr
        rwa [Nat.add_right_comm, Nat.add_assoc] at this
      cases used with
      | true =>
        simp only [if_true, Option.map_eq_some_iff] at h
        obtain ⟨fs, hfs, rfl⟩ := h
        refine ⟨by rw [List.map_cons, hmarks]; rfl, ?_⟩
        intro j r hr
        cases j with
        | zero =>
          simp only [List.getElem?_cons_zero, Option.some.injEq] at hr
          subst hr
          exact ⟨rfl, readFields_eq_some hfs⟩
        | succ j => exact htail j r (by simpa using hr)
      | false =>
        simp only [Bool.false_eq_true, if_false, Option.some.injEq] at h
        subst h
        refine ⟨by rw [List.map_cons, hmarks]; rfl, ?_⟩
        intro j r hr
        cases j with
        | zero => simp at hr
        | succ j => exact htail j r (by simpa using hr)

/-- A page that was read is well formed, and its texts are cut already. -/
theorem wellFormed_of_decode {id : PageId} {schema : Schema} {bytes : List UInt8} {p : Page}
    (h : decode id schema bytes = .ok p) :
    p.WellFormed ∧ p.id = id ∧ p.schema = schema ∧ p.size = bytes.length ∧ cut p.cells = p.cells := by
  simp only [decode] at h
  split at h
  · next slots hslots =>
    cases h
    obtain ⟨hmarks, hrows⟩ := readSlots_eq_some hslots
    have hfits := slotCount_fits schema bytes.length
    have hbits : (bitsOfBytes (bytes.take (bitmapSize (slotCount schema bytes.length)))).length
        = 8 * bitmapSize (slotCount schema bytes.length) := by
      rw [length_bitsOfBytes, List.length_take]
      congr 1
      omega
    -- bits that fill up the last byte of the bitmap stand for no slot
    have hlen : slots.length = slotCount schema bytes.length := by
      have := congrArg List.length hmarks
      rw [List.length_map, List.length_take, hbits] at this
      simp only [bitmapSize] at this
      omega
    refine ⟨⟨hbits, hlen, by rw [hlen, hmarks], ?_, ?_⟩, rfl, rfl, rfl, ?_⟩
    · intro i r hr
      have := (hrows i r hr).1
      rwa [Nat.zero_add] at this
    · intro i r hr
      exact (hrows i r hr).2.1
    · simp only [cells, cut, List.map_map]
      refine List.map_congr_left fun s hs => ?_
      cases s with
      | none => rfl
      | some r =>
        obtain ⟨i, hi⟩ := List.mem_iff_getElem?.mp hs
        exact congrArg some (hrows i r hi).2.2
  · cases h

/-! ### Reading a written page -/

/-- The page as it comes back from its bytes. -/
def stored (p : Page) : Page :=
  { p with slots := p.slots.map (Option.map fun r => ⟨p.schema, cutRow r.fields, r.record⟩) }

@[simp] theorem cells_stored (p : Page) : p.stored.cells = cut p.cells := by
  simp only [stored, cells, cut, List.map_map]
  refine List.map_congr_left fun s _ => ?_
  cases s <;> rfl

theorem length_slotBytes {schema : Schema} {s : Option Row}
    (h : ∀ r, s = some r → r.fields.map Field.type = schema.types) :
    (slotBytes schema.width s).length = schema.width := by
  cases s with
  | none => exact List.length_replicate
  | some r => rw [slotBytes, length_images, h r rfl, Schema.width]

/-- Slots are read back from their bytes. -/
theorem readSlots_slotBytes {id : PageId} {schema : Schema} {i : Nat} {slots : List (Option Row)}
    (h : ∀ (j : Nat) (r : Row), slots[j]? = some (some r) →
      r.record = some ⟨id, i + j⟩ ∧ r.fields.map Field.type = schema.types) (rest : List UInt8) :
    readSlots id schema i (slots.map Option.isSome)
        (slots.flatMap (slotBytes schema.width) ++ rest)
      = some (slots.map (Option.map fun r => ⟨schema, cutRow r.fields, r.record⟩)) := by
  induction slots generalizing i with
  | nil => rfl
  | cons s slots ih =>
    have hs : ∀ r, s = some r →
        r.record = some ⟨id, i⟩ ∧ r.fields.map Field.type = schema.types := by
      rintro r rfl
      exact h 0 r rfl
    have hlen := length_slotBytes fun r hr => (hs r hr).2
    have htail := ih (i := i + 1) fun j r hr => by
      have := h (j + 1) r (by simpa using hr)
      rwa [Nat.add_right_comm, Nat.add_assoc]
    simp only [List.map_cons, List.flatMap_cons, List.append_assoc, readSlots,
      List.drop_left' hlen, htail]
    cases s with
    | none => rfl
    | some r =>
      obtain ⟨hrecord, htypes⟩ := hs r rfl
      simp only [Option.isSome_some, if_true, slotBytes, ← htypes, readFields_images,
        Option.map_some, hrecord]
      rfl

theorem length_flatMap_slotBytes {p : Page} (h : p.WellFormed) :
    (p.slots.flatMap (slotBytes p.schema.width)).length
      = slotCount p.schema p.size * p.schema.width := by
  rw [List.length_flatMap, List.map_congr_left (g := fun _ => p.schema.width), ← h.length_slots]
  · rw [List.map_const', List.sum_replicate_nat]
  · intro s hs
    refine length_slotBytes fun r hr => ?_
    obtain ⟨i, hi⟩ := List.mem_iff_getElem?.mp hs
    exact h.types (by rw [hi, hr])

/-- The bytes of a page are its bitmap, its slots and zeros; nothing is cut off. -/
theorem bytes_eq {p : Page} (h : p.WellFormed) :
    ∃ zeros, p.bytes
      = bytesOfBits p.bitmap ++ (p.slots.flatMap (slotBytes p.schema.width) ++ List.replicate zeros 0) := by
  have hfits := slotCount_fits p.schema p.size
  have h1 := length_bytesOfBits h.length_bitmap
  have h2 := length_flatMap_slotBytes h
  rw [bytes, resize, List.take_of_length_le (by rw [List.length_append, h1, h2]; exact hfits),
    List.append_assoc]
  exact ⟨_, rfl⟩

/-- Reading the bytes of a page gives the page back, with long texts cut. -/
theorem decode_bytes {p : Page} (h : p.WellFormed) :
    decode p.id p.schema p.bytes = .ok p.stored := by
  obtain ⟨zeros, hbytes⟩ := bytes_eq h
  have hlen := length_bytesOfBits h.length_bitmap
  have hslots : readSlots p.id p.schema 0 (p.slots.map Option.isSome)
      (p.slots.flatMap (slotBytes p.schema.width) ++ List.replicate zeros 0) = some p.stored.slots :=
    readSlots_slotBytes (fun j r hr => ⟨by rw [Nat.zero_add]; exact h.record hr, h.types hr⟩) _
  simp only [decode, length_bytes]
  rw [hbytes, List.take_left' hlen, List.drop_left' hlen, bitsOfBytes_bytesOfBits h.length_bitmap,
    ← h.length_slots, h.marks, hslots]
  rfl

/-! ### Changes of a page -/

/-- Filling or emptying one slot keeps a page well formed. -/
theorem WellFormed.setSlot {p : Page} (h : p.WellFormed) {slot : Nat} (hslot : slot < p.slots.length)
    {content : Option Row} (hc : ∀ r, content = some r →
      r.record = some ⟨p.id, slot⟩ ∧ r.fields.map Field.type = p.schema.types) :
    (p.setSlot slot content).WellFormed := by
  -- a row in the new slots was there before, or is the one that was put
  have hget : ∀ {i : Nat} {r : Row}, (p.slots.set slot content)[i]? = some (some r) →
      p.slots[i]? = some (some r) ∨ i = slot ∧ content = some r := by
    intro i r hr
    rw [List.getElem?_set] at hr
    split at hr
    · next heq =>
      exact .inr ⟨heq.symm, Option.some.inj hr⟩
    · exact .inl hr
  refine ⟨?_, ?_, ?_, ?_, ?_⟩
  · rw [bitmap_setSlot, List.length_set]
    exact h.length_bitmap
  · rw [slots_setSlot, List.length_set]
    exact h.length_slots
  · rw [bitmap_setSlot, slots_setSlot, List.length_set, List.take_set, h.marks, List.map_set]
  · intro i r hr
    rcases hget hr with hold | ⟨rfl, hnew⟩
    · exact h.record hold
    · exact (hc r hnew).1
  · intro i r hr
    rcases hget hr with hold | ⟨-, hnew⟩
    · exact h.types hold
    · exact (hc r hnew).2

/-- As many fields as types, each of its type, are fields of these types. -/
theorem types_of_wellTyped {schema : Schema} {fields : List Field}
    (hlen : fields.length = schema.types.length) (h : Row.wellTyped schema fields = true) :
    fields.map Field.type = schema.types := by
  refine List.ext_getElem (by rw [List.length_map, hlen]) fun i h1 h2 => ?_
  rw [List.length_map] at h1
  have hzip : (fields[i], schema.types[i]) ∈ fields.zip schema.types := by
    refine List.mem_iff_getElem.mpr ⟨i, by rw [List.length_zip]; omega, ?_⟩
    exact List.getElem_zip
  have := List.all_eq_true.mp h _ hzip
  rw [List.getElem_map]
  exact of_decide_eq_true this

theorem wellTyped_of_types {schema : Schema} {fields : List Field} (h : fields.map Field.type = schema.types) :
    Row.wellTyped schema fields = true := by
  rw [Row.wellTyped, ← h]
  clear h
  induction fields with
  | nil => rfl
  | cons f fields ih =>
    rw [List.map_cons, List.zip_cons_cons, List.all_cons, ih]
    simp

/-- What an insertion answers, told on the cells alone. -/
theorem insert_eq (p : Page) (r : Row) :
    p.insert r =
      if r.schema.agrees p.schema && Row.wellTyped p.schema r.fields then
        match p.cells.findIdx? Option.isNone with
        | some slot =>
          .ok (⟨p.id, slot⟩, p.setSlot slot (some { r with record := some ⟨p.id, slot⟩ }))
        | none => .error (.pageFull p.id)
      else .error (.mismatch p.schema r.schema) := by
  rw [findIdx?_cells]
  rfl

/-- An insertion that succeeds keeps the page well formed and fills its first empty cell. -/
theorem WellFormed.insert {p p' : Page} (h : p.WellFormed) {r : Row} {record : RecordId}
    (hlen : r.Complete) (hr : p.insert r = .ok (record, p')) :
    p'.WellFormed ∧ p'.id = p.id ∧ p'.schema = p.schema ∧ p'.size = p.size ∧
      ∃ slot, p.cells.findIdx? Option.isNone = some slot
        ∧ p'.cells = p.cells.set slot (some r.fields) := by
  rw [insert_eq] at hr
  split at hr
  · next hcond =>
    rw [Bool.and_eq_true] at hcond
    split at hr
    · next slot hslot =>
      cases hr
      have htypes := types_of_wellTyped
        (hlen.trans (congrArg List.length (Schema.agrees_iff.mp hcond.1))) hcond.2
      have hlt : slot < p.slots.length := by
        rw [← length_cells]
        exact (List.findIdx?_eq_some_iff_getElem.mp hslot).1
      refine ⟨h.setSlot hlt ?_, rfl, rfl, rfl, slot, hslot, cells_setSlot ..⟩
      intro r' hr'
      cases hr'
      exact ⟨rfl, htypes⟩
    · cases hr
  · cases hr

/-- What a deletion answers, told on the cells alone. -/
theorem delete_eq (p : Page) {r : Row} {record : RecordId} (hr : r.record = some record)
    (hpage : record.page = p.id) :
    p.delete r =
      match p.cells[record.slot]? with
      | some (some _) => .ok (p.setSlot record.slot none)
      | _ => .error (.slotEmpty p.id record.slot) := by
  have hused : p.isUsed record.slot = true ↔ ∃ fields, p.cells[record.slot]? = some (some fields) :=
    isUsed_iff_cells
  simp only [delete, hr, ne_eq, hpage, not_true_eq_false, if_false]
  by_cases hc : p.isUsed record.slot = true
  · obtain ⟨fields, hf⟩ := hused.mp hc
    rw [if_pos hc, hf]
  · rw [if_neg hc]
    split
    · next fields hf => exact absurd (hused.mpr ⟨fields, hf⟩) hc
    · rfl

theorem WellFormed.delete {p p' : Page} (h : p.WellFormed) {r : Row} {record : RecordId}
    (hr : r.record = some record) (hpage : record.page = p.id) (hp : p.delete r = .ok p') :
    p'.WellFormed ∧ p'.id = p.id ∧ p'.schema = p.schema ∧ p'.size = p.size ∧
      p'.cells = p.cells.set record.slot none := by
  rw [delete_eq p hr hpage] at hp
  split at hp
  · next fields hfields =>
    cases hp
    have hlt : record.slot < p.slots.length := by
      rw [← length_cells]
      exact (List.getElem?_eq_some_iff.mp hfields).1
    exact ⟨h.setSlot hlt (fun r hr => by cases hr), rfl, rfl, rfl, cells_setSlot ..⟩
  · cases hp

/-- An empty page can always be made. -/
theorem exists_empty (id : PageId) (schema : Schema) (size : Nat) :
    ∃ p, empty id schema size = .ok p
      ∧ p.cells = List.replicate (slotCount schema size) none := by
  have hbits : ∀ n, bitsOfBytes (List.replicate n 0) = List.replicate (8 * n) false := by
    intro n
    induction n with
    | zero => rfl
    | succ n ih =>
      rw [List.replicate_succ, bitsOfBytes, List.flatMap_cons, ← bitsOfBytes, ih, Nat.mul_succ,
        Nat.add_comm, ← List.replicate_append_replicate]
      rfl
  have hread : ∀ (n i : Nat) (bytes : List UInt8),
      readSlots id schema i (List.replicate n false) bytes = some (List.replicate n none) := by
    intro n
    induction n with
    | zero => intros; rfl
    | succ n ih => intro i bytes; simp [List.replicate_succ, readSlots, ih]
  have hfits := slotCount_fits schema size
  have hle : slotCount schema size ≤ 8 * bitmapSize (slotCount schema size) := by
    simp only [bitmapSize]
    omega
  simp only [empty, emptyBytes, SparseBytes.toList_zeros, decode, List.length_replicate,
    List.take_replicate, Nat.min_eq_left (show bitmapSize (slotCount schema size) ≤ size by omega),
    hbits, Nat.min_eq_left hle, hread]
  exact ⟨_, rfl, by simp [cells]⟩

end Page

end RelStore
