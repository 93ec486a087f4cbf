/-
A heap file that grows past its end.

A page can be written anywhere in the file and anywhere behind it, as long as the page ends within the largest file.
The pages between the old end and the written page are then read as empty ones.

* `HeapFile.Built` — the pages that can be made for a file: read from an image, then changed by insertions and
  deletions;
* `HeapFile.Whole` — a file that is a whole number of pages;
* `HeapFile.readPageInWords_eq` — no word overflows when a page of such a file is asked for, whatever its number;
* `HeapFile.Grows` — what a write changes, and what it leaves;
* `HeapFile.grows_of_writePage` — every page that can be made is written at its place, and the file is then such a file
  again.

Design notes.  A write behind the end is the write at the end of the file with zeros added up to there, so what is known
of writes without a gap is used on that file.
-/
import RelStore.Proofs.Storage.PageBytes
import RelStore.Proofs.Storage.PageFile

namespace RelStore

/-- The zeros of a gap can be written first. -/
theorem spliceAt_padded {old new : List UInt8} (hnew : new ≠ []) (offset : Nat) :
    spliceAt old offset new = spliceAt (old ++ List.replicate (offset - old.length) 0) offset new := by
  rw [spliceAt, spliceAt, if_neg hnew, if_neg hnew]
  rcases Nat.le_total offset old.length with hle | hgt
  · simp only [Nat.sub_eq_zero_of_le hle, List.replicate_zero, List.append_nil]
  · have hlen : (old ++ List.replicate (offset - old.length) (0 : UInt8)).length = offset := by
      rw [List.length_append, List.length_replicate]
      omega
    rw [List.take_of_length_le hgt, List.take_of_length_le (Nat.le_of_eq hlen), hlen, Nat.sub_self, List.replicate_zero,
      List.append_nil, List.drop_eq_nil_of_le (Nat.le_trans hgt (Nat.le_add_right ..)),
      List.drop_eq_nil_of_le (by omega)]

namespace HeapFile

variable {f : HeapFile} {d d' : Disk} {p : Page} {n : Nat}

/-- The pages that can be made for the file at a page number: read from an image of a page, with the types of the file
under any names, then changed by insertions and deletions. -/
inductive Built (f : HeapFile) (n : Nat) : Page → Prop
  | read {schema : Schema} {image : List UInt8} {p : Page} (htypes : schema.types = f.schema.types)
    (hsize : image.length = f.pageSize) (hdecode : Page.decode ⟨f.id, n⟩ schema image = .ok p) : Built f n p
  | call {p : Page} (h : Built f n p) {call : PageCall} (hcall : call.Proper) : Built f n (PageCall.step p call)

theorem Built.wellFormed (h : f.Built n p) :
    p.WellFormed ∧ p.id = ⟨f.id, n⟩ ∧ p.schema.types = f.schema.types ∧ p.size = f.pageSize := by
  induction h with
  | read htypes hsize hdecode =>
    obtain ⟨hwf, hid, hschema, hlen, -⟩ := Page.wellFormed_of_decode hdecode
    exact ⟨hwf, hid, hschema ▸ htypes, hlen.trans hsize⟩
  | call h hcall ih =>
    obtain ⟨hwf, hid, hschema, hlen⟩ := ih
    obtain ⟨hwf', hid', hschema', hlen'⟩ := PageCall.wellFormed_step hwf hcall
    exact ⟨hwf', hid'.trans hid, hschema' ▸ hschema, hlen'.trans hlen⟩

/-- A page without rows can be made under any names. -/
theorem built_empty {schema : Schema} (h : Page.empty ⟨f.id, n⟩ schema f.pageSize = .ok p)
    (htypes : schema.types = f.schema.types) : f.Built n p :=
  .read htypes (by rw [Page.emptyBytes, SparseBytes.toList_zeros, List.length_replicate]) h

/-- The page under the names of the file. -/
def named (f : HeapFile) (p : Page) : Page := { p with schema := f.schema }

theorem wellFormed_named (h : p.WellFormed) (htypes : p.schema.types = f.schema.types) :
    (f.named p).WellFormed ∧ (f.named p).bytes = p.bytes := by
  have hwidth : f.schema.width = p.schema.width := by rw [Schema.width, Schema.width, htypes]
  have hslots : slotCount f.schema p.size = slotCount p.schema p.size := by rw [slotCount, slotCount, hwidth]
  refine ⟨⟨?_, ?_, h.marks, h.record, fun hr => (h.types hr).trans htypes⟩, ?_⟩
  · exact h.length_bitmap.trans (by rw [← hslots]; rfl)
  · exact h.length_slots.trans hslots.symm
  · show Page.bytes { p with schema := f.schema } = p.bytes
    rw [Page.bytes, Page.bytes, hwidth]

/-! ### Files that are a whole number of pages -/

/-- A file that is a whole number of pages, and no larger than files can be. -/
structure Whole (f : HeapFile) (d : Disk) : Prop where
  pos : 0 < f.pageSize
  word : f.pageSize < UInt64.size
  dvd : f.pageSize ∣ (d.contents f.path).length
  small : (d.contents f.path).length ≤ Disk.maxFileSize

theorem Whole.length_eq (h : f.Whole d) : (d.contents f.path).length = f.pageSize * f.pageCount d := by
  obtain ⟨count, hcount⟩ := h.dvd
  rw [pageCount, Disk.fileSize_eq, hcount, Nat.add_sub_assoc h.pos, Nat.mul_add_div h.pos,
    Nat.div_eq_of_lt (Nat.sub_lt h.pos Nat.one_pos), Nat.add_zero]

/-- A number that a word holds. -/
def word? (n : Nat) : Option Nat :=
  if n < UInt64.size then some n else none

/-- The number of pages, if no word overflows on the way. -/
def pageCountInWords (f : HeapFile) (d : Disk) : Option Nat := do
  let sum ← word? (d.fileSize f.path + f.pageSize)
  pure ((sum - 1) / f.pageSize)

/-- The page with the given id, if no word overflows on the way. -/
def readPageInWords (f : HeapFile) (d : Disk) (id : PageId) : Option (Except StorageError (Option Page)) :=
  if id.table ≠ f.id then pure (.ok none)
  else do
    let count ← f.pageCountInWords d
    if count ≤ id.number then pure (.ok none)
    else
      let offset ← word? (f.pageSize * id.number)
      let bytes := d.readAt f.path offset f.pageSize
      pure (if bytes.length = f.pageSize then (Page.decode id f.schema bytes).map some
        else .error (.disk .unexpectedEnd))

theorem Whole.pageCountInWords_eq (h : f.Whole d) : f.pageCountInWords d = some (f.pageCount d) := by
  have hsum : d.fileSize f.path + f.pageSize < UInt64.size := by
    rw [Disk.fileSize_eq]
    have hsmall := h.small
    rcases Nat.eq_zero_or_pos (d.contents f.path).length with hzero | hpos
    · have := h.word
      omega
    · have hle := Nat.le_of_dvd hpos h.dvd
      simp only [Disk.maxFileSize, UInt64.size] at *
      omega
  rw [pageCountInWords, word?, if_pos hsum]
  rfl

/-- No word overflows when a page of the file is asked for, whatever its number. -/
theorem readPageInWords_eq (h : f.Whole d) (id : PageId) : f.readPageInWords d id = some (f.readPage d id) := by
  rw [readPageInWords, readPage]
  by_cases htable : id.table = f.id
  · rw [if_neg (not_not_intro htable), h.pageCountInWords_eq]
    by_cases hcount : f.pageCount d ≤ id.number
    · rw [if_pos (Or.inr hcount)]
      exact if_pos hcount
    · have hoffset : f.pageSize * id.number < UInt64.size := by
        have hlt : f.pageSize * id.number < f.pageSize * f.pageCount d :=
          (Nat.mul_lt_mul_left h.pos).mpr (Nat.lt_of_not_le hcount)
        have hsmall := h.small
        rw [h.length_eq] at hsmall
        simp only [Disk.maxFileSize, UInt64.size] at *
        omega
      rw [if_neg (not_or.mpr ⟨not_not_intro htable, hcount⟩)]
      show (if _ then _ else _) = _
      rw [if_neg hcount, word?, if_pos hoffset]
      rfl
  · rw [if_pos htable, if_pos (Or.inl htable)]
    rfl

/-! ### Writing behind the end -/

/-- The disk with zeros added to the file up to a place. -/
def padTo (f : HeapFile) (d : Disk) (place : Nat) : Disk :=
  d.put f.path (.ofList (d.contents f.path ++ List.replicate (place - (d.contents f.path).length) 0))

theorem contents_padTo (f : HeapFile) (d : Disk) (place : Nat) : (f.padTo d place).contents f.path
    = d.contents f.path ++ List.replicate (place - (d.contents f.path).length) 0 := by
  rw [padTo, Disk.contents_put, SparseBytes.toList_ofList]

theorem length_padTo (f : HeapFile) (d : Disk) (place : Nat) :
    ((f.padTo d place).contents f.path).length = max (d.contents f.path).length place := by
  rw [contents_padTo, List.length_append, List.length_replicate]
  omega

/-- A page is written at its place if it ends within the largest file, as at the end of a file with zeros up to
there. -/
theorem exists_writePage (hpos : 0 < f.pageSize) (hsize : p.size = f.pageSize)
    (hplace : f.pageSize * p.id.number + f.pageSize ≤ Disk.maxFileSize) :
    ∃ d', f.writePage d p = .ok d'
      ∧ d'.contents f.path = spliceAt ((f.padTo d (f.pageSize * p.id.number)).contents f.path)
          (f.pageSize * p.id.number) p.bytes
      ∧ ∀ q, q ≠ f.path → d'.contents q = d.contents q := by
  have hbytes : p.bytes ≠ [] := List.ne_nil_of_length_pos (by rw [Page.length_bytes, hsize]; exact hpos)
  have hat : Disk.place (d.fileSize f.path) (f.pageSize * p.id.number) = f.pageSize * p.id.number := by
    rw [Disk.place]
    split
    · rfl
    · refine Nat.mod_eq_of_lt ?_
      simp only [Disk.maxFileSize, UInt64.size] at *
      omega
  have hwrite : d.writeAt f.path (f.pageSize * p.id.number) p.bytes
      = .ok (d.put f.path ((d.bytes f.path).splice (f.pageSize * p.id.number) p.bytes)) := by
    rw [Disk.writeAt, hat, if_neg]
    rw [Page.length_bytes, hsize]
    omega
  refine ⟨_, by rw [writePage, hwrite]; rfl, ?_, fun q hq => Disk.contents_put_of_ne d (Ne.symm hq) _⟩
  rw [Disk.contents_put, SparseBytes.toList_splice, contents_padTo]
  exact spliceAt_padded hbytes _

/-- A page that begins behind the end of the file, and would end behind the end of the largest one, is refused. -/
theorem writePage_eq_error (hsize : p.size = f.pageSize) (hgap : (d.contents f.path).length < f.pageSize * p.id.number)
    (hword : f.pageSize * p.id.number < UInt64.size)
    (hplace : Disk.maxFileSize < f.pageSize * p.id.number + f.pageSize) :
    f.writePage d p = .error (.disk .placeTooFar) := by
  rw [← Disk.fileSize_eq] at hgap
  rw [writePage, Disk.writeAt, Disk.place, if_neg (Nat.not_le_of_lt hgap), Nat.mod_eq_of_lt hword,
    if_pos ⟨hgap, by rw [Page.length_bytes, hsize]; exact hplace⟩]
  rfl

section Padded

variable (h : f.Whole d) {k : Nat}
include h

theorem Whole.pageCount_padTo (k : Nat) : f.pageCount (f.padTo d (f.pageSize * k)) = max (f.pageCount d) k := by
  have hlt : ∀ n, n < f.pageCount (f.padTo d (f.pageSize * k)) ↔ n < f.pageCount d ∨ n < k := fun n => by
    rw [lt_pageCount_iff h.pos, length_padTo, lt_pageCount_iff h.pos, ← Nat.mul_lt_mul_left h.pos (b := n)]
    omega
  -- the count is told by which pages it is above
  have h1 := hlt (f.pageCount (f.padTo d (f.pageSize * k)))
  have h2 := hlt (max (f.pageCount d) k)
  omega

/-- The pages that the file has are read as before. -/
theorem Whole.readPage_padTo (hn : n < f.pageCount d) :
    f.readPage (f.padTo d (f.pageSize * k)) ⟨f.id, n⟩ = f.readPage d ⟨f.id, n⟩ := by
  have hinside : f.pageSize * n + f.pageSize ≤ (d.contents f.path).length := by
    rw [h.length_eq, ← Nat.mul_succ]
    exact Nat.mul_le_mul_left _ hn
  have himage : f.image (f.padTo d (f.pageSize * k)) n = f.image d n := by
    rw [image_eq, image_eq, contents_padTo, List.drop_append_of_le_length (by omega),
      List.take_append_of_le_length (by rw [List.length_drop]; omega)]
  have hcount : f.pageCount (f.padTo d (f.pageSize * k)) ≤ n ↔ f.pageCount d ≤ n := by
    rw [h.pageCount_padTo]
    omega
  rw [readPage_eq, readPage_eq, himage]
  simp only [hcount]

/-- A page of the zeros is read as an empty one. -/
theorem Whole.readPage_padTo_of_le (hn : f.pageCount d ≤ n) (hk : n < k) :
    f.readPage (f.padTo d (f.pageSize * k)) ⟨f.id, n⟩ = (Page.empty ⟨f.id, n⟩ f.schema f.pageSize).map some := by
  have hbehind : (d.contents f.path).length ≤ f.pageSize * n := by
    rw [h.length_eq]
    exact Nat.mul_le_mul_left _ hn
  have hbefore : f.pageSize * n + f.pageSize ≤ f.pageSize * k := by
    rw [← Nat.mul_succ]
    exact Nat.mul_le_mul_left _ hk
  have himage : f.image (f.padTo d (f.pageSize * k)) n = List.replicate f.pageSize 0 := by
    rw [image_eq, contents_padTo, List.drop_append, List.drop_eq_nil_of_le hbehind, List.nil_append,
      List.drop_replicate, List.take_replicate]
    congr 1
    omega
  rw [readPage_eq, himage, h.pageCount_padTo, if_neg (by omega), if_pos List.length_replicate, Page.empty,
    Page.emptyBytes, SparseBytes.toList_zeros]

end Padded

/-- What the write of a page changes in its file, and what it leaves. -/
structure Grows (f : HeapFile) (d d' : Disk) (p : Page) : Prop where
  /-- The page is read back, with its long texts cut. -/
  written : ∃ q, f.readPage d' p.id = .ok (some q) ∧ q.id = p.id ∧ q.schema = f.schema ∧ q.bitmap = p.bitmap
    ∧ p.Reloads q
  pageCount : f.pageCount d' = max (f.pageCount d) (p.id.number + 1)
  /-- Every other page that the file had is read as before. -/
  kept : ∀ n < f.pageCount d, n ≠ p.id.number → f.readPage d' ⟨f.id, n⟩ = f.readPage d ⟨f.id, n⟩
  /-- A page between the old end and the written page is empty. -/
  gap : ∀ n, f.pageCount d ≤ n → n < p.id.number →
    ∃ q, Page.empty ⟨f.id, n⟩ f.schema f.pageSize = .ok q ∧ f.readPage d' ⟨f.id, n⟩ = .ok (some q) ∧ q.rows = []
  /-- Other tables, and numbers from the new count on, have no page in the file. -/
  none : ∀ id : PageId, id.table ≠ f.id ∨ f.pageCount d' ≤ id.number → f.readPage d' id = .ok none
  words : ∀ id, f.readPageInWords d' id = some (f.readPage d' id)
  whole : f.Whole d'
  others : ∀ path, path ≠ f.path → d'.contents path = d.contents path

theorem rows_empty {id : PageId} {schema : Schema} {size : Nat} {q : Page} (h : Page.empty id schema size = .ok q) :
    q.rows = [] := by
  obtain ⟨q', hempty, hcells⟩ := Page.exists_empty id schema size
  obtain rfl : q' = q := Except.ok.inj (hempty.symm.trans h)
  refine List.filterMap_eq_nil_iff.mpr fun s hs => ?_
  have hcell : s.map (·.fields) ∈ q'.cells := List.mem_map.mpr ⟨s, hs, rfl⟩
  rw [hcells] at hcell
  exact Option.map_eq_none_iff.mp (List.eq_of_mem_replicate hcell)

/-- A page with the columns of the file is written at its place. -/
theorem grows_of_wellFormed (h : f.Whole d) (hwf : p.WellFormed) (hschema : p.schema = f.schema)
    (htable : p.id.table = f.id) (hsize : p.size = f.pageSize)
    (hplace : f.pageSize * p.id.number + f.pageSize ≤ Disk.maxFileSize) :
    ∃ d', f.writePage d p = .ok d' ∧ f.Grows d d' p := by
  obtain ⟨d', hwrite, hcontents, hothers⟩ := exists_writePage (d := d) h.pos hsize hplace
  -- the file with zeros up to the place, where the write leaves no gap
  set d₀ := f.padTo d (f.pageSize * p.id.number) with hd₀
  have hreach : f.pageSize * p.id.number ≤ (d₀.contents f.path).length := by
    rw [length_padTo]
    exact Nat.le_max_right ..
  rw [spliceAt_eq hreach, Page.length_bytes, hsize] at hcontents
  have hcount : f.pageCount d' = max (f.pageCount d) (p.id.number + 1) := by
    rw [pageCount_of_writePage h.pos hsize hreach hcontents, h.pageCount_padTo]
    omega
  have hkept {n : Nat} (hn : n ≠ p.id.number) : f.readPage d' ⟨f.id, n⟩ = f.readPage d₀ ⟨f.id, n⟩ :=
    readPage_of_writePage_of_ne h.pos hsize hreach hcontents hn
  have hwhole : f.Whole d' := by
    have hlen : (d'.contents f.path).length = max (d.contents f.path).length (f.pageSize * (p.id.number + 1)) := by
      rw [length_of_writePage hsize hreach hcontents, length_padTo, Nat.mul_succ]
      omega
    refine ⟨h.pos, h.word, ?_, by have := h.small; rw [hlen, Nat.mul_succ]; omega⟩
    rw [hlen]
    rcases Nat.le_total (d.contents f.path).length (f.pageSize * (p.id.number + 1)) with hle | hge
    · rw [Nat.max_eq_right hle]
      exact Nat.dvd_mul_right ..
    · rw [Nat.max_eq_left hge]
      exact h.dvd
  refine ⟨d', hwrite, ?_, hcount, fun n hn hne => ?_, fun n hn hlt => ?_, fun id hid => if_pos hid,
    readPageInWords_eq hwhole, hwhole, hothers⟩
  · exact ⟨_, readPage_of_writePage h.pos hsize hreach hcontents hwf hschema htable, rfl, hschema, rfl,
      Page.reloads_stored p⟩
  · rw [hkept hne, h.readPage_padTo hn]
  · obtain ⟨q, hempty, -⟩ := Page.exists_empty ⟨f.id, n⟩ f.schema f.pageSize
    refine ⟨q, hempty, ?_, rows_empty hempty⟩
    rw [hkept (Nat.ne_of_lt hlt), h.readPage_padTo_of_le hn hlt, hempty]
    rfl

/-- Every page that can be made for a file is written at its place, if it ends there within the largest file: inside the
file, at its end or behind it. -/
theorem grows_of_writePage (h : f.Whole d) (hp : f.Built n p)
    (hplace : f.pageSize * n + f.pageSize ≤ Disk.maxFileSize) : ∃ d', f.writePage d p = .ok d' ∧ f.Grows d d' p := by
  obtain ⟨hwf, hid, htypes, hsize⟩ := hp.wellFormed
  obtain ⟨hnamed, hbytes⟩ := wellFormed_named hwf htypes
  have htable : p.id.table = f.id := by rw [hid]
  have hnumber : p.id.number = n := by rw [hid]
  -- the names of the columns are not written
  obtain ⟨d', hwrite, hgrows⟩ :=
    grows_of_wellFormed (p := f.named p) h hnamed rfl htable hsize (by rw [← hnumber] at hplace; exact hplace)
  obtain ⟨q, hread, hqid, hschema, hbitmap, hback⟩ := hgrows.written
  refine ⟨d', ?_, { hgrows with
    written := ⟨q, hread, hqid, hschema, hbitmap, hback.usedSlots, hback.slots, hback.bytes.trans hbytes⟩ }⟩
  rw [← hwrite, writePage, writePage, hbytes]
  rfl

/-- A file of numbers, on pages with room for one of them. -/
def tallies : HeapFile := ⟨["tally.dat"], ⟨[.int], none⟩, 5⟩

/-- The file has one page, which is empty. -/
def oneTally : Disk := { files := ⟨[(["tally.dat"], .zeros 5)]⟩ }

/-- The columns of the file under another name. -/
def tallySchema : Schema := ⟨[.int], some [some "n"]⟩

/-- A page that is far behind leaves empty ones before it. -/
theorem grows_of_writePage_tallies :
    ∃ p d', tallies.Built 3 p ∧ tallies.writePage oneTally p = .ok d' ∧ tallies.pageCount d' = 4
      ∧ ∃ q, tallies.readPage d' ⟨tallies.id, 2⟩ = .ok (some q) ∧ q.rows = [] := by
  have hwhole : tallies.Whole oneTally := ⟨by decide, by decide, by decide, by decide⟩
  obtain ⟨p, hempty, -⟩ := Page.exists_empty ⟨tallies.id, 3⟩ tallySchema tallies.pageSize
  have hbuilt : tallies.Built 3 (PageCall.step p (.insert ⟨tallySchema, [.int 7], none⟩)) :=
    (built_empty hempty rfl).call rfl
  obtain ⟨d', hwrite, hgrows⟩ := grows_of_writePage hwhole hbuilt (by decide)
  obtain ⟨q, -, hgap, hrows⟩ := hgrows.gap 2 (by decide) (by rw [hbuilt.wellFormed.2.1]; decide)
  refine ⟨_, d', hbuilt, hwrite, ?_, q, hgap, hrows⟩
  rw [hgrows.pageCount, hbuilt.wellFormed.2.1]
  decide

/-- A file of pairs of numbers. -/
def pairFile : HeapFile := ⟨["t.dat"], ⟨[.int, .int], some [some "a", some "b"]⟩, 32⟩

/-- A page that begins below 2 ^ 63, which is this number, but does not end there is not written. -/
theorem not_always_written :
    ¬ ∀ (f : HeapFile) (d : Disk) (n : Nat) (p : Page), f.Whole d → f.Built n p →
      f.pageSize * n < 9223372036854775808 → ∃ d', f.writePage d p = .ok d' ∧ f.Grows d d' p := by
  intro hall
  have hwhole : pairFile.Whole .empty := ⟨by decide, by decide, by decide, by decide⟩
  obtain ⟨p, hempty, -⟩ := Page.exists_empty ⟨pairFile.id, 288230376151711743⟩ pairFile.schema pairFile.pageSize
  have hbuilt : pairFile.Built 288230376151711743
      (PageCall.step p (.insert ⟨pairFile.schema, [.int 1, .int 2], none⟩)) := (built_empty hempty rfl).call rfl
  obtain ⟨-, hid, -, hsize⟩ := hbuilt.wellFormed
  obtain ⟨d', hwrite, -⟩ := hall pairFile .empty 288230376151711743 _ hwhole hbuilt (by decide)
  rw [writePage_eq_error hsize (by rw [hid]; decide) (by rw [hid]; decide) (by rw [hid]; decide)] at hwrite
  cases hwrite

end HeapFile

end RelStore
