/-
Pages of a heap file on the disk.

A page that is written at its place, inside the file or right at its end, changes nothing but itself:

* `HeapFile.writePage_eq` — the write is never refused, and what it does to the bytes of the file;
* `HeapFile.pageCount_of_writePage` — the file reaches as far as the page, and no less far than before;
* `HeapFile.readPage_of_writePage` — the page is read back with its long texts cut;
* `HeapFile.readPage_of_writePage_of_ne` — every other page is read as before.

Design notes.  Whatever a heap file answers depends on the bytes of its own file alone (`HeapFile.readPage_congr`,
`HeapFile.pageCount_congr`), so writes to other files need no lemmas of their own.
-/
import RelStore.Proofs.Storage.PageImage

namespace RelStore

/-- Bytes written inside other bytes, or right at their end. -/
theorem spliceAt_eq {old new : List UInt8} {offset : Nat} (h : offset ≤ old.length) :
    spliceAt old offset new = old.take offset ++ (new ++ old.drop (offset + new.length)) := by
  by_cases hn : new = []
  · subst hn
    simp
  · rw [spliceAt, if_neg hn, Nat.sub_eq_zero_of_le h, List.replicate_zero, List.append_nil,
      List.append_assoc]

namespace HeapFile

variable {f : HeapFile} {d d' : Disk} {p : Page}

/-- The bytes of page `n`; fewer than a page if the file ends before. -/
def image (f : HeapFile) (d : Disk) (n : Nat) : List UInt8 :=
  d.readAt f.path (f.pageSize * n) f.pageSize

theorem image_eq (f : HeapFile) (d : Disk) (n : Nat) :
    f.image d n = ((d.contents f.path).drop (f.pageSize * n)).take f.pageSize :=
  Disk.readAt_eq ..

theorem image_congr (h : d'.contents f.path = d.contents f.path) (n : Nat) :
    f.image d' n = f.image d n := by
  rw [image_eq, image_eq, h]

theorem pageCount_congr (h : d'.contents f.path = d.contents f.path) :
    f.pageCount d' = f.pageCount d := by
  rw [pageCount, pageCount, Disk.fileSize_eq, Disk.fileSize_eq, h]

/-- What reading a page of the file itself answers. -/
theorem readPage_eq (f : HeapFile) (d : Disk) (n : Nat) :
    f.readPage d ⟨f.id, n⟩ =
      if f.pageCount d ≤ n then .ok none
      else if (f.image d n).length = f.pageSize then
        (Page.decode ⟨f.id, n⟩ f.schema (f.image d n)).map some
      else .error (.disk .unexpectedEnd) := by
  simp only [readPage, ne_eq, not_true_eq_false, false_or]
  rfl

theorem readPage_congr (h : d'.contents f.path = d.contents f.path) (n : Nat) :
    f.readPage d' ⟨f.id, n⟩ = f.readPage d ⟨f.id, n⟩ := by
  rw [readPage_eq, readPage_eq, image_congr h, pageCount_congr h]

/-- Page `n` is inside the file exactly if the file goes on at its place. -/
theorem lt_pageCount_iff (hpos : 0 < f.pageSize) (d : Disk) (n : Nat) :
    n < f.pageCount d ↔ f.pageSize * n < (d.contents f.path).length := by
  rw [pageCount, Disk.fileSize_eq, Nat.lt_iff_add_one_le, Nat.le_div_iff_mul_le hpos, Nat.add_mul,
    Nat.one_mul, Nat.mul_comm n]
  omega

/-- A page that is read is the one that was asked for, with the columns of its file. -/
theorem wellFormed_of_readPage {page : PageId} {q : Page} (h : f.readPage d page = .ok (some q)) :
    q.WellFormed ∧ q.id = page ∧ q.schema = f.schema := by
  simp only [readPage] at h
  split at h
  · cases h
  · split at h
    · cases hd : Page.decode page f.schema (d.readAt f.path (f.pageSize * page.number) f.pageSize) with
      | error e =>
        rw [hd] at h
        cases h
      | ok q =>
        rw [hd] at h
        cases h
        obtain ⟨hwell, hid, hschema, -, -⟩ := Page.wellFormed_of_decode hd
        exact ⟨hwell, hid, hschema⟩
    · cases h

/-- A page that is read as a whole lies inside the file as a whole. -/
theorem place_le_of_readPage {n : Nat} {q : Page} (h : f.readPage d ⟨f.id, n⟩ = .ok (some q)) :
    n < f.pageCount d ∧ f.pageSize * n + f.pageSize ≤ (d.contents f.path).length
      ∧ Page.decode ⟨f.id, n⟩ f.schema (f.image d n) = .ok q ∧ (f.image d n).length = f.pageSize := by
  rw [readPage_eq] at h
  split at h
  · cases h
  · next hlt =>
    split at h
    · next hlen =>
      refine ⟨by omega, ?_, ?_, hlen⟩
      -- a file of pages of no bytes has no pages
      · have hcount : n < f.pageCount d := by omega
        have := hlen
        rw [image_eq, List.length_take, List.length_drop] at this
        by_cases hz : f.pageSize = 0
        · rw [pageCount, hz, Nat.div_zero] at hcount
          omega
        · have := (lt_pageCount_iff (Nat.pos_of_ne_zero hz) d n).mp hcount
          omega
      · cases hd : Page.decode ⟨f.id, n⟩ f.schema (f.image d n) with
        | error e =>
          rw [hd] at h
          cases h
        | ok q' =>
          rw [hd] at h
          cases h
          rfl
    · cases h

/-- A page can be written inside the file and right at its end. -/
theorem writePage_eq (hsize : p.size = f.pageSize)
    (hplace : f.pageSize * p.id.number ≤ (d.contents f.path).length) :
    ∃ d', f.writePage d p = .ok d'
      ∧ d'.contents f.path = (d.contents f.path).take (f.pageSize * p.id.number)
          ++ (p.bytes ++ (d.contents f.path).drop (f.pageSize * p.id.number + f.pageSize))
      ∧ ∀ q, q ≠ f.path → d'.contents q = d.contents q := by
  obtain ⟨d', hw, hd⟩ := Disk.exists_writeAt (d := d) (p := f.path) p.bytes hplace
  refine ⟨d', by rw [writePage, hw]; rfl, ?_, ?_⟩
  · rw [hd, spliceAt_eq hplace, Page.length_bytes, hsize]
  · intro q hq
    exact Disk.contents_of_writeAt_of_ne (Ne.symm hq) hw

section Written

variable (hpos : 0 < f.pageSize) (hsize : p.size = f.pageSize)
  (hplace : f.pageSize * p.id.number ≤ (d.contents f.path).length)
  (hd : d'.contents f.path = (d.contents f.path).take (f.pageSize * p.id.number)
    ++ (p.bytes ++ (d.contents f.path).drop (f.pageSize * p.id.number + f.pageSize)))

include hsize hplace hd

theorem length_of_writePage : (d'.contents f.path).length
    = max (d.contents f.path).length (f.pageSize * p.id.number + f.pageSize) := by
  rw [hd]
  simp only [List.length_append, List.length_take, Page.length_bytes, List.length_drop, hsize]
  omega

theorem image_of_writePage : f.image d' p.id.number = p.bytes := by
  have hlen : ((d.contents f.path).take (f.pageSize * p.id.number)).length
      = f.pageSize * p.id.number := by
    rw [List.length_take, Nat.min_eq_left hplace]
  rw [image_eq, hd, List.drop_left' hlen, List.take_left' (by rw [Page.length_bytes, hsize])]

include hpos

/-- The file reaches as far as the written page, and no less far than before. -/
theorem lt_pageCount_of_writePage (n : Nat) :
    n < f.pageCount d' ↔ n < f.pageCount d ∨ n ≤ p.id.number := by
  rw [lt_pageCount_iff hpos, lt_pageCount_iff hpos, length_of_writePage hsize hplace hd]
  have hmul : f.pageSize * n < f.pageSize * p.id.number + f.pageSize ↔ n ≤ p.id.number := by
    rw [← Nat.mul_succ, Nat.mul_lt_mul_left hpos, Nat.lt_succ_iff]
  omega

theorem pageCount_of_writePage : f.pageCount d' = max (f.pageCount d) (p.id.number + 1) := by
  have h := lt_pageCount_of_writePage hpos hsize hplace hd
  -- the count is told by which pages it is above: four of them fix it
  have h1 := h (f.pageCount d')
  have h2 := h (max (f.pageCount d) (p.id.number + 1))
  have h3 := h (f.pageCount d)
  have h4 := h p.id.number
  omega

theorem image_of_writePage_of_ne {n : Nat} (hn : n ≠ p.id.number) :
    f.image d' n = f.image d n := by
  have hlen : ((d.contents f.path).take (f.pageSize * p.id.number)).length
      = f.pageSize * p.id.number := by
    rw [List.length_take, Nat.min_eq_left hplace]
  rw [image_eq, image_eq, hd]
  rcases Nat.lt_or_gt_of_ne hn with hlt | hgt
  · -- before the written page
    have hle : f.pageSize * n + f.pageSize ≤ f.pageSize * p.id.number := by
      rw [← Nat.mul_succ]
      exact Nat.mul_le_mul_left _ hlt
    rw [List.drop_append_of_le_length (by rw [hlen]; omega), List.take_append_of_le_length
      (by rw [List.length_drop, hlen]; omega), List.drop_take, List.take_take]
    congr 1
    omega
  · -- behind the written page
    have hle : f.pageSize * p.id.number + f.pageSize ≤ f.pageSize * n := by
      rw [← Nat.mul_succ]
      exact Nat.mul_le_mul_left _ hgt
    rw [← List.append_assoc, List.drop_append, List.drop_eq_nil_of_le
      (by rw [List.length_append, hlen, Page.length_bytes, hsize]; exact hle), List.nil_append,
      List.drop_drop, List.length_append, hlen, Page.length_bytes, hsize]
    congr 2
    omega

/-- Every other page is read as before. -/
theorem readPage_of_writePage_of_ne {n : Nat} (hn : n ≠ p.id.number) :
    f.readPage d' ⟨f.id, n⟩ = f.readPage d ⟨f.id, n⟩ := by
  have hcount : f.pageCount d' ≤ n ↔ f.pageCount d ≤ n := by
    have h := lt_pageCount_of_writePage hpos hsize hplace hd n
    -- a page before the written one is inside the file already, as the file reaches to the written place
    have hbefore : n < p.id.number → n < f.pageCount d := by
      intro hlt
      rw [lt_pageCount_iff hpos]
      have : f.pageSize * n < f.pageSize * p.id.number := (Nat.mul_lt_mul_left hpos).mpr hlt
      omega
    omega
  rw [readPage_eq, readPage_eq, image_of_writePage_of_ne hpos hsize hplace hd hn]
  simp only [hcount]

/-- The written page is read back, with its long texts cut. -/
theorem readPage_of_writePage (hw : p.WellFormed) (hschema : p.schema = f.schema)
    (htable : p.id.table = f.id) : f.readPage d' p.id = .ok (some p.stored) := by
  have hid : p.id = ⟨f.id, p.id.number⟩ := by rw [← htable]
  have hlt : p.id.number < f.pageCount d' :=
    (lt_pageCount_of_writePage hpos hsize hplace hd _).mpr (.inr (Nat.le_refl _))
  have hread := readPage_eq f d' p.id.number
  rw [image_of_writePage hsize hplace hd, if_neg (by omega), if_pos (by
    rw [Page.length_bytes, hsize]), ← hid, ← hschema, Page.decode_bytes hw] at hread
  exact hread

end Written

end HeapFile

end RelStore
