/-
The page table and the frames tell the same.

* `PageCache.Coherent` — a page is in the table under the frame that holds its buffer, and under no other;
* `PageCache.buffer?_eq_some_iff` — so the buffer of a page is found wherever it stands;
* `PageCache.Coherent.touch`, `PageCache.Coherent.sweep`, `PageCache.Coherent.put`, `PageCache.Coherent.drop`,
  `PageCache.Coherent.modify`, `PageCache.Coherent.markChanged` — every change of a cache keeps it coherent.

Beside each of these stands what the change does to `PageCache.buffer?`, the only view of a cache that the
database needs: `PageCache.buffer?_put`, `PageCache.buffer?_modify` and the others.
-/
import RelStore.Cache.PageCache
import RelStore.Proofs.Cache.Sweep

namespace RelStore.PageCache

variable {c c' : PageCache} {page : PageId} {frame : Nat} {b : Buffer}

/-- The page table and the frames tell the same, and the hand points at a frame. -/
structure Coherent (c : PageCache) : Prop where
  hand_lt : 0 < c.clock.frames.length → c.clock.hand < c.clock.frames.length
  bufferAt : ∀ {page : PageId} {frame : Nat}, c.pageTable.get? page = some frame →
    ∃ b, c.bufferAt? frame = some b ∧ b.page.id = page
  frameOf : ∀ {frame : Nat} {b : Buffer}, c.bufferAt? frame = some b →
    c.pageTable.get? b.page.id = some frame

theorem bufferAt?_eq (c : PageCache) (frame : Nat) :
    c.bufferAt? frame = (c.clock.buffers[frame]?).join := by
  rw [bufferAt?, Clock.buffers_getElem?, Clock.frame?]
  cases c.clock.frames[frame]? <;> rfl

theorem bufferAt?_congr (h : c'.clock.buffers = c.clock.buffers) (frame : Nat) :
    c'.bufferAt? frame = c.bufferAt? frame := by
  rw [bufferAt?_eq, bufferAt?_eq, h]

theorem lt_of_bufferAt? (h : c.bufferAt? frame = some b) : frame < c.clock.frames.length := by
  rw [bufferAt?, Clock.frame?] at h
  split at h
  · next f hf => exact (List.getElem?_eq_some_iff.mp hf).1
  · cases h

/-- The buffer of a page is found wherever it stands. -/
theorem buffer?_eq_some_iff (h : c.Coherent) :
    c.buffer? page = some b ↔ ∃ frame, c.bufferAt? frame = some b ∧ b.page.id = page := by
  rw [buffer?]
  constructor
  · intro hb
    split at hb
    · next frame hf =>
      obtain ⟨b', hb', hid⟩ := h.bufferAt hf
      rw [hb] at hb'
      cases hb'
      exact ⟨frame, hb, hid⟩
    · cases hb
  · rintro ⟨frame, hb, rfl⟩
    rw [h.frameOf hb]
    exact hb

theorem id_of_buffer? (h : c.Coherent) (hb : c.buffer? page = some b) : b.page.id = page := by
  obtain ⟨-, -, hid⟩ := (buffer?_eq_some_iff h).mp hb
  exact hid

/-- A page that is in the table has a buffer. -/
theorem exists_buffer? (h : c.Coherent) (hf : c.pageTable.get? page = some frame) :
    ∃ b, c.buffer? page = some b ∧ c.bufferAt? frame = some b := by
  obtain ⟨b, hb, -⟩ := h.bufferAt hf
  exact ⟨b, by rw [buffer?, hf]; exact hb, hb⟩

theorem coherent_ofSize (n : Nat) : (ofSize n).Coherent := by
  have hempty : ∀ frame, (ofSize n).bufferAt? frame = none := by
    intro frame
    simp only [bufferAt?, Clock.frame?, ofSize, Clock.ofSize, List.getElem?_replicate]
    split
    · next f hf =>
      split at hf <;> cases hf
      rfl
    · rfl
  refine ⟨fun h => h, ?_, ?_⟩
  · intro page frame h
    cases h
  · intro frame b h
    rw [hempty] at h
    cases h

theorem buffer?_ofSize (n : Nat) (page : PageId) : (ofSize n).buffer? page = none := rfl

/-! ### Changes that leave every buffer where it is -/

/-- Usage counts and the hand do not matter to buffers. -/
theorem Coherent.of_buffers (h : c.Coherent) (hbuffers : c'.clock.buffers = c.clock.buffers)
    (htable : c'.pageTable = c.pageTable)
    (hhand : 0 < c'.clock.frames.length → c'.clock.hand < c'.clock.frames.length) : c'.Coherent := by
  refine ⟨hhand, ?_, ?_⟩
  · intro page frame hf
    rw [bufferAt?_congr hbuffers]
    exact h.bufferAt (by rw [← htable]; exact hf)
  · intro frame b hb
    rw [htable]
    exact h.frameOf (by rw [← bufferAt?_congr hbuffers]; exact hb)

theorem buffer?_of_buffers (hbuffers : c'.clock.buffers = c.clock.buffers)
    (htable : c'.pageTable = c.pageTable) (page : PageId) : c'.buffer? page = c.buffer? page := by
  rw [buffer?, buffer?, htable]
  split
  · exact bufferAt?_congr hbuffers _
  · rfl

/-- A sweep for a frame leaves every buffer where it is. -/
theorem Coherent.sweep (h : c.Coherent) : ({ c with clock := c.clock.evict.2 } : PageCache).Coherent := by
  refine h.of_buffers (Clock.buffers_sweep ..) rfl fun hpos => ?_
  have hpos' : 0 < c.clock.frames.length := by
    simpa only [Clock.evict, Clock.length_sweep] using hpos
  exact Clock.hand_sweep_lt (h.hand_lt hpos')

theorem buffer?_sweep (c : PageCache) (page : PageId) :
    ({ c with clock := c.clock.evict.2 } : PageCache).buffer? page = c.buffer? page := by
  have hbuffers : ({ c with clock := c.clock.evict.2 } : PageCache).clock.buffers = c.clock.buffers :=
    Clock.buffers_sweep ..
  exact buffer?_of_buffers hbuffers rfl page

theorem buffers_modifyFrame {change : Frame → Frame} (hchange : ∀ f, (change f).buffer = f.buffer) :
    (c.modifyFrame frame change).clock.buffers = c.clock.buffers := by
  rw [modifyFrame, Clock.frame?]
  split
  · next f hf =>
    have hb : c.clock.buffers[frame]? = some f.buffer := by rw [Clock.buffers_getElem?, hf]; rfl
    obtain ⟨hi, hget⟩ := List.getElem?_eq_some_iff.mp hb
    simp only [Clock.setFrame, Clock.buffers, List.map_set, hchange]
    rw [← hget]
    exact List.set_getElem_self _
  · rfl

theorem pageTable_modifyFrame (c : PageCache) (frame : Nat) (change : Frame → Frame) :
    (c.modifyFrame frame change).pageTable = c.pageTable := by
  rw [modifyFrame]
  split <;> rfl

theorem clock_modifyFrame (c : PageCache) (frame : Nat) (change : Frame → Frame) :
    (c.modifyFrame frame change).clock.hand = c.clock.hand ∧
      (c.modifyFrame frame change).clock.frames.length = c.clock.frames.length := by
  rw [modifyFrame]
  split
  · exact ⟨rfl, List.length_set⟩
  · exact ⟨rfl, rfl⟩

/-- Counting a use leaves every buffer where it is. -/
theorem Coherent.touch (h : c.Coherent) (ht : c.touch page = some (b, c')) :
    c'.Coherent ∧ c.buffer? page = some b ∧ (∀ p, c'.buffer? p = c.buffer? p)
      ∧ c'.clock.frames.length = c.clock.frames.length := by
  rw [PageCache.touch] at ht
  split at ht
  · next frame hf =>
    split at ht
    · next b' hb =>
      cases ht
      obtain ⟨hhand, hlen⟩ := clock_modifyFrame c frame fun f => { f with usage := f.usage + 1 }
      have hbuffers : (c.modifyFrame frame fun f => { f with usage := f.usage + 1 }).clock.buffers
          = c.clock.buffers := buffers_modifyFrame fun f => rfl
      refine ⟨h.of_buffers hbuffers (pageTable_modifyFrame ..) ?_, by rw [buffer?, hf]; exact hb,
        buffer?_of_buffers hbuffers (pageTable_modifyFrame ..), hlen⟩
      rw [hhand, hlen]
      exact h.hand_lt
    · cases ht
  · cases ht

theorem touch_eq_none_iff : c.touch page = none ↔ c.buffer? page = none := by
  rw [touch, buffer?]
  split
  · split
    · next b hb => simp [hb]
    · next hb => simp [hb]
  · simp

/-! ### Changes of one buffer -/

theorem bufferAt?_modifyAt (c : PageCache) (frame i : Nat) (change : Buffer → Buffer) :
    (c.modifyAt frame change).bufferAt? i
      = if frame = i then (c.bufferAt? i).map change else c.bufferAt? i := by
  rw [modifyAt, modifyFrame, Clock.frame?]
  cases hf : c.clock.frames[frame]? with
  | none =>
    by_cases heq : frame = i
    · subst heq
      simp [bufferAt?, Clock.frame?, hf]
    · rw [if_neg heq]
  | some f =>
    simp only [bufferAt?, Clock.frame?, Clock.setFrame, List.getElem?_set]
    by_cases heq : frame = i
    · subst heq
      rw [if_pos rfl, if_pos (List.getElem?_eq_some_iff.mp hf).1, if_pos rfl, hf]
    · rw [if_neg heq, if_neg heq]

theorem clock_modifyAt (c : PageCache) (frame : Nat) (change : Buffer → Buffer) :
    (c.modifyAt frame change).clock.hand = c.clock.hand ∧
      (c.modifyAt frame change).clock.frames.length = c.clock.frames.length :=
  clock_modifyFrame ..

/-- Changing the buffer in a frame keeps the cache coherent as long as the buffer is one of the same page. -/
theorem Coherent.modifyAt (h : c.Coherent) {change : Buffer → Buffer}
    (hid : ∀ b, c.bufferAt? frame = some b → (change b).page.id = b.page.id) :
    (c.modifyAt frame change).Coherent := by
  obtain ⟨hhand, hlen⟩ := clock_modifyAt c frame change
  have htable : (c.modifyAt frame change).pageTable = c.pageTable := pageTable_modifyFrame ..
  refine ⟨by rw [hhand, hlen]; exact h.hand_lt, ?_, ?_⟩
  · intro page i hf
    rw [htable] at hf
    obtain ⟨b, hb, rfl⟩ := h.bufferAt hf
    rw [bufferAt?_modifyAt, hb]
    split
    · next heq =>
      subst heq
      exact ⟨change b, rfl, hid b hb⟩
    · exact ⟨b, rfl, rfl⟩
  · intro i b hb
    rw [htable]
    rw [bufferAt?_modifyAt] at hb
    split at hb
    · next heq =>
      subst heq
      obtain ⟨b', hb', rfl⟩ := Option.map_eq_some_iff.mp hb
      rw [hid b' hb']
      exact h.frameOf hb'
    · exact h.frameOf hb

theorem buffer?_modifyAt (h : c.Coherent) {change : Buffer → Buffer}
    (hb : c.bufferAt? frame = some b) (page : PageId) :
    (c.modifyAt frame change).buffer? page
      = if b.page.id = page then some (change b) else c.buffer? page := by
  have htable : (c.modifyAt frame change).pageTable = c.pageTable := pageTable_modifyFrame ..
  rw [buffer?, buffer?, htable]
  split
  · next i hi =>
    obtain ⟨b', hb', rfl⟩ := h.bufferAt hi
    rw [bufferAt?_modifyAt]
    by_cases heq : frame = i
    · subst heq
      rw [hb] at hb'
      cases hb'
      rw [if_pos rfl, if_pos rfl, hb]
      rfl
    · rw [if_neg heq, if_neg]
      intro hid
      have := h.frameOf hb
      rw [hid, hi] at this
      cases this
      exact heq rfl
  · next hnone =>
    -- a page that has a buffer is in the table
    rw [if_neg]
    intro hid
    have := h.frameOf hb
    rw [hid, hnone] at this
    cases this

/-- A change of the buffer of a cached page that leaves its page id alone. -/
theorem Coherent.modify (h : c.Coherent) {change : Buffer → Buffer}
    (hid : ∀ b, c.buffer? page = some b → (change b).page.id = b.page.id) :
    (c.modify page change).Coherent := by
  rw [PageCache.modify]
  split
  · next frame hf =>
    refine h.modifyAt fun b hb => hid b ?_
    rw [buffer?, hf]
    exact hb
  · exact h

theorem buffer?_modify (h : c.Coherent) (page : PageId) (change : Buffer → Buffer) (q : PageId) :
    (c.modify page change).buffer? q
      = if page = q then (c.buffer? q).map change else c.buffer? q := by
  rw [modify]
  split
  · next frame hf =>
    obtain ⟨b, hpage, hb⟩ := exists_buffer? h hf
    rw [buffer?_modifyAt h hb, id_of_buffer? h hpage]
    split
    · next heq =>
      subst heq
      rw [hpage]
      rfl
    · rfl
  · next hf =>
    split
    · next heq =>
      subst heq
      rw [buffer?, hf]
      rfl
    · rfl

theorem length_modify (c : PageCache) (page : PageId) (change : Buffer → Buffer) :
    (c.modify page change).clock.frames.length = c.clock.frames.length := by
  rw [modify]
  split
  · exact (clock_modifyAt ..).2
  · rfl

theorem Coherent.markChanged (h : c.Coherent) (txn : TxnId) (page : PageId) :
    (c.markChanged txn page).Coherent := by
  have hmodify : (c.modify page fun b => { b with dirty := true }).Coherent :=
    h.modify fun _ _ => rfl
  exact hmodify.of_buffers rfl rfl hmodify.hand_lt

theorem buffer?_markChanged (h : c.Coherent) (txn : TxnId) (page q : PageId) :
    (c.markChanged txn page).buffer? q
      = if page = q then (c.buffer? q).map fun b => { b with dirty := true } else c.buffer? q :=
  buffer?_modify h page _ q

/-! ### A buffer in the place of another -/

theorem bufferAt?_put {b : Buffer} (hframe : frame < c.clock.frames.length) (i : Nat) :
    (c.put frame b).bufferAt? i = if frame = i then some b else c.bufferAt? i := by
  simp only [put, bufferAt?, Clock.frame?, Clock.setFrame, List.getElem?_set]
  by_cases heq : frame = i
  · subst heq
    rw [if_pos rfl, if_pos hframe, if_pos rfl]
  · rw [if_neg heq, if_neg heq]

theorem pageTable_put (c : PageCache) (frame : Nat) (b : Buffer) (page : PageId) :
    (c.put frame b).pageTable.get? page =
      if b.page.id = page then some frame
      else if (c.bufferAt? frame).map (·.page.id) = some page then none
      else c.pageTable.get? page := by
  simp only [put, Assoc.get?_insert]
  cases hold : c.bufferAt? frame with
  | none => simp
  | some old => simp [Assoc.get?_erase]

/-- A page that was not cached takes the place of what stood in a frame. -/
theorem Coherent.put (h : c.Coherent) (hframe : frame < c.clock.frames.length)
    (hnew : c.buffer? b.page.id = none) : (c.put frame b).Coherent := by
  have hlen : (c.put frame b).clock.frames.length = c.clock.frames.length := List.length_set
  refine ⟨by rw [hlen]; exact h.hand_lt, ?_, ?_⟩
  · intro page i hi
    rw [pageTable_put] at hi
    rw [bufferAt?_put hframe]
    split at hi
    · next hid =>
      cases hi
      exact ⟨b, if_pos rfl, hid⟩
    · split at hi
      · cases hi
      · next hold =>
        obtain ⟨b', hb', rfl⟩ := h.bufferAt hi
        refine ⟨b', ?_, rfl⟩
        rw [if_neg, hb']
        rintro rfl
        rw [hb'] at hold
        exact hold rfl
  · intro i b' hb'
    rw [bufferAt?_put hframe] at hb'
    rw [pageTable_put]
    split at hb'
    · next heq =>
      cases hb'
      rw [if_pos rfl, heq]
    · next hne =>
      have hold := h.frameOf hb'
      rw [if_neg, if_neg, hold]
      -- two pages of the table cannot stand in one frame
      · intro hvictim
        obtain ⟨old, hat, hid⟩ := Option.map_eq_some_iff.mp hvictim
        have := h.frameOf hat
        rw [hid, hold] at this
        cases this
        exact hne rfl
      -- the new page was not cached
      · intro hid
        have := (buffer?_eq_some_iff h).mpr ⟨i, hb', rfl⟩
        rw [← hid, hnew] at this
        cases this

theorem buffer?_put (h : c.Coherent) (hframe : frame < c.clock.frames.length) (page : PageId) :
    (c.put frame b).buffer? page =
      if b.page.id = page then some b
      else if (c.bufferAt? frame).map (·.page.id) = some page then none
      else c.buffer? page := by
  rw [buffer?, pageTable_put]
  by_cases hid : b.page.id = page
  · rw [if_pos hid, if_pos hid]
    exact (bufferAt?_put hframe frame).trans (if_pos rfl)
  · rw [if_neg hid, if_neg hid]
    split
    · next i hi =>
      split at hi
      · cases hi
      · next hold =>
        rw [if_neg hold, buffer?, hi, bufferAt?_put hframe]
        refine if_neg ?_
        rintro rfl
        obtain ⟨b', hb', rfl⟩ := h.bufferAt hi
        rw [hb'] at hold
        exact hold rfl
    · next hi =>
      split at hi
      · next hold => rw [if_pos hold]
      · next hold =>
        rw [if_neg hold, buffer?, hi]

/-! ### Dropping a page -/

/-- The cache with a frame emptied and its page taken out of the table. -/
def emptied (c : PageCache) (frame : Nat) (page : PageId) : PageCache :=
  { c with
    clock := c.clock.setFrame frame ⟨0, none⟩
    pageTable := c.pageTable.erase page }

theorem bufferAt?_emptied (c : PageCache) (frame : Nat) (page : PageId) (i : Nat) :
    (c.emptied frame page).bufferAt? i = if frame = i then none else c.bufferAt? i := by
  simp only [emptied, bufferAt?, Clock.frame?, Clock.setFrame, List.getElem?_set]
  by_cases heq : frame = i
  · subst heq
    rw [if_pos rfl, if_pos rfl]
    split
    · next f hf =>
      split at hf
      · cases hf
        rfl
      · cases hf
    · rfl
  · rw [if_neg heq, if_neg heq]

theorem pageTable_emptied (c : PageCache) (frame : Nat) (page q : PageId) :
    (c.emptied frame page).pageTable.get? q = if page = q then none else c.pageTable.get? q :=
  Assoc.get?_erase ..

/-- Two pages of the table do not stand in one frame. -/
theorem Coherent.frame_ne (h : c.Coherent) {q : PageId} {i : Nat} (hframe : c.pageTable.get? page = some frame)
    (hi : c.pageTable.get? q = some i) (hne : page ≠ q) : frame ≠ i := by
  rintro rfl
  obtain ⟨b, hb, rfl⟩ := h.bufferAt hframe
  obtain ⟨b', hb', rfl⟩ := h.bufferAt hi
  rw [hb] at hb'
  cases hb'
  exact hne rfl

/-- A page that is dropped was cached, and nobody held it. -/
theorem exists_of_drop (h : c.Coherent) (hdrop : (c.drop page).1 = true) :
    ∃ b frame, c.buffer? page = some b ∧ b.isHeld = false ∧ c.pageTable.get? page = some frame
      ∧ (c.drop page).2 = c.emptied frame page := by
  revert hdrop
  rw [drop]
  split
  · intro hdrop; cases hdrop
  · next frame hframe =>
    obtain ⟨b, hb, hat⟩ := exists_buffer? h hframe
    split
    · intro hdrop; cases hdrop
    · next f hf =>
      rw [bufferAt?, hf] at hat
      split
      · intro hdrop; cases hdrop
      · next hheld =>
        intro _
        have hfree : b.isHeld = false := by simpa only [Frame.isHeld, hat, Bool.not_eq_true] using hheld
        exact ⟨b, frame, hb, hfree, hframe, rfl⟩

theorem drop_of_eq_false (hdrop : (c.drop page).1 = false) : (c.drop page).2 = c := by
  revert hdrop
  rw [drop]
  split
  · intro _; rfl
  · split
    · intro _; rfl
    · split
      · intro _; rfl
      · intro hdrop; cases hdrop

/-- A held page is not dropped. -/
theorem drop_of_isHeld (h : c.Coherent) (hb : c.buffer? page = some b) (hheld : b.isHeld = true) :
    c.drop page = (false, c) := by
  cases hdrop : (c.drop page).1 with
  | false => exact Prod.ext hdrop (drop_of_eq_false hdrop)
  | true =>
    obtain ⟨b', -, hb', hfree, -⟩ := exists_of_drop h hdrop
    rw [hb] at hb'
    cases hb'
    rw [hheld] at hfree
    cases hfree

/-- A page that is dropped is cached no more; every other one stays. -/
theorem buffer?_drop (h : c.Coherent) (page q : PageId) :
    (c.drop page).2.buffer? q = if (c.drop page).1 = true ∧ page = q then none else c.buffer? q := by
  cases hdrop : (c.drop page).1 with
  | false => rw [drop_of_eq_false hdrop, if_neg fun hc => Bool.false_ne_true hc.1]
  | true =>
    obtain ⟨b, frame, -, -, hframe, hafter⟩ := exists_of_drop h hdrop
    simp only [hafter, buffer?, pageTable_emptied, true_and]
    by_cases heq : page = q
    · rw [if_pos heq, if_pos heq]
    · rw [if_neg heq, if_neg heq]
      cases hi : c.pageTable.get? q with
      | none => rfl
      | some i => exact (bufferAt?_emptied c frame page i).trans (if_neg (h.frame_ne hframe hi heq))

theorem length_drop (h : c.Coherent) (page : PageId) :
    (c.drop page).2.clock.frames.length = c.clock.frames.length := by
  cases hdrop : (c.drop page).1 with
  | false => rw [drop_of_eq_false hdrop]
  | true =>
    obtain ⟨-, frame, -, -, -, hafter⟩ := exists_of_drop h hdrop
    rw [hafter]
    exact List.length_set

theorem Coherent.drop (h : c.Coherent) (page : PageId) : (c.drop page).2.Coherent := by
  cases hdrop : (c.drop page).1 with
  | false => rwa [drop_of_eq_false hdrop]
  | true =>
    obtain ⟨b, frame, -, -, hframe, hafter⟩ := exists_of_drop h hdrop
    refine ⟨by rw [length_drop h, hafter]; exact h.hand_lt, ?_, ?_⟩
    · intro q i hi
      rw [hafter, pageTable_emptied] at hi
      split at hi
      · cases hi
      · next hne =>
        obtain ⟨b', hb', hid⟩ := h.bufferAt hi
        refine ⟨b', ?_, hid⟩
        rw [hafter, bufferAt?_emptied, if_neg (h.frame_ne hframe hi hne), hb']
    · intro i b' hb'
      rw [hafter, bufferAt?_emptied] at hb'
      split at hb'
      · cases hb'
      · next hne =>
        have hi := h.frameOf hb'
        rw [hafter, pageTable_emptied, if_neg, hi]
        rintro rfl
        rw [hframe] at hi
        exact hne (Option.some.inj hi)

end RelStore.PageCache
