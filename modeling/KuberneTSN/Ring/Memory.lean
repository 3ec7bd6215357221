import KuberneTSN.Alloc.Live
import KuberneTSN.Lib.Span
import KuberneTSN.Ring.Fifo

/-!
# The slots of a ring and the pages reserved for it

`kt_ringbuf_create` asks for `128 + count * esize` bytes, computed in `u32`, and gets whole pages;
the bursts store elements of 8 bytes behind the header of 128 bytes, whatever `esize` is.

* `AtRest.step`, `touched_lt` — a run of bursts touches no slot from `2 * count - 2` on (the last
  ones lie behind the array: a burst that crosses its end goes straight on);
* `touches_last` — and three calls touch the last of these;
* `disjoint_pages` — the pages of two live blocks have no address in common;
* `ring_slots_reserved_iff` — so the slots of a ring, and all that its bursts touch, lie in the
  pages reserved for it exactly when these have room for that many elements of 8 bytes.
-/

namespace KuberneTSN.Ring

open Lib KuberneTSN.Alloc

/-- `qsize`, with `sizeof(struct kt_ringbuf) = 128`. -/
def qsize (count esize : UInt32) : UInt32 := 128 + count * esize

/-- `al->alloc` of a page allocator, as `kt_ringbuf_create` uses it: the cells behind the header of
the new block, where `mem a` is the 8-byte word at address `a`. -/
def pageAllocCells (al : KtPageAllocator) (mem : ℕ → UInt64) (size : UInt32) :
    Option (ℕ → UInt64) :=
  match pageAllocAlloc al size.toNat with
  | some (some ptr, _) => some fun k => mem (u64 (ptr + (128 + 8 * k)))
  | _ => none

/-- The bytes of slot `k` of the ring at address `ptr`. -/
def slotSpan (ptr k : ℕ) : Set ℕ := span (2 ^ 64) (ptr + (128 + 8 * k)) 8

/-- The bytes of `pages` pages from address `ptr` on. -/
def pagesSpan (pageSize ptr pages : ℕ) : Set ℕ := span (2 ^ 64) ptr (pages * pageSize)

/-- The allocator with pages of this size has been initialised, and then used as it should be. -/
def Initialised (pageSize : ℕ) (s : Session) : Prop :=
  ∃ pages mask data size al₀ tr, size < 2 ^ 32 ∧ 2 * pageSize ≤ size ∧
    ktPageAllocatorInit pages mask data size pageSize = .ok al₀ ∧ Run allocStep ⟨al₀, []⟩ tr s

/-- The ring `rb` at address `ptr` keeps to the pages reserved for it. -/
structure KeepsToPages (pageSize ptr pages : ℕ) (rb : KtRingbuf) : Prop where
  /-- Its slots lie in these pages. -/
  slots : ∀ k < rb.size.toNat, slotSpan ptr k ⊆ pagesSpan pageSize ptr pages
  /-- Its bursts touch nothing else. -/
  touched : ∀ tr t, Run burstStep ⟨rb, [], [], []⟩ tr t →
    ∀ k ∈ t.touched, slotSpan ptr k ⊆ pagesSpan pageSize ptr pages
  /-- So they touch no other allocation. -/
  others : ∀ tr t, Run burstStep ⟨rb, [], [], []⟩ tr t → ∀ k ∈ t.touched,
    ∀ s, Initialised pageSize s → ∀ g ∈ s.live, g.ptr = ptr → g.block.pages = pages →
      ∀ g' ∈ s.live, g'.block ≠ g.block →
        Disjoint (slotSpan ptr k) (pagesSpan pageSize g'.ptr g'.block.pages)

/-! ## The slots that bursts touch -/

variable {rb : KtRingbuf} {count : UInt32} {t t' : Traffic}

/-- A ring of any geometry between two calls. -/
structure AtRest (count : UInt32) (rb : KtRingbuf) : Prop where
  size : rb.size = count
  mask : rb.mask = count - 1
  capacity : rb.capacity = count - 1
  prod : rb.prod.tail = rb.prod.head
  cons : rb.cons.tail = rb.cons.head
  filled_le : (rb.prod.head - rb.cons.head).toNat ≤ (count - 1).toNat

/-- The free entries. -/
theorem AtRest.toNat_free (h : AtRest count rb) :
    (rb.capacity - (rb.prod.head - rb.cons.tail)).toNat =
      (count - 1).toNat - (rb.prod.head - rb.cons.head).toNat := by
  rw [h.capacity, h.cons]
  exact UInt32.toNat_sub_of_le _ _ (UInt32.le_iff_toNat_le.mpr h.filled_le)

/-- The slots of a burst of `m` elements from slot `idx` on. -/
theorem touched_block {size idx m : UInt32} (h : idx.toNat + m.toNat ≤ 2 ^ 32) {k : ℕ} :
    k ∈ (ktRingbufElemMoves size idx m).map Prod.fst ↔ idx.toNat ≤ k ∧ k < idx.toNat + m.toNat := by
  rw [ktRingbufElemMoves_eq _ _ _ h, map_fst_block, List.mem_map]
  constructor
  · rintro ⟨i, hi, rfl⟩
    rw [List.mem_range] at hi
    omega
  · rintro ⟨hle, hlt⟩
    exact ⟨k - idx.toNat, List.mem_range.mpr (by omega), by omega⟩

/-- The slot of a position is at most the mask. -/
theorem toNat_and_le (x m : UInt32) : (x &&& m).toNat ≤ m.toNat := by
  rw [UInt32.toNat_and]
  exact Nat.and_le_right

/-- A burst of at most `count - 1` elements ends before slot `2 * count - 2`. -/
theorem touched_lt_of_mem {m idx : UInt32} (hcount : count.toNat ≤ 2 ^ 31) (hpos : 1 ≤ count.toNat)
    (hidx : idx.toNat ≤ (count - 1).toNat) (hm : m.toNat ≤ (count - 1).toNat) {k : ℕ} {size : UInt32}
    (hk : k ∈ (ktRingbufElemMoves size idx m).map Prod.fst) : k < 2 * count.toNat - 2 := by
  have hone : (1 : UInt32).toNat = 1 := rfl
  have hpred : (count - 1).toNat = count.toNat - 1 :=
    UInt32.toNat_sub_of_le _ _ (UInt32.le_iff_toNat_le.mpr (by omega))
  have hlt := ((touched_block (by omega)).mp hk).2
  omega

/-- A call leaves the ring at rest, and touches no slot from `2 * count - 2` on. -/
theorem AtRest.step (hcount : count.toNat ≤ 2 ^ 31) (hpos : 1 ≤ count.toNat) {op : BurstOp}
    (h : AtRest count t.rb ∧ ∀ k ∈ t.touched, k < 2 * count.toNat - 2)
    (hstep : burstStep t op = some t') :
    AtRest count t'.rb ∧ ∀ k ∈ t'.touched, k < 2 * count.toNat - 2 := by
  obtain ⟨hrest, htouched⟩ := h
  cases op with
  | enqueue table n =>
      rw [burstStep_of_enqueue (ktRingbufEnqueueBurst_eq hrest.prod table n)] at hstep
      cases hstep
      have hfree := hrest.toNat_free
      have hfilled := hrest.filled_le
      have hm := toNat_burstCount n (t.rb.capacity - (t.rb.prod.head - t.rb.cons.tail))
      generalize t.rb.capacity - (t.rb.prod.head - t.rb.cons.tail) = e at hfree hm
      generalize burstCount n e = m at hm
      refine ⟨⟨hrest.size, hrest.mask, hrest.capacity, rfl, hrest.cons, ?_⟩, ?_⟩
      · have hsum : t.rb.prod.head + m - t.rb.cons.head =
            (t.rb.prod.head - t.rb.cons.head) + m := add_sub_right_comm _ _ _
        change (t.rb.prod.head + m - t.rb.cons.head).toNat ≤ _
        rw [hsum, UInt32.toNat_add]
        exact (Nat.mod_le _ _).trans (by omega)
      · dsimp only
        rw [List.forall_mem_append]
        refine ⟨htouched, fun k hk => touched_lt_of_mem hcount hpos ?_ (by omega) hk⟩
        rw [hrest.mask]
        exact toNat_and_le _ _
  | dequeue table n =>
      rw [burstStep_of_dequeue (ktRingbufDequeueBurst_eq hrest.cons table n)] at hstep
      cases hstep
      have hfilled := hrest.filled_le
      have hm := toNat_burstCount n (t.rb.prod.tail - t.rb.cons.head)
      rw [hrest.prod] at hm ⊢
      generalize burstCount n (t.rb.prod.head - t.rb.cons.head) = m at hm
      refine ⟨⟨hrest.size, hrest.mask, hrest.capacity, hrest.prod, rfl, ?_⟩, ?_⟩
      · have hdiff : t.rb.prod.head - (t.rb.cons.head + m) =
            (t.rb.prod.head - t.rb.cons.head) - m := sub_add_eq_sub_sub _ _ _
        change (t.rb.prod.head - (t.rb.cons.head + m)).toNat ≤ _
        rw [hdiff, UInt32.toNat_sub_of_le _ _ (UInt32.le_iff_toNat_le.mpr (by omega))]
        omega
      · dsimp only
        rw [List.forall_mem_append]
        refine ⟨htouched, fun k hk => touched_lt_of_mem hcount hpos ?_ (by omega) hk⟩
        rw [hrest.size]
        exact toNat_and_le _ _

/-- **No run of bursts touches a slot from `2 * count - 2` on.** -/
theorem touched_lt {alloc : UInt32 → Option (ℕ → UInt64)} {esize : UInt32}
    (hcreate : ktRingbufCreate alloc count esize = some rb) (hcount : count.toNat ≤ 2 ^ 31)
    (hpos : 1 ≤ count.toNat) {tr : List (Traffic × BurstOp)}
    (hrun : Run burstStep ⟨rb, [], [], []⟩ tr t) : ∀ k ∈ t.touched, k < 2 * count.toNat - 2 := by
  obtain ⟨slots, rfl⟩ := ktRingbufCreate_eq_some hcreate
  refine (hrun.always (I := fun t => AtRest count t.rb ∧ ∀ k ∈ t.touched, k < 2 * count.toNat - 2)
    ⟨⟨rfl, rfl, rfl, rfl, rfl, ?_⟩, fun _ hk => absurd hk List.not_mem_nil⟩ ?_).2
  · dsimp only
    rw [UInt32.sub_self, UInt32.toNat_zero]
    exact Nat.zero_le _
  · intro t op t' h hstep
    exact AtRest.step hcount hpos h hstep

/-- A burst that asks for all the entries there are gets them. -/
theorem burstCount_self (n : UInt32) : burstCount n n = n := by
  simp [burstCount]

/-- One burst touches the slot before the last one of a new ring. -/
theorem touches_capacity {alloc : UInt32 → Option (ℕ → UInt64)} {esize : UInt32}
    (hcreate : ktRingbufCreate alloc count esize = some rb) (hpos : 0 < (count - 1).toNat) :
    ∃ tr t, Run burstStep ⟨rb, [], [], []⟩ tr t ∧ (count - 1).toNat - 1 ∈ t.touched := by
  obtain ⟨slots, rfl⟩ := ktRingbufCreate_eq_some hcreate
  have hlt := (count - 1).toNat_lt
  refine ⟨_, _, .one (burstStep_of_enqueue (ktRingbufEnqueueBurst_eq rfl (fun _ => 0) (count - 1))), ?_⟩
  simp only [UInt32.sub_zero, burstCount_self, enqueued, UInt32.zero_and, List.nil_append]
  exact (touched_block (by rw [UInt32.toNat_zero]; omega)).mpr (by rw [UInt32.toNat_zero]; omega)

/-- **Three calls touch slot `2 * count - 3`**: a burst of `count - 1` elements in and out of a new
ring, and the next such burst, which starts in the last slot and goes straight on. -/
theorem touches_last {alloc : UInt32 → Option (ℕ → UInt64)} {esize : UInt32}
    (hcreate : ktRingbufCreate alloc count esize = some rb) (htwo : 2 ≤ count.toNat)
    (hcount : count.toNat ≤ 2 ^ 31) :
    ∃ tr t, Run burstStep ⟨rb, [], [], []⟩ tr t ∧ 2 * count.toNat - 3 ∈ t.touched := by
  obtain ⟨slots, rfl⟩ := ktRingbufCreate_eq_some hcreate
  have hone : (1 : UInt32).toNat = 1 := rfl
  have hpred : (count - 1).toNat = count.toNat - 1 :=
    UInt32.toNat_sub_of_le _ _ (UInt32.le_iff_toNat_le.mpr (by omega))
  refine ⟨_, _, .snoc (.snoc (.one
    (burstStep_of_enqueue (ktRingbufEnqueueBurst_eq rfl (fun _ => 0) (count - 1))))
    (burstStep_of_dequeue (ktRingbufDequeueBurst_eq rfl (fun _ => 0) (count - 1))))
    (burstStep_of_enqueue (ktRingbufEnqueueBurst_eq rfl (fun _ => 0) (count - 1))), ?_⟩
  simp only [UInt32.sub_zero, UInt32.zero_add, UInt32.sub_self, burstCount_self, enqueued, dequeued,
    UInt32.and_self]
  exact List.mem_append_right _ ((touched_block (by omega)).mpr (by omega))

/-! ## The pages of live blocks -/

/-- **The pages of two live blocks have no address in common.** -/
theorem disjoint_pages {pageSize : ℕ} {s : Session} (h : Initialised pageSize s) {g g' : Grant}
    (hg : g ∈ s.live) (hg' : g' ∈ s.live) (hne : g'.block ≠ g.block) :
    Disjoint (pagesSpan pageSize g.ptr g.block.pages) (pagesSpan pageSize g'.ptr g'.block.pages) := by
  obtain ⟨pages, mask, data, size, al₀, tr, hsize, htwo, hinit, hrun⟩ := h
  have hfresh := fresh_of_init hsize htwo hinit
  have hinv := inv_run hfresh hrun
  obtain rfl : al₀.pageSize = pageSize := by
    obtain ⟨-, -, -, -, -, rfl⟩ := ktPageAllocatorInit_eq_ok.mp hinit
    rfl
  have hmem := List.mem_map_of_mem (f := Grant.block) hg
  have hmem' := List.mem_map_of_mem (f := Grant.block) hg'
  have hbytes := hfresh.bytes_lt
  have hend : ∀ b ∈ s.live.map Grant.block,
      b.first * al₀.pageSize + b.pages * al₀.pageSize ≤ 2 ^ 64 := by
    intro b hb
    rw [← Nat.add_mul]
    have hle := Nat.mul_le_mul_right al₀.pageSize (hinv.placed.inside b hb)
    omega
  unfold pagesSpan
  rw [hinv.ptr g hg, hinv.ptr g' hg', u64, u64, span_mod, span_mod]
  refine disjoint_span ?_ (hend _ hmem) (hend _ hmem')
  rw [← Nat.add_mul, ← Nat.add_mul]
  have : Std.Symm Block.Apart := ⟨fun _ _ => Or.symm⟩
  rcases hinv.placed.apart.forall hmem hmem' hne.symm with hle | hle
  · exact Or.inl (Nat.mul_le_mul_right _ hle)
  · exact Or.inr (Nat.mul_le_mul_right _ hle)

/-! ## The slots and the pages -/

variable {pageSize ptr pages : ℕ}

/-- A slot lies in the pages exactly when it ends in them. -/
theorem slotSpan_subset_iff {k : ℕ} (hk : k < 2 ^ 32) :
    slotSpan ptr k ⊆ pagesSpan pageSize ptr pages ↔ 128 + 8 * k + 8 ≤ pages * pageSize :=
  span_subset_span_iff (by decide) (by omega)

/-- The pages hold the request, and less than a page more. -/
theorem ceilDiv_mul_lt {size : ℕ} (hpos : 0 < pageSize) (hps : pageSize < 2 ^ 32)
    (hsize : size < 2 ^ 32) : size ⌈/⌉ pageSize * pageSize < 2 ^ 33 := by
  rw [Nat.ceilDiv_eq_add_pred_div]
  have hle := Nat.div_mul_le_self (size + pageSize - 1) pageSize
  omega

/-- An allocation that answers has pages of at least one byte. -/
theorem pageSize_pos_of_alloc {al al' : KtPageAllocator} {size : ℕ}
    (h : pageAllocAlloc al size = some (some ptr, al')) : 0 < al.pageSize := by
  rcases Nat.eq_zero_or_pos al.pageSize with hzero | hpos
  · rw [pageAllocAlloc, if_pos hzero] at h
    cases h
  · exact hpos

/-- The room that a ring of this many elements of 8 bytes needs, with the slots that bursts across
the end of the array reach. -/
def slotRoom (count : ℕ) : ℕ := 128 + 8 * max count (2 * count - 2)

/-- **When a ring keeps to its pages.** For every page size, count and element size for which
`kt_ringbuf_create` yields a ring, in any state of the allocator: the slots of the ring and all
that its bursts touch lie in the pages that `page_alloc_alloc` reserved for it if and only if there
is at least one slot and these pages, which have room for `128 + count * esize` bytes modulo
`2^32`, have room for the slots. -/
theorem ring_slots_reserved_iff (al al' : KtPageAllocator) (mem : ℕ → UInt64) (count esize : UInt32)
    (rb : KtRingbuf) (hps : al.pageSize < 2 ^ 32)
    (halloc : pageAllocAlloc al (qsize count esize).toNat = some (some ptr, al'))
    (hcreate : ktRingbufCreate (pageAllocCells al mem) count esize = some rb) :
    KeepsToPages al.pageSize ptr (pagesNeeded al (qsize count esize).toNat) rb ↔
      1 ≤ count.toNat ∧
        slotRoom count.toNat ≤ (qsize count esize).toNat ⌈/⌉ al.pageSize * al.pageSize := by
  have hpos := pageSize_pos_of_alloc halloc
  have hlt := ceilDiv_mul_lt hpos hps (qsize count esize).toNat_lt
  rw [← pagesNeeded_eq_ceilDiv hpos (qsize count esize).toNat_lt] at hlt ⊢
  generalize pagesNeeded al (qsize count esize).toNat = pages at hlt ⊢
  have hsize : rb.size = count := by
    obtain ⟨slots, rfl⟩ := ktRingbufCreate_eq_some hcreate
    rfl
  have hone : (1 : UInt32).toNat = 1 := rfl
  unfold slotRoom
  constructor
  · intro h
    have hcount : 1 ≤ count.toNat := by
      -- a ring of no slots has the largest capacity there is
      by_contra hzero
      obtain rfl : count = 0 := UInt32.toNat_inj.mp (show count.toNat = 0 by omega)
      obtain ⟨tr, t, hrun, hk⟩ := touches_capacity hcreate (by decide)
      have hcap : ((0 : UInt32) - 1).toNat = 2 ^ 32 - 1 := rfl
      rw [hcap] at hk
      have hin := (slotSpan_subset_iff (by omega)).mp (h.touched tr t hrun _ hk)
      omega
    have hlast := (slotSpan_subset_iff (by have := count.toNat_lt; omega)).mp
      (h.slots (count.toNat - 1) (by rw [hsize]; omega))
    refine ⟨hcount, ?_⟩
    rcases Nat.lt_or_ge count.toNat 2 with hlt2 | htwo
    · omega
    · obtain ⟨tr, t, hrun, hk⟩ := touches_last hcreate htwo (by omega)
      have hin := (slotSpan_subset_iff (by omega)).mp (h.touched tr t hrun _ hk)
      omega
  · rintro ⟨hcount, hroom⟩
    have htouched : ∀ tr t, Run burstStep ⟨rb, [], [], []⟩ tr t →
        ∀ k ∈ t.touched, slotSpan ptr k ⊆ pagesSpan al.pageSize ptr pages := by
      intro tr t hrun k hk
      have hklt := touched_lt hcreate (by omega) hcount hrun k hk
      exact (slotSpan_subset_iff (by omega)).mpr (by omega)
    refine ⟨fun k hk => ?_, htouched, ?_⟩
    · rw [hsize] at hk
      exact (slotSpan_subset_iff (by omega)).mpr (by omega)
    · rintro tr t hrun k hk s hs g hg rfl rfl g' hg' hne
      exact (disjoint_pages hs hg hg' hne).mono_left (htouched tr t hrun k hk)

/-- A ring of four elements of 8 bytes in pages of 128 bytes. -/
theorem ring_slots_reserved_iff_four : KeepsToPages 128 2432 2 ringOfFour := by
  have hval : (pageAllocAlloc threePages (qsize 4 8).toNat).map Prod.fst = some (some 2432) := by
    decide +kernel
  obtain ⟨⟨_, al'⟩, halloc, rfl⟩ := Option.map_eq_some_iff.mp hval
  have hcreate : ktRingbufCreate (pageAllocCells threePages fun _ => 0) 4 8 = some ringOfFour := by
    rw [ktRingbufCreate, pageAllocCells, show (128 + 4 * 8 : UInt32) = qsize 4 8 from rfl, halloc]
    rfl
  exact (ring_slots_reserved_iff threePages al' (fun _ => 0) 4 8 ringOfFour (by decide) halloc
    hcreate).mpr ⟨by decide, by decide⟩

/-- A ring of 32 elements made with an element size of 1. -/
def ringOfThirtyTwo : KtRingbuf := ⟨32, 1, 31, 31, ⟨0, 0⟩, ⟨0, 0⟩, fun _ => 0⟩

/-- With pages of 128 bytes, the ring of 32 elements of size 1 gets two pages, and one of 17
elements put into it is written into the next allocation. -/
theorem ring_overwrites_next_allocation :
    (∃ tr s, Run allocStep ⟨threePages, []⟩ tr s ∧
      tr.map Prod.snd = [.alloc (qsize 32 1).toNat, .alloc 1] ∧
      s.live = [⟨2688, ⟨2, 1⟩⟩, ⟨2432, ⟨0, 2⟩⟩]) ∧
    ktRingbufCreate (pageAllocCells threePages fun _ => 0) 32 1 = some ringOfThirtyTwo ∧
    (∃ t, burstStep ⟨ringOfThirtyTwo, [], [], []⟩ (.enqueue (fun _ => 1) 17) = some t ∧
      16 ∈ t.touched) ∧
    slotSpan 2432 16 ⊆ pagesSpan 128 2688 1 := by
  refine ⟨?_, ?_, ?_, ?_⟩
  · have hexec : (exec allocStep ⟨threePages, []⟩ [.alloc (qsize 32 1).toNat, .alloc 1]).map
        Session.live = some [⟨2688, ⟨2, 1⟩⟩, ⟨2432, ⟨0, 2⟩⟩] := by
      decide +kernel
    obtain ⟨s, hs, hlive⟩ := Option.map_eq_some_iff.mp hexec
    obtain ⟨tr, hrun, hops⟩ := Run.of_exec hs
    exact ⟨tr, s, hrun, hops, hlive⟩
  · have hval : (pageAllocAlloc threePages (qsize 32 1).toNat).map Prod.fst = some (some 2432) := by
      decide +kernel
    obtain ⟨⟨_, al'⟩, halloc, rfl⟩ := Option.map_eq_some_iff.mp hval
    rw [ktRingbufCreate, pageAllocCells, show (128 + 32 * 1 : UInt32) = qsize 32 1 from rfl, halloc]
    rfl
  · have hval : (burstStep ⟨ringOfThirtyTwo, [], [], []⟩ (.enqueue (fun _ => 1) 17)).map
        Traffic.touched = some (List.range 17) := by
      decide +kernel
    obtain ⟨t, ht, htouched⟩ := Option.map_eq_some_iff.mp hval
    exact ⟨t, ht, by rw [htouched]; decide⟩
  · have hbase : slotSpan 2432 16 = span (2 ^ 64) (2688 + 0) 8 := rfl
    rw [hbase]
    exact (span_subset_span_iff (by decide) (by decide)).mpr (by decide)

end KuberneTSN.Ring
