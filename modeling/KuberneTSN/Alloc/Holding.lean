import KuberneTSN.Alloc.Loops
import KuberneTSN.Lib.Blocks

/-!
# The state of the page allocator as a function of its blocks

`holding al₀ live` is the allocator that was set up as `al₀` and has handed out the blocks `live`:
each of its four records is a function of them.

* `fresh_of_init` — what a successful `kt_page_allocator_init` leaves, with room for two pages;
* `pageAllocAlloc_holding` — an allocation returns, and adds the first block of free pages or
  changes nothing;
* `pageAllocFree_holding`, `pageAllocFree_of_not_covered` — the release of a live block removes it,
  and that of another one changes nothing.
-/

namespace KuberneTSN.Alloc

open Lib

variable {al₀ al : KtPageAllocator} {live : List Block}

/-- An allocator as `kt_page_allocator_init` leaves it, when there is room for two pages. -/
structure Fresh (al : KtPageAllocator) : Prop where
  pageSize_pos : 0 < al.pageSize
  pageCount_pos : 0 < al.pageCount
  pageCount_le : al.pageCount ≤ 2 ^ 31
  bytes_lt : al.pageCount * al.pageSize < 2 ^ 32
  pageFree : al.pageFree = al.pageCount
  page : ∀ i < al.pageCount,
    al.pageList i = ⟨if i + 1 = al.pageCount then 0 else i + 1, 1, i * al.pageSize, 0⟩
  mask : ∀ i < al.pageCount, al.freePagesMask i = 1

/-- The allocator set up as `al₀` once it has handed out the blocks `live`. -/
def holding (al₀ : KtPageAllocator) (live : List Block) : KtPageAllocator :=
  { al₀ with
    pageFree := (freePages al₀.pageCount live).card
    pageList := fun i =>
      { al₀.pageList i with
        free := if Covered live i then 0 else (al₀.pageList i).free
        reserved := (al₀.pageList i).reserved + reservedAt live i }
    freePagesMask := fun i => if Covered live i then 0 else al₀.freePagesMask i }

/-! ## Set-up -/

/-- A `u32` that is a power of two or zero is at most `2^31`. -/
theorem le_of_lowBitOff {x : ℕ} (h : lowBitOff x = 0) (hx : x < 2 ^ 32) : x ≤ 2 ^ 31 := by
  by_contra hlt
  have hpred : u32Pred x = x - 1 := u32Pred_of_pos (by omega) hx
  rw [lowBitOff, hpred] at h
  -- both `x` and `x - 1` have bit 31
  have hbit : (x &&& (x - 1)) / 2 ^ 31 = 1 := by
    rw [Nat.and_div_two_pow, show x / 2 ^ 31 = 1 by omega, show (x - 1) / 2 ^ 31 = 1 by omega]
    rfl
  rw [h] at hbit
  simp at hbit

/-- When `kt_page_allocator_init` succeeds, and what it has computed then. -/
theorem ktPageAllocatorInit_eq_ok {pages : ℕ → KtPage} {mask : ℕ → ℕ} {data size pageSize : ℕ} :
    ktPageAllocatorInit pages mask data size pageSize = .ok al ↔
    lowBitOff size = 0 ∧ lowBitOff pageSize = 0 ∧ 0 < pageSize ∧
      ∃ s, sizePages size (size / pageSize) = some s ∧
        al =
          { pageSize := pageSize
            pageCount := s.pageCount
            pageFree := s.pageCount
            pageListAt := u64 (data + 40)
            freePagesMaskAt := u64 (u64 (data + 40) + s.pageListSize * 24)
            data := alignUp (u64 (u64 (u64 (data + 40) + s.pageListSize * 24) +
              s.freePagesMaskSize)) pageSize
            pageList := initPageList pageSize s.pageCount pages
            freePagesMask := initFreePagesMask s.pageCount mask } := by
  unfold ktPageAllocatorInit
  constructor
  · intro h
    split_ifs at h with hpow hzero
    cases hs : sizePages size (size / pageSize) with
    | none =>
        rw [hs] at h
        cases h
    | some s =>
        rw [hs] at h
        cases h
        rw [not_or, not_not, not_not] at hpow
        exact ⟨hpow.1, hpow.2, Nat.pos_of_ne_zero hzero, s, rfl, rfl⟩
  · rintro ⟨hpow, hpow', hpos, s, hs, rfl⟩
    rw [if_neg (not_or.mpr ⟨not_not.mpr hpow, not_not.mpr hpow'⟩), if_neg hpos.ne', hs]

/-- With room for two pages, `kt_page_allocator_init` leaves a fresh allocator. -/
theorem fresh_of_init {pages : ℕ → KtPage} {mask : ℕ → ℕ} {data size pageSize : ℕ}
    (hsize : size < 2 ^ 32) (htwo : 2 * pageSize ≤ size)
    (h : ktPageAllocatorInit pages mask data size pageSize = .ok al) : Fresh al := by
  obtain ⟨hpow, -, hpos, s, hs, rfl⟩ := ktPageAllocatorInit_eq_ok.mp h
  have hcount : 2 ≤ size / pageSize := (Nat.le_div_iff_mul_le hpos).mpr htwo
  have hle : size / pageSize ≤ size := Nat.div_le_self _ _
  obtain ⟨c, hc, rfl, hne, -, hbounds, -⟩ := sizePages_some (by omega) hs
  obtain ⟨hcpos, hcle⟩ := hbounds (by omega)
  rw [u32Pred_of_pos hcpos hc] at hne ⊢
  have hsize' := le_of_lowBitOff hpow hsize
  have hbytes : (c - 1) * pageSize < 2 ^ 32 := by
    calc (c - 1) * pageSize ≤ size / pageSize * pageSize := Nat.mul_le_mul_right _ (by omega)
      _ ≤ size := Nat.div_mul_le_self _ _
      _ < 2 ^ 32 := hsize
  refine ⟨hpos, Nat.pos_of_ne_zero hne, ?_, hbytes, rfl, ?_, ?_⟩
  · dsimp only
    omega
  · intro i hi
    dsimp only at hi ⊢
    have hoff : i * pageSize < 2 ^ 32 :=
      (Nat.mul_le_mul_right pageSize hi.le).trans_lt hbytes
    rw [initPageList_of_lt _ hi, show u32 (i * pageSize) = i * pageSize from Nat.mod_eq_of_lt hoff]
  · intro i hi
    dsimp only at hi ⊢
    rw [initFreePagesMask_eq]
    exact if_pos hi

/-- A fresh allocator has handed out nothing. -/
theorem Fresh.holding_nil (h : Fresh al₀) : holding al₀ [] = al₀ := by
  have hcov : ∀ i, ¬ Covered [] i := fun i ⟨b, hb, _⟩ => absurd hb List.not_mem_nil
  have hfree : freePages al₀.pageCount [] = Finset.range al₀.pageCount :=
    Finset.filter_true_of_mem fun i _ => hcov i
  apply KtPageAllocator.ext
  case pageFree => rw [holding, hfree, Finset.card_range, h.pageFree]
  case pageList =>
    funext i
    simp only [holding, if_neg (hcov i)]
    rfl
  case freePagesMask =>
    funext i
    dsimp only [holding]
    rw [if_neg (hcov i)]
  all_goals rfl

/-- The state does not depend on the order of the blocks. -/
theorem holding_perm {live' : List Block} (hp : live.Perm live') :
    holding al₀ live = holding al₀ live' := by
  have hcov : ∀ i, Covered live i ↔ Covered live' i := fun i => covered_congr fun _ => hp.mem_iff
  simp only [holding, freePages_perm hp, hcov, reservedAt_perm hp]

/-! ## Allocation -/

/-- The number of pages needed is the size divided by the page size, rounded up. -/
theorem pagesNeeded_eq_ceilDiv (hpos : 0 < al.pageSize) {size : ℕ} (hlt : size < 2 ^ 32) :
    pagesNeeded al size = size ⌈/⌉ al.pageSize := by
  have hdiv := Nat.div_add_mod size al.pageSize
  have hmod := Nat.mod_lt size hpos
  have hceil : size / al.pageSize + (if size % al.pageSize ≠ 0 then 1 else 0) =
      size ⌈/⌉ al.pageSize := by
    rw [Nat.ceilDiv_eq_add_pred_div]
    refine (Nat.div_eq_of_lt_le ?_ ?_).symm
    · rw [Nat.add_mul, Nat.mul_comm _ al.pageSize]
      split_ifs <;> omega
    · rw [Nat.add_mul, Nat.add_mul, Nat.mul_comm _ al.pageSize]
      split_ifs <;> omega
  have hle : size ⌈/⌉ al.pageSize ≤ size :=
    (ceilDiv_le_iff_le_smul hpos).mpr (Nat.le_mul_of_pos_left size hpos)
  rw [pagesNeeded, hceil]
  exact Nat.mod_eq_of_lt (by omega)

/-- Only a request of no byte needs no page. -/
theorem pagesNeeded_eq_zero (hpos : 0 < al.pageSize) {size : ℕ} (hlt : size < 2 ^ 32) :
    pagesNeeded al size = 0 ↔ size = 0 := by
  rw [pagesNeeded_eq_ceilDiv hpos hlt, ← Nat.le_zero, ceilDiv_le_iff_le_smul hpos, smul_zero,
    Nat.le_zero]

/-- A request of at least one byte needs at least one page. -/
theorem pagesNeeded_pos (hpos : 0 < al.pageSize) {size : ℕ} (hsize : 1 ≤ size)
    (hlt : size < 2 ^ 32) : 0 < pagesNeeded al size :=
  Nat.pos_of_ne_zero fun hzero => absurd ((pagesNeeded_eq_zero hpos hlt).mp hzero) (by omega)

/-- There are never more free pages than pages. -/
theorem pageFree_holding_le : (holding al₀ live).pageFree ≤ al₀.pageCount :=
  (Finset.card_filter_le _ _).trans (Finset.card_range _).le

/-- The page list leads from page to page. -/
theorem Fresh.next_eq (h : Fresh al₀) {i : ℕ} (hi : i + 1 < al₀.pageCount) :
    (al₀.pageList i).next = i + 1 := by
  rw [h.page i (by omega)]
  exact if_neg hi.ne

/-- Setting the reservation count of one page. -/
theorem update_reserved (list : ℕ → KtPage) (k r : ℕ) :
    Function.update list k { list k with reserved := r } =
      fun i => { list i with reserved := if i = k then r else (list i).reserved } := by
  funext i
  by_cases hi : i = k
  · subst hi
    rw [Function.update_self, if_pos rfl]
  · rw [Function.update_of_ne hi, if_neg hi]

/-- Marking the pages of the block `b` in a page list that leads from page to page below `n`. -/
theorem markPages_block {list : ℕ → KtPage} {n : ℕ} {b : Block} (hin : b.first + b.pages ≤ n)
    (hnext : ∀ i, i + 1 < n → (list i).next = i + 1) (v : ℕ) :
    markPages v b.pages b.first list =
      fun i => { list i with free := if b.Has i then v else (list i).free } := by
  rw [markPages_eq v b.pages b.first list fun j _ hj => hnext j (by omega)]
  funext i
  by_cases hhas : b.Has i
  · rw [if_pos hhas]
    exact if_pos hhas
  · rw [if_neg hhas]
    exact if_neg hhas

/-- Marking the pages of a block in the mask. -/
theorem markMask_block {b : Block} {n : ℕ} (hn : n ≤ 2 ^ 31) (hin : b.first + b.pages ≤ n)
    (v : ℕ) (mask : ℕ → ℕ) :
    markMask v b.first (u32 (b.first + b.pages)) mask = fun i => if b.Has i then v else mask i := by
  have hstop : u32 (b.first + b.pages) = b.first + b.pages := Nat.mod_eq_of_lt (by omega)
  rw [hstop, markMask_eq]
  rfl

/-- What `page_alloc_alloc` makes of the records when it has found the block `b`. -/
theorem alloc_records (hfresh : Fresh al₀) (hplaced : Placed al₀.pageCount live) {b : Block}
    (hin : b.first + b.pages ≤ al₀.pageCount) (hfree : ∀ i, b.Has i → ¬ Covered live i)
    (hpos : 0 < b.pages) :
    { holding al₀ live with
      pageList := markPages 0 b.pages b.first (Function.update (holding al₀ live).pageList b.first
        { (holding al₀ live).pageList b.first with reserved := b.pages })
      freePagesMask :=
        markMask 0 b.first (u32 (b.first + b.pages)) (holding al₀ live).freePagesMask
      pageFree := u32 ((holding al₀ live).pageFree + 2 ^ 32 - b.pages) } =
      holding al₀ (b :: live) := by
  have hcount := hfresh.pageCount_le
  have hcard := card_freePages_cons hin hfree
  have hle : (holding al₀ live).pageFree ≤ al₀.pageCount := pageFree_holding_le
  apply KtPageAllocator.ext
  case pageFree =>
    dsimp only [holding] at hle ⊢
    unfold u32
    omega
  case pageList =>
    have hhead : (al₀.pageList b.first).reserved + reservedAt live b.first = 0 := by
      rw [hfresh.page _ (by omega), hplaced.reservedAt_of_not_covered (hfree _ ⟨le_rfl, by omega⟩)]
    dsimp only
    rw [update_reserved, markPages_block hin]
    · funext i
      dsimp only [holding]
      rw [ite_covered_cons, reservedAt_cons]
      congr 1
      by_cases hi : i = b.first
      · subst hi
        rw [if_pos rfl, if_pos rfl]
        omega
      · rw [if_neg hi, if_neg (Ne.symm hi), zero_add]
    · exact fun i hi => hfresh.next_eq hi
  case freePagesMask =>
    dsimp only
    rw [markMask_block hcount hin]
    funext i
    dsimp only [holding]
    rw [ite_covered_cons]
  all_goals rfl

/-- A page is free in the mask when no block covers it. -/
theorem Fresh.mask_holding_ne_zero (h : Fresh al₀) {i : ℕ} (hi : i < al₀.pageCount) :
    (holding al₀ live).freePagesMask i ≠ 0 ↔ ¬ Covered live i := by
  dsimp only [holding]
  rw [h.mask i hi]
  simp

/-- A run of free pages is not longer than the free pages are many. -/
theorem FreeRun.le_pageFree (hfresh : Fresh al₀) {i m : ℕ} (h : FreeRun (holding al₀ live) i m) :
    m ≤ (holding al₀ live).pageFree := by
  obtain ⟨hin, hfree⟩ : i + m ≤ al₀.pageCount ∧ _ := h
  have hsub : Finset.Ico i (i + m) ⊆ freePages al₀.pageCount live := by
    intro k hk
    rw [Finset.mem_Ico] at hk
    have hlt : k < al₀.pageCount := hk.2.trans_le hin
    have hmask := hfree (k - i) (by omega)
    rw [Nat.add_sub_cancel' hk.1, hfresh.mask_holding_ne_zero hlt] at hmask
    exact mem_freePages.mpr ⟨hlt, hmask⟩
  have hcard := Finset.card_le_card hsub
  rwa [Nat.card_Ico, Nat.add_sub_cancel_left] at hcard

/-- **An allocation** of at least one byte returns; there is no run of free pages and nothing
changes, or it hands out the first one as a block. -/
theorem pageAllocAlloc_holding (hfresh : Fresh al₀) (hplaced : Placed al₀.pageCount live) {size : ℕ}
    (hsize : 1 ≤ size) (hlt : size < 2 ^ 32) :
    ((∀ i, ¬ FreeRun (holding al₀ live) i (pagesNeeded al₀ size)) ∧
      pageAllocAlloc (holding al₀ live) size = some (none, holding al₀ live)) ∨
    ∃ b : Block, b.pages = pagesNeeded al₀ size ∧ Placed al₀.pageCount (b :: live) ∧
      IsFirstFit (holding al₀ live) 0 (pagesNeeded al₀ size) (some b.first) ∧
      pageAllocAlloc (holding al₀ live) size =
        some (some (u64 (al₀.data + b.first * al₀.pageSize)), holding al₀ (b :: live)) := by
  have hpos := pagesNeeded_pos hfresh.pageSize_pos hsize hlt
  have hcount := hfresh.pageCount_le
  have hneed : pagesNeeded (holding al₀ live) size = pagesNeeded al₀ size := rfl
  have hps : (holding al₀ live).pageSize ≠ 0 := hfresh.pageSize_pos.ne'
  unfold pageAllocAlloc
  rw [if_neg hps, hneed]
  dsimp only
  generalize pagesNeeded al₀ size = need at hpos ⊢
  by_cases hroom : (holding al₀ live).pageFree < need
  · rw [if_pos hroom]
    exact Or.inl ⟨fun i hrun => absurd (hrun.le_pageFree hfresh) (not_le.mpr hroom), rfl⟩
  rw [if_neg hroom]
  obtain ⟨r, hr, hfirst⟩ := pageAllocFindAlignedPages_spec
    (show (holding al₀ live).pageCount < 2 ^ 32 from hcount.trans_lt (by decide)) hpos
  rw [hr]
  cases r with
  | none => exact Or.inl ⟨fun i => hfirst i (Nat.zero_le i), rfl⟩
  | some index =>
      obtain ⟨-, ⟨hin, hmask⟩, -⟩ := id hfirst
      have hin : index + need ≤ al₀.pageCount := hin
      have hfree : ∀ i, Block.Has ⟨index, need⟩ i → ¬ Covered live i := by
        rintro i ⟨hi₁, hi₂⟩
        dsimp only at hi₁ hi₂
        have hmask := hmask (i - index) (by omega)
        rwa [Nat.add_sub_cancel' hi₁, hfresh.mask_holding_ne_zero (by omega)] at hmask
      refine Or.inr ⟨⟨index, need⟩, rfl, hplaced.cons hpos hin hfree, hfirst, ?_⟩
      have hrec := alloc_records hfresh hplaced hin hfree hpos
      have hoffset : ((holding al₀ (⟨index, need⟩ :: live)).pageList index).offset =
          index * al₀.pageSize := congrArg KtPage.offset (hfresh.page index (by omega))
      dsimp only at hrec ⊢
      rw [hrec, ← hoffset, ← hrec]
      rfl

/-! ## Release -/

/-- `page_alloc_free` finds the page of an address that `page_alloc_alloc` answered. -/
theorem pageIndex_of_page (al : KtPageAllocator) (hpos : 0 < al.pageSize) {k : ℕ}
    (hk : k * al.pageSize < 2 ^ 32) :
    pageIndex al (u64 (al.data + k * al.pageSize)) = k := by
  have hdiff : ((u64 (al.data + k * al.pageSize) : ℤ) - al.data).bmod (2 ^ 64) =
      ((k * al.pageSize : ℕ) : ℤ) := by
    unfold u64
    rw [Int.bmod_def]
    generalize k * al.pageSize = x at hk ⊢
    push_cast
    omega
  have hle : k ≤ k * al.pageSize := Nat.le_mul_of_pos_right k hpos
  unfold pageIndex
  rw [hdiff, Int.natCast_mul, Int.mul_tdiv_cancel _ (by omega)]
  omega

/-- The address of a block leads back to its first page. -/
theorem Fresh.pageIndex_holding (hfresh : Fresh al₀) (live : List Block) {k : ℕ}
    (hk : k ≤ al₀.pageCount) :
    pageIndex (holding al₀ live) (u64 (al₀.data + k * al₀.pageSize)) = k :=
  pageIndex_of_page (holding al₀ live) hfresh.pageSize_pos
    ((Nat.mul_le_mul_right _ hk).trans_lt hfresh.bytes_lt)

/-- What `page_alloc_free` makes of the records when it has found the block `b`. -/
theorem free_records (hfresh : Fresh al₀) {b : Block} (hplaced : Placed al₀.pageCount (b :: live))
    {list : ℕ → KtPage} (hlist : list = markPages 1 b.pages b.first
      (Function.update (holding al₀ (b :: live)).pageList b.first
        { (holding al₀ (b :: live)).pageList b.first with free := 1 })) :
    { holding al₀ (b :: live) with
      pageList := Function.update list b.first { list b.first with reserved := 0 }
      freePagesMask :=
        markMask 1 b.first (u32 (b.first + b.pages)) (holding al₀ (b :: live)).freePagesMask
      pageFree := u32 ((holding al₀ (b :: live)).pageFree + b.pages) } =
      holding al₀ live := by
  have hcount := hfresh.pageCount_le
  have hpos := hplaced.pos b List.mem_cons_self
  have hin := hplaced.inside b List.mem_cons_self
  have hcard := card_freePages_cons hin fun i => hplaced.not_covered_tail
  have hle : (holding al₀ live).pageFree ≤ al₀.pageCount := pageFree_holding_le
  apply KtPageAllocator.ext
  case pageFree =>
    dsimp only [holding] at hle ⊢
    unfold u32
    omega
  case pageList =>
    dsimp only
    rw [update_reserved, hlist, markPages_block hin]
    · funext i
      by_cases hi : i = b.first
      · have hhas : b.Has i := ⟨hi.ge, by omega⟩
        have hnot := hplaced.not_covered_tail hhas
        subst hi
        dsimp only [holding]
        rw [Function.update_self, if_pos rfl, if_pos hhas, if_neg hnot,
          hplaced.tail.reservedAt_of_not_covered hnot, hfresh.page _ (by omega)]
      · have hone : b.Has i → 1 = (al₀.pageList i).free := fun hhas => by
          rw [hfresh.page i (hhas.2.trans_le hin)]
        dsimp only [holding]
        rw [Function.update_of_ne hi, if_neg hi, reservedAt_cons, if_neg (Ne.symm hi), zero_add,
          hplaced.ite_covered_tail 0 hone]
    · intro i hi
      by_cases hfirst : i = b.first
      · subst hfirst
        rw [Function.update_self]
        exact hfresh.next_eq hi
      · rw [Function.update_of_ne hfirst]
        exact hfresh.next_eq hi
  case freePagesMask =>
    have hone : ∀ i, b.Has i → 1 = al₀.freePagesMask i := fun i hhas =>
      (hfresh.mask i (hhas.2.trans_le hin)).symm
    dsimp only
    rw [markMask_block hcount hin]
    funext i
    exact hplaced.ite_covered_tail 0 (hone i)
  all_goals rfl

/-- **The release** of a live block takes it from the live blocks. -/
theorem pageAllocFree_holding (hfresh : Fresh al₀) {b : Block}
    (hplaced : Placed al₀.pageCount (b :: live)) :
    pageAllocFree (holding al₀ (b :: live)) (u64 (al₀.data + b.first * al₀.pageSize)) =
      holding al₀ live := by
  have hpos := hplaced.pos b List.mem_cons_self
  have hin := hplaced.inside b List.mem_cons_self
  have hindex := hfresh.pageIndex_holding (b :: live) (show b.first ≤ al₀.pageCount by omega)
  have hfree : ((holding al₀ (b :: live)).pageList b.first).free = 0 :=
    if_pos ⟨b, List.mem_cons_self, le_rfl, by omega⟩
  have hreserved : (Function.update (holding al₀ (b :: live)).pageList b.first
      { (holding al₀ (b :: live)).pageList b.first with free := 1 } b.first).reserved =
      b.pages := by
    rw [Function.update_self]
    dsimp only [holding]
    rw [hplaced.reservedAt_head, hfresh.page _ (by omega), zero_add]
  unfold pageAllocFree
  dsimp only at hreserved ⊢
  rw [hindex, if_neg (not_not.mpr hfree), hreserved]
  exact free_records hfresh hplaced rfl

/-- The release of a block that is not live changes nothing. -/
theorem pageAllocFree_of_not_covered (hfresh : Fresh al₀) {k : ℕ} (hk : k < al₀.pageCount)
    (hnot : ¬ Covered live k) :
    pageAllocFree (holding al₀ live) (u64 (al₀.data + k * al₀.pageSize)) = holding al₀ live := by
  have hindex := hfresh.pageIndex_holding live hk.le
  have hfree : ((holding al₀ live).pageList k).free ≠ 0 := by
    dsimp only [holding]
    rw [if_neg hnot, hfresh.page k hk]
    exact one_ne_zero
  unfold pageAllocFree
  dsimp only
  rw [hindex, if_pos hfree]

end KuberneTSN.Alloc
