import KuberneTSN.Alloc.Live

/-!
# Where the page allocator puts its memory

`kt_page_allocator_init` places a header of 40 bytes, the page list, the free mask and the data
area in the `size` bytes at `data`. The byte size of the page list is multiplied by the size of an
entry once more, so with `q = size / page_size` pages the data area begins at or after
`data + 40 + 577 * q`, and it is given `q - 1` pages of the `q` that `size` bytes are.

* `LayoutFits` — the four areas follow each other inside the segment;
* `layoutFits_iff` — they do exactly when the metadata, so counted, leave all pages but one;
* `layout_fits_iff_metadata_in_page` — and then, and only then, every block is inside too;
* `layout_overruns_segment` — the segment that `ktsnd` sets up is not of this kind.
-/

namespace KuberneTSN.Alloc

open Lib

/-- The areas of the allocator follow each other in the `size` bytes at `data`, and the data area is
aligned. -/
structure LayoutFits (data size : ℕ) (al : KtPageAllocator) : Prop where
  pageSize : al.pageSize ≠ 0
  pageCount : al.pageCount ≠ 0
  header : data + 40 ≤ al.pageListAt
  pageList : al.pageListAt + 24 * al.pageCount ≤ al.freePagesMaskAt
  mask : al.freePagesMaskAt + al.pageCount ≤ al.data
  aligned : al.data % al.pageSize = 0
  inside : al.data + al.pageCount * al.pageSize ≤ data + size

/-- The address of the data area of an allocator that was sized for `count` pages, if no address
wraps. -/
def dataAt (data count pageSize : ℕ) : ℕ := (data + 40 + 577 * count) ⌈/⌉ pageSize * pageSize

theorem le_dataAt (data count : ℕ) {pageSize : ℕ} (hpos : 0 < pageSize) :
    data + 40 + 577 * count ≤ dataAt data count pageSize := by
  have hlt := Nat.lt_div_mul_add (a := data + 40 + 577 * count + pageSize - 1) hpos
  rw [dataAt, Nat.ceilDiv_eq_add_pred_div]
  omega

/-- The allocator sized for `count` pages, with the addresses as the source computes them. -/
structure SizedFor (base count bytes : ℕ) (al : KtPageAllocator) : Prop where
  bytes_pos : 0 < bytes
  pageSize : al.pageSize = bytes
  pageCount : al.pageCount = u32Pred count
  pageListAt : al.pageListAt = u64 (base + 40)
  freePagesMaskAt : al.freePagesMaskAt = u64 (al.pageListAt + u32 (count * 24) * 24)
  data : al.data = alignUp (u64 (al.freePagesMaskAt + count)) bytes

variable {data size count pageSize : ℕ} {al : KtPageAllocator}

/-- Where the areas are, if no address wraps. -/
theorem SizedFor.addresses (h : SizedFor data count pageSize al) (hcount : count * 24 < 2 ^ 32)
    (hroom : data + 40 + 577 * count + pageSize ≤ 2 ^ 64) :
    al.pageListAt = data + 40 ∧ al.freePagesMaskAt = data + 40 + 576 * count ∧
      al.data = dataAt data count pageSize := by
  have hpos := h.bytes_pos
  have hlist : al.pageListAt = data + 40 := h.pageListAt.trans (Nat.mod_eq_of_lt (by omega))
  have hmask : al.freePagesMaskAt = data + 40 + 576 * count := by
    rw [h.freePagesMaskAt, hlist, u32, Nat.mod_eq_of_lt hcount, u64, Nat.mod_eq_of_lt (by omega)]
    omega
  refine ⟨hlist, hmask, ?_⟩
  rw [h.data, hmask, alignUp, u64, u64, Nat.mod_eq_of_lt (show _ < 2 ^ 64 by omega),
    Nat.mod_eq_of_lt (by omega), dataAt, Nat.ceilDiv_eq_add_pred_div]
  congr 3
  omega

/-- In a layout that fits, no address has wrapped. -/
theorem SizedFor.noWrap (h : SizedFor data count pageSize al) (hcount : count < 2 ^ 32)
    (hsize : size < 2 ^ 32) (hps : pageSize < 2 ^ 32) (hdata : data + size ≤ 2 ^ 64)
    (hfits : LayoutFits data size al) :
    2 ≤ count ∧ al.pageCount = count - 1 ∧ count * 24 < 2 ^ 32 ∧
      data + 40 + 577 * count + pageSize ≤ 2 ^ 64 := by
  obtain ⟨-, hne, hheader, hlist, hmask, -, hinside⟩ := hfits
  have hpos := h.bytes_pos
  have hpages : al.pageCount ≤ al.pageCount * al.pageSize :=
    Nat.le_mul_of_pos_right _ (h.pageSize ▸ hpos)
  have hcountpos : 0 < count := by
    rcases Nat.eq_zero_or_pos count with rfl | hpos
    · have hwrap : al.pageCount = 2 ^ 32 - 1 := h.pageCount
      omega
    · exact hpos
  have hpred : al.pageCount = count - 1 := h.pageCount.trans (u32Pred_of_pos hcountpos hcount)
  have h24 : count * 24 < 2 ^ 32 := by omega
  have hlistAt := h.pageListAt
  have hmaskAt := h.freePagesMaskAt
  rw [u32, Nat.mod_eq_of_lt h24] at hmaskAt
  have hdataLe : al.data ≤ u64 (u64 (al.freePagesMaskAt + count) + pageSize - 1) := by
    rw [h.data]
    exact Nat.div_mul_le_self _ _
  unfold u64 at hlistAt hmaskAt hdataLe
  refine ⟨by omega, hpred, h24, ?_⟩
  have hlistAt' : al.pageListAt = data + 40 := by omega
  have hmaskAt' : al.freePagesMaskAt = data + 40 + 576 * count := by omega
  omega

variable {pages : ℕ → KtPage} {mask : ℕ → ℕ}

/-- The page count that `kt_page_allocator_init` lays the memory out for. -/
theorem sizedFor_of_init (hsize : size < 2 ^ 32)
    (hinit : ktPageAllocatorInit pages mask data size pageSize = .ok al) :
    ∃ count < 2 ^ 32, SizedFor data count pageSize al ∧
      (count = size / pageSize ∨ ∃ p < 2 ^ 32, count = u32Pred p ∧ size < metadataSize p) := by
  obtain ⟨-, -, hpos, s, hs, rfl⟩ := ktPageAllocatorInit_eq_ok.mp hinit
  have hle : size / pageSize ≤ size := Nat.div_le_self _ _
  obtain ⟨count, hcount, rfl, -, -, -, hlast⟩ := sizePages_some (by omega) hs
  exact ⟨count, hcount, ⟨hpos, rfl, rfl, rfl, rfl, rfl⟩, hlast⟩

/-- It is the number of pages of the segment, when the metadata of so many fit. -/
theorem sizedFor_of_fits (hinit : ktPageAllocatorInit pages mask data size pageSize = .ok al)
    (hne : u32Pred (size / pageSize) ≠ 0) (hfits : metadataSize (size / pageSize) ≤ size) :
    SizedFor data (size / pageSize) pageSize al := by
  obtain ⟨-, -, hpos, s, hs, rfl⟩ := ktPageAllocatorInit_eq_ok.mp hinit
  rw [sizePages_of_fits hne hfits] at hs
  cases hs
  exact ⟨hpos, rfl, rfl, rfl, rfl, rfl⟩

/-- The `u32` numbers other than `0` that pass the power-of-two check pass it rightly. -/
theorem isPowerOfTwo_of_lowBitOff {x : ℕ} (hpos : 0 < x) (hx : x < 2 ^ 32) (h : lowBitOff x = 0) :
    x.isPowerOfTwo := by
  rw [lowBitOff, u32Pred_of_pos hpos hx] at h
  exact (Nat.and_sub_one_eq_zero_iff_isPowerOfTwo hpos.ne').mp h

/-- The pages fill the segment. -/
theorem div_mul_pageSize (hsize : size < 2 ^ 32) (hle : pageSize ≤ size)
    (hinit : ktPageAllocatorInit pages mask data size pageSize = .ok al) :
    size / pageSize * pageSize = size := by
  obtain ⟨hpow, hpow', hpos, -⟩ := ktPageAllocatorInit_eq_ok.mp hinit
  obtain ⟨k, hk⟩ := isPowerOfTwo_of_lowBitOff (hpos.trans_le hle) hsize hpow
  obtain ⟨j, hj⟩ := isPowerOfTwo_of_lowBitOff hpos (hle.trans_lt hsize) hpow'
  subst hk hj
  exact Nat.div_mul_cancel (Nat.pow_dvd_pow 2 ((Nat.pow_le_pow_iff_right (by decide)).mp hle))

/-- The metadata of `p` pages, as the sizing loop counts them. -/
theorem metadataSize_le (p : ℕ) : metadataSize p ≤ 40 + 25 * p := by
  have hlist : u32 (p * 24) ≤ p * 24 := Nat.mod_le _ _
  have htotal : metadataSize p ≤ 40 + u32 (p * 24) + p := Nat.mod_le _ _
  omega

/-- A layout that fits is one for all pages of the segment but one. -/
theorem count_of_fits (hsize : size < 2 ^ 32) (hps : pageSize < 2 ^ 32) (hdata : data + size ≤ 2 ^ 64)
    (hinit : ktPageAllocatorInit pages mask data size pageSize = .ok al)
    (hfits : LayoutFits data size al) :
    2 ≤ size / pageSize ∧ al.data = dataAt data (size / pageSize) pageSize ∧
      al.pageSize = pageSize ∧ al.pageCount = size / pageSize - 1 := by
  obtain ⟨count, hcount, hsized, hlast⟩ := sizedFor_of_init hsize hinit
  obtain ⟨htwo, hpages, h24, hroom⟩ := hsized.noWrap hcount hsize hps hdata hfits
  obtain ⟨-, -, hat⟩ := hsized.addresses h24 hroom
  have hraw : data + 40 + 577 * count ≤ al.data := hat ▸ le_dataAt _ _ hsized.bytes_pos
  have hinside := hfits.inside
  -- a smaller count than the first one was only taken because more metadata did not fit
  have heq : count = size / pageSize := by
    rcases hlast with heq | ⟨p, hp, hprev, hlt⟩
    · exact heq
    · have hle := metadataSize_le p
      rcases Nat.eq_zero_or_pos p with hzero | hpos
      · omega
      · rw [u32Pred_of_pos hpos hp] at hprev
        omega
  subst heq
  exact ⟨htwo, hat, hsized.pageSize, hpages⟩

/-- **When the layout fits**: the metadata leave all pages of the segment but one. -/
theorem layoutFits_iff (hsize : size < 2 ^ 32) (hps : pageSize < 2 ^ 32)
    (hdata : data + size ≤ 2 ^ 64)
    (hinit : ktPageAllocatorInit pages mask data size pageSize = .ok al) :
    LayoutFits data size al ↔
      2 * pageSize ≤ size ∧ dataAt data (size / pageSize) pageSize ≤ data + pageSize := by
  have hpos : 0 < pageSize := (ktPageAllocatorInit_eq_ok.mp hinit).2.2.1
  constructor
  · intro hfits
    obtain ⟨htwo, hat, hbytes, hpages⟩ := count_of_fits hsize hps hdata hinit hfits
    have hle := (Nat.le_div_iff_mul_le hpos).mp htwo
    have hmul := div_mul_pageSize hsize (by omega) hinit
    have hinside := hfits.inside
    rw [hpages, hbytes, hat, Nat.sub_mul, hmul] at hinside
    exact ⟨hle, by omega⟩
  · rintro ⟨hle, hone⟩
    have htwo : 2 ≤ size / pageSize := (Nat.le_div_iff_mul_le hpos).mpr hle
    have hpred : u32Pred (size / pageSize) = size / pageSize - 1 :=
      u32Pred_of_pos (by omega) ((Nat.div_le_self _ _).trans_lt hsize)
    have hmul := div_mul_pageSize hsize (by omega) hinit
    have hraw := le_dataAt data (size / pageSize) hpos
    have hmeta := metadataSize_le (size / pageSize)
    have hsized := sizedFor_of_fits hinit (by rw [hpred]; omega) (by omega)
    obtain ⟨hlistAt, hmaskAt, hat⟩ := hsized.addresses (by omega) (by omega)
    have hpages : al.pageCount = size / pageSize - 1 := hsized.pageCount.trans hpred
    refine ⟨?_, ?_, hlistAt.ge, ?_, ?_, ?_, ?_⟩
    · rw [hsized.pageSize]
      exact hpos.ne'
    · omega
    · omega
    · omega
    · rw [hat, hsized.pageSize, dataAt]
      exact Nat.mul_mod_left _ _
    · rw [hat, hsized.pageSize, hpages, Nat.sub_mul, hmul]
      omega

/-- In a layout that fits, the live blocks are inside the segment. -/
theorem LayoutFits.block_inside (hfits : LayoutFits data size al) (hdata : data + size ≤ 2 ^ 64)
    {s : Session} (hinv : Inv al s) {g : Grant} (hg : g ∈ s.live) :
    data ≤ g.ptr ∧ g.ptr + g.block.pages * al.pageSize ≤ data + size := by
  have hmem : g.block ∈ s.live.map Grant.block := List.mem_map_of_mem hg
  have hpos : 0 < al.pageSize := Nat.pos_of_ne_zero hfits.pageSize
  have hend : g.block.first * al.pageSize + g.block.pages * al.pageSize ≤
      al.pageCount * al.pageSize := by
    rw [← Nat.add_mul]
    exact Nat.mul_le_mul_right _ (hinv.placed.inside _ hmem)
  have hone : 0 < g.block.pages * al.pageSize := Nat.mul_pos (hinv.placed.pos _ hmem) hpos
  obtain ⟨-, -, hheader, hlist, hmask, -, hinside⟩ := hfits
  have hptr : g.ptr = al.data + g.block.first * al.pageSize :=
    (hinv.ptr g hg).trans (Nat.mod_eq_of_lt (by omega))
  exact ⟨by omega, by omega⟩

/-- **When the memory of the allocator fits its segment.** The areas, and every block that is ever
handed out, lie in the segment exactly when the segment has two pages and the metadata, with the
page list counted 24 times, end with the first of them. -/
theorem layout_fits_iff_metadata_in_page (hsize : size < 2 ^ 32) (hps : pageSize < 2 ^ 32)
    (hdata : data + size ≤ 2 ^ 64)
    (hinit : ktPageAllocatorInit pages mask data size pageSize = .ok al) :
    (LayoutFits data size al ∧ ∀ tr s, Run allocStep ⟨al, []⟩ tr s → ∀ g ∈ s.live,
      data ≤ g.ptr ∧ g.ptr + g.block.pages * al.pageSize ≤ data + size) ↔
      2 * pageSize ≤ size ∧ dataAt data (size / pageSize) pageSize ≤ data + pageSize := by
  rw [← layoutFits_iff hsize hps hdata hinit]
  refine ⟨And.left, fun hfits => ⟨hfits, fun tr s hrun g hg => ?_⟩⟩
  have htwo := ((layoutFits_iff hsize hps hdata hinit).mp hfits).1
  exact hfits.block_inside hdata (inv_run (fresh_of_init hsize htwo hinit) hrun) hg

/-- Four pages of 4096 bytes are a segment that fits. -/
theorem layout_fits_iff_metadata_in_page_four :
    ∃ al, ktPageAllocatorInit (fun _ => ⟨0, 0, 0, 0⟩) (fun _ => 0) (2 ^ 20) (2 ^ 14) 4096 = .ok al ∧
      LayoutFits (2 ^ 20) (2 ^ 14) al := by
  have hsize : sizePages (2 ^ 14) (2 ^ 14 / 4096) = some ⟨96, 4, 3⟩ :=
    (sizePages_of_fits (by decide +kernel) (by decide +kernel)).trans (by decide +kernel)
  obtain ⟨al, hinit⟩ : ∃ al,
      ktPageAllocatorInit (fun _ => ⟨0, 0, 0, 0⟩) (fun _ => 0) (2 ^ 20) (2 ^ 14) 4096 = .ok al :=
    ⟨_, ktPageAllocatorInit_eq_ok.mpr
      ⟨by decide +kernel, by decide +kernel, by decide, _, hsize, rfl⟩⟩
  have hiff := layout_fits_iff_metadata_in_page (by decide) (by decide) (by decide) hinit
  exact ⟨al, hinit, (hiff.mpr ⟨by decide, by decide +kernel⟩).1⟩

/-- The allocator that `ktsnd` sets up: 1 MiB, here at the address 1 MiB, with pages of 4096 bytes. -/
def daemonPages : KtPageAllocator where
  pageSize := 4096
  pageCount := 255
  pageFree := 255
  pageListAt := 1048616
  freePagesMaskAt := 1196072
  data := 1200128
  pageList := initPageList 4096 255 fun _ => ⟨0, 0, 0, 0⟩
  freePagesMask := fun i => if i < 255 then 1 else 0

theorem daemonPages_init :
    ktPageAllocatorInit (fun _ => ⟨0, 0, 0, 0⟩) (fun _ => 0) (2 ^ 20) (2 ^ 20) 4096 =
      .ok daemonPages := by
  have hsize : sizePages (2 ^ 20) (2 ^ 20 / 4096) = some ⟨6144, 256, 255⟩ :=
    (sizePages_of_fits (by decide +kernel) (by decide +kernel)).trans (by decide +kernel)
  refine ktPageAllocatorInit_eq_ok.mpr
    ⟨by decide +kernel, by decide +kernel, by decide, _, hsize, ?_⟩
  rw [initFreePagesMask_eq]
  rfl

/-- The data area of `ktsnd` ends 147456 bytes behind its segment, and a block of 220 pages that the
allocator hands out ends behind it too. -/
theorem layout_overruns_segment :
    ktPageAllocatorInit (fun _ => ⟨0, 0, 0, 0⟩) (fun _ => 0) (2 ^ 20) (2 ^ 20) 4096 =
        .ok daemonPages ∧
      ¬ LayoutFits (2 ^ 20) (2 ^ 20) daemonPages ∧
      daemonPages.data + daemonPages.pageCount * daemonPages.pageSize =
        2 ^ 20 + 2 ^ 20 + 147456 ∧
      ∃ ptr al, pageAllocAlloc daemonPages (220 * 4096) = some (some ptr, al) ∧
        2 ^ 20 + 2 ^ 20 < ptr + 220 * 4096 := by
  refine ⟨daemonPages_init, fun hfits => absurd hfits.inside (by decide), rfl, ?_⟩
  have hfresh := fresh_of_init (by decide) (by decide) daemonPages_init
  have hsome : ((pageAllocAlloc daemonPages (220 * 4096)).map fun r => r.1.isSome) = some true := by
    decide +kernel
  have halloc := pageAllocAlloc_holding hfresh .nil (show 1 ≤ 220 * 4096 by decide) (by decide)
  rw [hfresh.holding_nil] at halloc
  rcases halloc with ⟨-, hnone⟩ | ⟨b, -, hplaced, -, hblock⟩
  · rw [hnone] at hsome
    cases hsome
  · refine ⟨_, _, hblock, ?_⟩
    have hin : b.first + b.pages ≤ 255 := hplaced.inside b List.mem_cons_self
    have hptr : u64 (daemonPages.data + b.first * daemonPages.pageSize) = 1200128 + b.first * 4096 :=
      Nat.mod_eq_of_lt (show 1200128 + b.first * 4096 < 2 ^ 64 by omega)
    rw [hptr]
    omega

end KuberneTSN.Alloc
