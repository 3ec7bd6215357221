import KuberneTSN.Alloc.Layout
import KuberneTSN.Ring.Memory

/-!
# The shared segment

`ktsnd` lays out the two rings and the two pools in one segment of 1 MiB, and leaves their offsets
in a second one. The preloaded library maps both, at addresses of its own, and computes its pointers
from the offsets. A process stores and loads through its own mapping; the bytes are those of the
segment.

* `alloc_packed` — while nothing is released, blocks are handed out one behind the other;
* `ktsndSetup_apart` — where the four areas end up, for the page sizes that Linux uses;
* `segment_shared` — so the processes share four separate arrays of bytes: whatever they store
  through their mappings is what all of them load.
-/

namespace KuberneTSN.Sched

open Lib KuberneTSN.Alloc KuberneTSN.Ring

/-! ## Blocks without gaps -/

/-- The blocks are the first `m` pages. -/
def Packed (m : ℕ) (live : List Block) : Prop := ∀ i, Covered live i ↔ i < m

theorem packed_nil : Packed 0 [] := by
  intro i
  simp [Covered]

/-- One block more, right behind the others. -/
theorem Packed.cons {m n : ℕ} {live : List Block} (h : Packed m live) :
    Packed (m + n) (⟨m, n⟩ :: live) := by
  intro i
  rw [covered_cons, h i]
  unfold Block.Has
  dsimp only
  omega

variable {al₀ : KtPageAllocator} {live : List Block} {m : ℕ}

/-- **While nothing is released, blocks are handed out one behind the other.** -/
theorem alloc_packed (hfresh : Fresh al₀) (hplaced : Placed al₀.pageCount live)
    (hpacked : Packed m live) (size : ℕ) (hsize : 1 ≤ size) (hlt : size < 2 ^ 32)
    (hroom : m + pagesNeeded al₀ size ≤ al₀.pageCount) :
    Placed al₀.pageCount (⟨m, pagesNeeded al₀ size⟩ :: live) ∧
      pageAllocAlloc (holding al₀ live) size =
        some (some (u64 (al₀.data + m * al₀.pageSize)),
          holding al₀ (⟨m, pagesNeeded al₀ size⟩ :: live)) := by
  have hpos := pagesNeeded_pos hfresh.pageSize_pos hsize hlt
  have hrun : FreeRun (holding al₀ live) m (pagesNeeded al₀ size) := by
    refine ⟨hroom, fun j hj => (hfresh.mask_holding_ne_zero (by omega)).mpr ?_⟩
    rw [hpacked]
    omega
  rcases pageAllocAlloc_holding hfresh hplaced hsize hlt with
    ⟨hnone, -⟩ | ⟨b, hpages, hplaced', ⟨-, ⟨hin, hfree⟩, hfirst⟩, halloc⟩
  · exact absurd hrun (hnone m)
  · have hin : b.first + pagesNeeded al₀ size ≤ al₀.pageCount := hin
    have hlow : m ≤ b.first := by
      have hmask := hfree 0 hpos
      rw [hfresh.mask_holding_ne_zero (by omega), hpacked] at hmask
      omega
    have hhigh : b.first ≤ m := by
      by_contra hlt'
      exact hfirst m (Nat.zero_le m) (not_le.mp hlt') hrun
    obtain rfl : b = ⟨m, pagesNeeded al₀ size⟩ := by
      obtain ⟨first, pages⟩ := b
      dsimp only at hlow hhigh hpages
      rw [hpages, le_antisymm hhigh hlow]
    exact ⟨hplaced', halloc⟩

/-! ## Set-up -/

/-- Source: `kt_memory.h` `struct kt_mem_layout`. -/
structure KtMemLayout where
  txRingOffset : ℕ
  freeRingOffset : ℕ
  mbufPoolOffset : ℕ
  metadataPoolOffset : ℕ
  deriving DecidableEq, Repr

/-- The pointers of a process to the two rings and the two pools. -/
structure Pointers where
  txRing : ℕ
  freeRing : ℕ
  mbufPool : ℕ
  metadataPool : ℕ
  deriving DecidableEq, Repr

/-- `KT_DEFAULT_MEMORY_SIZE`. -/
def ktDefaultMemorySize : ℕ := 1024 * 1024

/-- `(u8 *)ptr - (u8 *)memory->addr`, as a `size_t`. -/
def offsetFrom (base ptr : ℕ) : ℕ := u64 (ptr + (2 ^ 64 - base))

/-- The capacity of the free ring. -/
def poolCount : ℕ := 127

/-- Source: `ktsnd.c` `main`, lines 248–269, with the segment at address `base`. `pages` and `mask`
are what the segment held before. The answer of `kt_page_allocator_init` is not tested: if it
fails, the allocator divides by its page size, which is `0` in a new segment. A free ring that is
`NULL` is read for its capacity; the other pointers are used as they are. -/
def ktsndSetup (pages : ℕ → KtPage) (mask : ℕ → ℕ) (base pageSize : ℕ) :
    Option (Pointers × KtMemLayout) := do
  let al ← (ktPageAllocatorInit pages mask base ktDefaultMemorySize pageSize).toOption
  let (txRing, al) ← pageAllocAlloc al (qsize 128 1).toNat
  let (freeRing, al) ← pageAllocAlloc al (qsize 128 1).toNat
  let freeRing ← freeRing
  let (mbufPool, al) ← pageAllocAlloc al (2048 * poolCount)
  let (metadataPool, _) ← pageAllocAlloc al (48 * poolCount)
  let p : Pointers := ⟨txRing.getD 0, freeRing, mbufPool.getD 0, metadataPool.getD 0⟩
  some (p, ⟨offsetFrom base p.txRing, offsetFrom base p.freeRing, offsetFrom base p.mbufPool,
    offsetFrom base p.metadataPool⟩)

/-- Source: `libktsn.c` `__libc_start_main`, lines 597–602, with the segment at address `base`. -/
def attach (base : ℕ) (layout : KtMemLayout) : Pointers where
  txRing := u64 (base + layout.txRingOffset)
  freeRing := u64 (base + layout.freeRingOffset)
  mbufPool := u64 (base + layout.mbufPoolOffset)
  metadataPool := u64 (base + layout.metadataPoolOffset)

/-! ## The areas -/

/-- The two rings and the two pools. -/
inductive Area where
  | txRing
  | freeRing
  | mbufPool
  | metadataPool
  deriving DecidableEq, Repr

/-- The bytes of an area that are in use: a header and the slots that bursts reach, 127 buffers, or
as many records of metadata. -/
def Area.bytes : Area → ℕ
  | .txRing => slotRoom 128
  | .freeRing => slotRoom 128
  | .mbufPool => 2048 * poolCount
  | .metadataPool => 48 * poolCount

/-- Where a process finds an area. -/
def Pointers.area (p : Pointers) : Area → ℕ
  | .txRing => p.txRing
  | .freeRing => p.freeRing
  | .mbufPool => p.mbufPool
  | .metadataPool => p.metadataPool

/-- The offset of an area. -/
def KtMemLayout.area (l : KtMemLayout) : Area → ℕ
  | .txRing => l.txRingOffset
  | .freeRing => l.freeRingOffset
  | .mbufPool => l.mbufPoolOffset
  | .metadataPool => l.metadataPoolOffset

theorem area_attach (base : ℕ) (l : KtMemLayout) (x : Area) :
    (attach base l).area x = u64 (base + l.area x) := by
  cases x <;> rfl

/-- The areas follow each other in the segment, behind its first `tables` bytes. -/
structure KtMemLayout.Apart (tables : ℕ) (l : KtMemLayout) : Prop where
  txRing : tables ≤ l.txRingOffset
  freeRing : l.txRingOffset + Area.txRing.bytes ≤ l.freeRingOffset
  mbufPool : l.freeRingOffset + Area.freeRing.bytes ≤ l.mbufPoolOffset
  metadataPool : l.mbufPoolOffset + Area.mbufPool.bytes ≤ l.metadataPoolOffset
  inside : l.metadataPoolOffset + Area.metadataPool.bytes ≤ ktDefaultMemorySize

/-- The bytes before the data area, with `q` pages of which the allocator counts the list twice. -/
def tableBytes (q : ℕ) : ℕ := 40 + 577 * q

/-- What the page sizes from 4 KiB to 128 KiB have in common: a page has room for a ring, and the
tables, the rings and the pools have room in the segment. -/
theorem pageSize_facts {p : ℕ} (hlow : 12 ≤ p) (hhigh : p ≤ 17) :
    lowBitOff (2 ^ p) = 0 ∧ slotRoom 128 ≤ 2 ^ p ∧ 2 * 2 ^ p ≤ ktDefaultMemorySize ∧
      metadataSize (ktDefaultMemorySize / 2 ^ p) ≤ ktDefaultMemorySize ∧
      (2048 * poolCount) ⌈/⌉ 2 ^ p + (48 * poolCount) ⌈/⌉ 2 ^ p + 3 ≤
        ktDefaultMemorySize / 2 ^ p ∧
      (tableBytes (ktDefaultMemorySize / 2 ^ p) ⌈/⌉ 2 ^ p + (2048 * poolCount) ⌈/⌉ 2 ^ p +
        (48 * poolCount) ⌈/⌉ 2 ^ p + 2) * 2 ^ p ≤ ktDefaultMemorySize := by
  simp only [Nat.ceilDiv_eq_add_pred_div]
  interval_cases p <;> decide +kernel

/-- An address in the segment, as an offset and back. -/
theorem offsetFrom_add {base x : ℕ} (h : base + x < 2 ^ 64) :
    u64 (base + x) = base + x ∧ offsetFrom base (base + x) = x := by
  refine ⟨Nat.mod_eq_of_lt h, ?_⟩
  have hsum : base + x + (2 ^ 64 - base) = x + 2 ^ 64 := by omega
  rw [offsetFrom, hsum, u64, Nat.add_mod_right]
  exact Nat.mod_eq_of_lt (by omega)

/-- The data area of the allocator, with a segment that begins at a page. -/
theorem dataAt_of_aligned {base q pageSize : ℕ} (hpos : 0 < pageSize) (hbase : base % pageSize = 0) :
    dataAt base q pageSize = base + tableBytes q ⌈/⌉ pageSize * pageSize := by
  obtain ⟨b, rfl⟩ := Nat.dvd_of_mod_eq_zero hbase
  have hsum : pageSize * b + 40 + 577 * q + pageSize - 1 =
      pageSize * b + (tableBytes q + pageSize - 1) := by
    unfold tableBytes
    omega
  rw [dataAt, Nat.ceilDiv_eq_add_pred_div, Nat.ceilDiv_eq_add_pred_div, hsum,
    Nat.mul_add_div hpos, Nat.add_mul, Nat.mul_comm b]

/-- The allocator that `ktsnd` makes. -/
theorem exists_init {p base : ℕ} (pages : ℕ → KtPage) (mask : ℕ → ℕ) (hlow : 12 ≤ p) (hhigh : p ≤ 17)
    (hbase : base % 2 ^ p = 0) (hend : base + ktDefaultMemorySize ≤ 2 ^ 64) :
    ∃ al, ktPageAllocatorInit pages mask base ktDefaultMemorySize (2 ^ p) = .ok al ∧ Fresh al ∧
      al.pageSize = 2 ^ p ∧ al.pageCount = ktDefaultMemorySize / 2 ^ p - 1 ∧
      al.data = base + tableBytes (ktDefaultMemorySize / 2 ^ p) ⌈/⌉ 2 ^ p * 2 ^ p := by
  obtain ⟨hpow, -, htwo, hmeta, hcount, hfits⟩ := pageSize_facts hlow hhigh
  have hpos : 0 < 2 ^ p := Nat.two_pow_pos p
  have hsize : ktDefaultMemorySize = 2 ^ 20 := rfl
  have hle : ktDefaultMemorySize / 2 ^ p ≤ ktDefaultMemorySize := Nat.div_le_self _ _
  have hne : u32Pred (ktDefaultMemorySize / 2 ^ p) = ktDefaultMemorySize / 2 ^ p - 1 :=
    u32Pred_of_pos (by omega) (by omega)
  have hinit : ∃ al, ktPageAllocatorInit pages mask base ktDefaultMemorySize (2 ^ p) = .ok al :=
    ⟨_, ktPageAllocatorInit_eq_ok.mpr
      ⟨by decide +kernel, hpow, hpos, _, sizePages_of_fits (by omega) hmeta, rfl⟩⟩
  obtain ⟨al, hinit⟩ := hinit
  have hsized := sizedFor_of_fits hinit (by omega) hmeta
  have hroom : base + 40 + 577 * (ktDefaultMemorySize / 2 ^ p) + 2 ^ p ≤ 2 ^ 64 := by
    have hceil : tableBytes (ktDefaultMemorySize / 2 ^ p) ≤
        tableBytes (ktDefaultMemorySize / 2 ^ p) ⌈/⌉ 2 ^ p * 2 ^ p :=
      (le_smul_ceilDiv hpos).trans_eq (Nat.mul_comm _ _)
    rw [Nat.add_mul, Nat.add_mul, Nat.add_mul] at hfits
    unfold tableBytes at hceil hfits
    omega
  obtain ⟨-, -, hdata⟩ := hsized.addresses (by omega) hroom
  refine ⟨al, hinit, fresh_of_init (by decide) htwo hinit, hsized.pageSize,
    hsized.pageCount.trans hne, hdata.trans (dataAt_of_aligned hpos hbase)⟩

/-- The four allocations of the set-up, where a page has room for a ring. -/
theorem setup_allocs {al : KtPageAllocator} (hfresh : Fresh al)
    (hone : pagesNeeded al (qsize 128 1).toNat = 1)
    (hroom : pagesNeeded al (2048 * poolCount) + pagesNeeded al (48 * poolCount) + 2 ≤ al.pageCount) :
    ∃ al₁ al₂ al₃ al₄,
      pageAllocAlloc al (qsize 128 1).toNat = some (some (u64 (al.data + 0 * al.pageSize)), al₁) ∧
      pageAllocAlloc al₁ (qsize 128 1).toNat = some (some (u64 (al.data + 1 * al.pageSize)), al₂) ∧
      pageAllocAlloc al₂ (2048 * poolCount) = some (some (u64 (al.data + 2 * al.pageSize)), al₃) ∧
      pageAllocAlloc al₃ (48 * poolCount) =
        some (some (u64 (al.data + (2 + pagesNeeded al (2048 * poolCount)) * al.pageSize)), al₄) := by
  obtain ⟨hplaced₁, htx⟩ := alloc_packed hfresh .nil packed_nil (qsize 128 1).toNat
    (by decide) (by decide) (by omega)
  rw [hone] at hplaced₁ htx
  obtain ⟨hplaced₂, hfree⟩ := alloc_packed hfresh hplaced₁ packed_nil.cons (qsize 128 1).toNat
    (by decide) (by decide) (by omega)
  rw [hone] at hplaced₂ hfree
  obtain ⟨hplaced₃, hmbuf⟩ := alloc_packed hfresh hplaced₂ packed_nil.cons.cons (2048 * poolCount)
    (by decide) (by decide) (by omega)
  obtain ⟨-, hmetadata⟩ := alloc_packed hfresh hplaced₃ packed_nil.cons.cons.cons (48 * poolCount)
    (by decide) (by decide) (by omega)
  rw [hfresh.holding_nil] at htx
  exact ⟨_, _, _, _, htx, hfree, hmbuf, hmetadata⟩

/-- A number rounded up to pages. -/
theorem le_ceilDiv_mul {x pageSize : ℕ} (hpos : 0 < pageSize) : x ≤ x ⌈/⌉ pageSize * pageSize :=
  (le_smul_ceilDiv hpos).trans_eq (Nat.mul_comm _ _)

/-- **Where the rings and the pools are.** With pages from 4 KiB to 128 KiB the set-up succeeds,
the four areas follow each other in the segment, behind the tables of the allocator, and the daemon
has the pointers that it would get from its own offsets. -/
theorem ktsndSetup_apart {p base : ℕ} (pages : ℕ → KtPage) (mask : ℕ → ℕ) (hlow : 12 ≤ p)
    (hhigh : p ≤ 17) (hbase : base % 2 ^ p = 0) (hend : base + ktDefaultMemorySize ≤ 2 ^ 64) :
    ∃ l : KtMemLayout, ktsndSetup pages mask base (2 ^ p) = some (attach base l, l) ∧
      l.Apart (tableBytes (ktDefaultMemorySize / 2 ^ p)) := by
  obtain ⟨al, hinit, hfresh, hps, hpc, hdata⟩ := exists_init pages mask hlow hhigh hbase hend
  obtain ⟨-, hring, -, -, hcount, hfits⟩ := pageSize_facts hlow hhigh
  have hpos : 0 < 2 ^ p := Nat.two_pow_pos p
  have hneed : ∀ size < 2 ^ 32, pagesNeeded al size = size ⌈/⌉ 2 ^ p := by
    intro size hsize
    rw [pagesNeeded_eq_ceilDiv (hps ▸ hpos) hsize, hps]
  have hone : pagesNeeded al (qsize 128 1).toNat = 1 := by
    have hlt : (qsize 128 1).toNat < 2 ^ p := lt_of_lt_of_le (by decide) hring
    have hsize : 1 ≤ (qsize 128 1).toNat := by decide
    rw [hneed _ (by decide), Nat.ceilDiv_eq_add_pred_div]
    exact Nat.div_eq_of_lt_le (by omega) (by omega)
  have hmbufs := hneed (2048 * poolCount) (by decide)
  have hmeta := hneed (48 * poolCount) (by decide)
  obtain ⟨al₁, al₂, al₃, al₄, htx, hfree, hmbuf, hmetadata⟩ := setup_allocs hfresh hone (by omega)
  rw [hmbufs] at hmetadata
  have hroom₁ : 2048 * poolCount ≤ (2048 * poolCount) ⌈/⌉ 2 ^ p * 2 ^ p := le_ceilDiv_mul hpos
  have hroom₂ : 48 * poolCount ≤ (48 * poolCount) ⌈/⌉ 2 ^ p * 2 ^ p := le_ceilDiv_mul hpos
  have htables : tableBytes (ktDefaultMemorySize / 2 ^ p) ≤
      tableBytes (ktDefaultMemorySize / 2 ^ p) ⌈/⌉ 2 ^ p * 2 ^ p := le_ceilDiv_mul hpos
  rw [Nat.add_mul, Nat.add_mul, Nat.add_mul] at hfits
  generalize tableBytes (ktDefaultMemorySize / 2 ^ p) ⌈/⌉ 2 ^ p * 2 ^ p = D at *
  generalize (2048 * poolCount) ⌈/⌉ 2 ^ p = nm at *
  have hptr : ∀ m x, D + m * 2 ^ p = x → base + x < 2 ^ 64 →
      u64 (al.data + m * al.pageSize) = u64 (base + x) ∧ offsetFrom base (u64 (base + x)) = x := by
    rintro m x rfl hlt
    obtain ⟨haddr, hoffset⟩ := offsetFrom_add hlt
    exact ⟨by rw [hdata, hps, Nat.add_assoc], by rw [haddr, hoffset]⟩
  have hpool : 0 < 48 * poolCount := by decide
  obtain ⟨htx₁, htx₂⟩ := hptr 0 D (by omega) (by omega)
  obtain ⟨hfree₁, hfree₂⟩ := hptr 1 (D + 2 ^ p) (by omega) (by omega)
  obtain ⟨hmbuf₁, hmbuf₂⟩ := hptr 2 (D + 2 * 2 ^ p) (by omega) (by omega)
  obtain ⟨hmeta₁, hmeta₂⟩ := hptr (2 + nm) (D + 2 * 2 ^ p + nm * 2 ^ p)
    (by rw [Nat.add_mul]; omega) (by omega)
  refine ⟨⟨D, D + 2 ^ p, D + 2 * 2 ^ p, D + 2 * 2 ^ p + nm * 2 ^ p⟩, ?_, ?_⟩
  · simp only [ktsndSetup, hinit, Except.toOption, Option.bind_eq_bind, Option.bind_some, htx, hfree,
      hmbuf, hmetadata, Option.getD_some, htx₁, hfree₁, hmbuf₁, hmeta₁, htx₂, hfree₂, hmbuf₂, hmeta₂]
    rfl
  · refine ⟨htables, ?_, ?_, ?_, ?_⟩ <;> simp only [Area.bytes] <;> omega

/-! ## Stores and loads through a mapping -/

/-- The bytes of the segment. -/
abbrev Segment : Type := ℕ → UInt8

/-- A load of a process that has mapped the segment at `base`. -/
def Segment.load (mem : Segment) (base addr : ℕ) : Option UInt8 :=
  if base ≤ addr ∧ addr < base + ktDefaultMemorySize then some (mem (addr - base)) else none

/-- A store of a process that has mapped the segment at `base`. -/
def Segment.store (mem : Segment) (base addr : ℕ) (v : UInt8) : Option Segment :=
  if base ≤ addr ∧ addr < base + ktDefaultMemorySize then
    some (Function.update mem (addr - base) v)
  else none

/-- Process `c` stores `v` at byte `j` of an area. -/
structure Store (ι : Type) where
  c : ι
  area : Area
  j : ℕ
  v : UInt8

variable {ι : Type}

/-- The processes store through their mappings, at the addresses that they have computed. -/
def segmentStep (bases : ι → ℕ) (l : KtMemLayout) (mem : Segment) (w : Store ι) : Option Segment :=
  mem.store (bases w.c) ((attach (bases w.c) l).area w.area + w.j) w.v

/-- The same on four separate arrays. -/
def areaStep (mem : Area → ℕ → UInt8) (w : Store ι) : Option (Area → ℕ → UInt8) :=
  some (Function.update mem w.area (Function.update (mem w.area) w.j w.v))

/-- The four arrays that a segment holds. -/
def KtMemLayout.arrays (l : KtMemLayout) (mem : Segment) (x : Area) (j : ℕ) : UInt8 :=
  mem (l.area x + j)

variable {l : KtMemLayout} {tables base : ℕ} {x y : Area} {i j : ℕ}

/-- An area lies behind the tables and inside the segment. -/
theorem KtMemLayout.Apart.area_inside (h : l.Apart tables) (x : Area) :
    tables ≤ l.area x ∧ l.area x + x.bytes ≤ ktDefaultMemorySize := by
  obtain ⟨h₁, h₂, h₃, h₄, h₅⟩ := h
  cases x <;> simp only [KtMemLayout.area] <;> omega

/-- Different bytes of the areas have different offsets. -/
theorem KtMemLayout.Apart.offset_inj (h : l.Apart tables) (hi : i < x.bytes) (hj : j < y.bytes)
    (heq : l.area x + i = l.area y + j) : x = y ∧ i = j := by
  obtain ⟨h₁, h₂, h₃, h₄, h₅⟩ := h
  cases x <;> cases y <;> simp only [KtMemLayout.area, reduceCtorEq, false_and, true_and] at heq ⊢ <;>
    omega

/-- Where a process finds a byte. -/
theorem KtMemLayout.Apart.address (h : l.Apart tables) (hbase : base + ktDefaultMemorySize ≤ 2 ^ 64)
    (hj : j < x.bytes) :
    (attach base l).area x + j = base + (l.area x + j) ∧ l.area x + j < ktDefaultMemorySize := by
  have hin := (h.area_inside x).2
  rw [area_attach, u64, Nat.mod_eq_of_lt (by omega)]
  omega

variable {bases : ι → ℕ} {mem mem' : Segment} {arrays : Area → ℕ → UInt8} {w : Store ι}

/-- A store through any mapping does not fault, and changes the byte that it is meant for. -/
theorem KtMemLayout.Apart.store (h : l.Apart tables)
    (hbase : bases w.c + ktDefaultMemorySize ≤ 2 ^ 64) (hw : w.j < w.area.bytes) (mem : Segment) :
    segmentStep bases l mem w = some (Function.update mem (l.area w.area + w.j) w.v) := by
  obtain ⟨haddr, hin⟩ := h.address hbase hw
  rw [segmentStep, Segment.store, haddr, if_pos (by omega), Nat.add_sub_cancel_left]

/-- A load through any mapping does not fault, and finds the byte that it is meant for. -/
theorem KtMemLayout.Apart.load (h : l.Apart tables) (hbase : base + ktDefaultMemorySize ≤ 2 ^ 64)
    (hj : j < x.bytes) (mem : Segment) :
    mem.load base ((attach base l).area x + j) = some (mem (l.area x + j)) := by
  obtain ⟨haddr, hin⟩ := h.address hbase hj
  rw [Segment.load, haddr, if_pos (by omega), Nat.add_sub_cancel_left]

/-- The store is inside its area. -/
def Inside (_ : Segment) (w : Store ι) : Prop := w.j < w.area.bytes

/-- The segment holds the four arrays. -/
def Holds (l : KtMemLayout) (mem : Segment) (arrays : Area → ℕ → UInt8) : Prop :=
  ∀ x j, j < x.bytes → mem (l.area x + j) = arrays x j

/-- **One store** through a mapping is a store in one of the arrays. -/
theorem Holds.store (h : l.Apart tables) (hbase : bases w.c + ktDefaultMemorySize ≤ 2 ^ 64)
    (hholds : Holds l mem arrays) (hw : Inside mem w)
    (hs : segmentStep bases l mem w = some mem') :
    ∃ arrays', areaStep arrays w = some arrays' ∧ Holds l mem' arrays' := by
  rw [h.store hbase hw] at hs
  cases hs
  refine ⟨_, rfl, fun x j hj => ?_⟩
  by_cases hsame : l.area x + j = l.area w.area + w.j
  · obtain ⟨rfl, rfl⟩ := h.offset_inj hj hw hsame
    rw [Function.update_self, Function.update_self, Function.update_self]
  · rw [Function.update_of_ne hsame, hholds x j hj]
    by_cases harea : x = w.area
    · subst harea
      have hne : j ≠ w.j := fun heq => hsame (heq ▸ rfl)
      rw [Function.update_self, Function.update_of_ne hne]
    · rw [Function.update_of_ne harea]

/-- **The processes share four arrays.** With pages from 4 KiB to 128 KiB, and with the segment
mapped at any addresses, the set-up of `ktsnd` succeeds and gives the daemon the pointers that its
own offsets lead to; the four areas lie behind the tables of the allocator; no store and no load
inside an area faults; and whatever the processes store there, each through its own mapping and in
any order, is stored in four separate arrays, and every process loads what these hold. -/
theorem segment_shared {p base : ℕ} (pages : ℕ → KtPage) (mask : ℕ → ℕ) (hlow : 12 ≤ p)
    (hhigh : p ≤ 17) (hbase : base % 2 ^ p = 0) (hend : base + ktDefaultMemorySize ≤ 2 ^ 64)
    (bases : ι → ℕ) (hbases : ∀ c, bases c + ktDefaultMemorySize ≤ 2 ^ 64) :
    ∃ l, ktsndSetup pages mask base (2 ^ p) = some (attach base l, l) ∧
      (∀ x, tableBytes (ktDefaultMemorySize / 2 ^ p) ≤ l.area x) ∧
      (∀ mem (w : Store ι), Inside mem w → (segmentStep bases l mem w).isSome) ∧
      ∀ mem tr mem', Run (segmentStep bases l) mem tr mem' → (∀ q ∈ tr, Inside q.1 q.2) →
        ∃ tr' arrays, Run areaStep (l.arrays mem) tr' arrays ∧
          tr'.map Prod.snd = tr.map Prod.snd ∧
          ∀ c x j, j < x.bytes →
            mem'.load (bases c) ((attach (bases c) l).area x + j) = some (arrays x j) := by
  obtain ⟨l, hsetup, hapart⟩ := ktsndSetup_apart pages mask hlow hhigh hbase hend
  refine ⟨l, hsetup, fun x => (hapart.area_inside x).1, fun mem w hw => ?_, ?_⟩
  · rw [hapart.store (hbases w.c) hw]
    rfl
  · intro mem tr mem' hrun hinside
    have hstart : Holds l mem (l.arrays mem) := fun _ _ _ => rfl
    have hstep : ∀ mem (w : Store ι) mem' arrays, Holds l mem arrays → Inside mem w →
        segmentStep bases l mem w = some mem' →
        ∃ arrays', areaStep arrays w = some arrays' ∧ Holds l mem' arrays' :=
      fun _ w _ _ hholds hw hs => hholds.store hapart (hbases w.c) hw hs
    obtain ⟨tr', arrays, hrun', hsame, hholds⟩ := hrun.simulation hstart hstep hinside
    refine ⟨tr', arrays, hrun', hsame, fun c x j hj => ?_⟩
    rw [hapart.load (hbases c) hj, hholds x j hj]

/-- The daemon and one client, at two addresses: the client loads the byte that the daemon has
stored in the metadata of buffer 3. -/
theorem segment_shared_two :
    ∃ l mem' tr, ktsndSetup (fun _ => ⟨0, 0, 0, 0⟩) (fun _ => 0) (2 ^ 20) (2 ^ 12) =
        some (attach (2 ^ 20) l, l) ∧
      Run (segmentStep (fun c : Bool => if c then 2 ^ 20 else 2 ^ 32) l) (fun _ => 0) tr mem' ∧
      mem'.load (2 ^ 32) ((attach (2 ^ 32) l).area .metadataPool + 144) = some 7 := by
  obtain ⟨l, hsetup, -, hstore, hshared⟩ := segment_shared (fun _ => ⟨0, 0, 0, 0⟩) (fun _ => 0)
    (show 12 ≤ 12 by decide) (by decide) (show 2 ^ 20 % 2 ^ 12 = 0 by decide) (by decide)
    (fun c : Bool => if c then 2 ^ 20 else 2 ^ 32) (by decide)
  let w : Store Bool := ⟨true, .metadataPool, 144, 7⟩
  obtain ⟨mem', hs⟩ := Option.isSome_iff_exists.mp
    (hstore (fun _ => 0) w (show 144 < 48 * poolCount by decide))
  have hrun := Run.one hs
  obtain ⟨tr', arrays, hrun', hacts, hload⟩ := hshared _ _ _ hrun fun q hq => by
    rw [List.mem_singleton] at hq
    rw [hq]
    exact show 144 < 48 * poolCount by decide
  refine ⟨l, mem', _, hsetup, hrun, (hload false .metadataPool 144 (by decide)).trans ?_⟩
  obtain ⟨q, rfl, hq⟩ := List.map_eq_singleton_iff.mp hacts
  have hone : Run areaStep (l.arrays fun _ => 0) ([] ++ [q]) arrays := hrun'
  obtain ⟨-, hlast⟩ := hone.last
  rw [hq] at hlast
  cases hlast
  rfl

end KuberneTSN.Sched
