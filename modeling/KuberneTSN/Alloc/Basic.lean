import Mathlib

/-!
# The page allocator of `kt_alloc.c`

Numbers are naturals; the arithmetic of `u32` and of addresses wraps explicitly (`u32`, `u64`). The
page list, the free mask and the data area are separate arrays here, so that a write to one never
changes another; where `kt_page_allocator_init` puts them in memory is recorded in the addresses
`pageListAt`, `freePagesMaskAt` and `data`. A `struct kt_page *` into the page list is its index.

Two routines need not return: `page_alloc_find_aligned_pages` searches for ever when it is asked for
no page at all (`none` for want of fuel), and a page size of `0` is a division by zero.
-/

namespace KuberneTSN.Alloc

/-- Arithmetic of `u32`. -/
def u32 (x : ℕ) : ℕ := x % 2 ^ 32

/-- `x - 1` in `u32`. -/
def u32Pred (x : ℕ) : ℕ := u32 (x + (2 ^ 32 - 1))

/-- Arithmetic of addresses. -/
def u64 (x : ℕ) : ℕ := x % 2 ^ 64

/-- Source: `kt_alloc.h` `struct kt_page`. -/
structure KtPage where
  next : ℕ
  free : ℕ
  offset : ℕ
  /-- Number of pages reserved starting from this page. -/
  reserved : ℕ
  deriving DecidableEq, Repr

/-- Source: `kt_alloc.h` `struct kt_page_allocator`, with the arrays that it points to. -/
@[ext]
structure KtPageAllocator where
  pageSize : ℕ
  pageCount : ℕ
  pageFree : ℕ
  pageListAt : ℕ
  freePagesMaskAt : ℕ
  data : ℕ
  pageList : ℕ → KtPage
  freePagesMask : ℕ → ℕ

/-! ## Set-up -/

/-- The ways in which `kt_page_allocator_init` does not return `0`. -/
inductive InitError where
  /-- `-1`: size and page size must be powers of 2. -/
  | notPowerOfTwo
  /-- `-1`: size is too small to fit the metadata. -/
  | tooSmall
  /-- `size / page_size` with a page size of `0`. -/
  | divisionByZero
  deriving DecidableEq, Repr

/-- `x & (x - 1)`. -/
def lowBitOff (x : ℕ) : ℕ := x &&& u32Pred x

/-- `total_metadata_size`, with `sizeof(struct kt_page_allocator) = 40` and
`sizeof(struct kt_page) = 24`. -/
def metadataSize (pageCount : ℕ) : ℕ := u32 (40 + u32 (pageCount * 24) + pageCount)

/-- The sizes that the sizing loop settles on. -/
structure Sizing where
  pageListSize : ℕ
  freePagesMaskSize : ℕ
  pageCount : ℕ
  deriving DecidableEq, Repr

/-- The `do … while (size < total_metadata_size)` loop; `none` when the page count reaches `0`. The
page count is lowered after the sizes are computed from it, and wraps if it was `0`. -/
def sizePages (size pageCount : ℕ) : Option Sizing :=
  if h : u32Pred pageCount = 0 then none
  else if size < metadataSize pageCount then sizePages size (u32Pred pageCount)
  else some ⟨u32 (pageCount * 24), pageCount, u32Pred pageCount⟩
termination_by if pageCount = 0 then 2 ^ 32 else pageCount
decreasing_by
  rw [if_neg h]
  simp only [u32Pred, u32]
  split_ifs <;> omega

/-- Round an address up to a multiple of the page size. -/
def alignUp (addr pageSize : ℕ) : ℕ := u64 (addr + pageSize - 1) / pageSize * pageSize

/-- The page list after the loop of `kt_page_allocator_init`, over memory that held `junk`. -/
def initPageList (pageSize pageCount : ℕ) (junk : ℕ → KtPage) : ℕ → KtPage :=
  let list := (List.range pageCount).foldl (fun list i =>
    Function.update list i ⟨i + 1, 1, u32 (i * pageSize), 0⟩) junk
  Function.update list (pageCount - 1) { list (pageCount - 1) with next := 0 }

/-- The free mask after the loop of `kt_page_allocator_init`. -/
def initFreePagesMask (pageCount : ℕ) (junk : ℕ → ℕ) : ℕ → ℕ :=
  (List.range pageCount).foldl (fun mask i => Function.update mask i 1) junk

/-- Source: `kt_alloc.c` `kt_page_allocator_init`. `pages` and `mask` are what the memory of the two
arrays held before. -/
def ktPageAllocatorInit (pages : ℕ → KtPage) (mask : ℕ → ℕ) (data size pageSize : ℕ) :
    Except InitError KtPageAllocator :=
  if lowBitOff size ≠ 0 ∨ lowBitOff pageSize ≠ 0 then .error .notPowerOfTwo
  else if pageSize = 0 then .error .divisionByZero
  else
    match sizePages size (size / pageSize) with
    | none => .error .tooSmall
    | some s =>
        let pageListOffset := u64 (data + 40)
        -- `page_list_size` is a number of bytes already
        let freePagesMaskOffset := u64 (pageListOffset + s.pageListSize * 24)
        let dataOffset := u64 (freePagesMaskOffset + s.freePagesMaskSize)
        .ok
          { pageSize := pageSize
            pageCount := s.pageCount
            pageFree := s.pageCount
            pageListAt := pageListOffset
            freePagesMaskAt := freePagesMaskOffset
            data := alignUp dataOffset pageSize
            pageList := initPageList pageSize s.pageCount pages
            freePagesMask := initFreePagesMask s.pageCount mask }

/-! ## Search -/

/-- `for (u32 i = start; i < alloc->page_count; i++)`, with `n` pages to go. -/
def searchPages (mask : ℕ → ℕ) : ℕ → ℕ → Option ℕ
  | 0, _ => none
  | n + 1, i => if mask i ≠ 0 then some i else searchPages mask n (i + 1)

/-- Source: `kt_alloc.c` `page_alloc_search_first_free_page_from`. -/
def pageAllocSearchFirstFreePageFrom (al : KtPageAllocator) (start : ℕ) : Option ℕ :=
  if start ≥ al.pageCount then none
  else searchPages al.freePagesMask (al.pageCount - start) start

/-- How the inner loop of the search for a run of free pages ends. -/
inductive Scan where
  /-- All pages of the run are free. -/
  | found
  /-- Page `k` is not free, or there is none. -/
  | blocked (k : ℕ)
  /-- The loop had nothing to check. -/
  | exhausted
  deriving DecidableEq, Repr

/-- `for (u32 page_found = 1; page_found < pages_needed; page_found++)`, from `pageFound` on, with
`n` pages to go. -/
def scanPages (al : KtPageAllocator) (index pagesNeeded : ℕ) : ℕ → ℕ → Scan
  | 0, _ => .exhausted
  | n + 1, pageFound =>
      let k := u32 (index + pageFound)
      if k < al.pageCount ∧ al.freePagesMask k ≠ 0 then
        if pageFound + 1 = pagesNeeded then .found
        else scanPages al index pagesNeeded n (pageFound + 1)
      else .blocked k

/-- The `while` loop of `page_alloc_find_aligned_pages`: `none` when it has not ended within the
fuel, `some none` for `NULL`. -/
def findPages (al : KtPageAllocator) (pagesNeeded : ℕ) : ℕ → ℕ → Option (Option ℕ)
  | 0, _ => none
  | fuel + 1, index =>
      match pageAllocSearchFirstFreePageFrom al index with
      | none => some none
      | some i =>
          if pagesNeeded = 1 then some (some i)
          else
            match scanPages al i pagesNeeded (pagesNeeded - 1) 1 with
            | .found => some (some i)
            | .blocked k => findPages al pagesNeeded fuel k
            | .exhausted => findPages al pagesNeeded fuel i

/-- Source: `kt_alloc.c` `page_alloc_find_aligned_pages`. Every pass of the loop but the last moves
the index on, unless no pages are asked for, so the fuel is enough. -/
def pageAllocFindAlignedPages (al : KtPageAllocator) (pagesNeeded : ℕ) : Option (Option ℕ) :=
  findPages al pagesNeeded (al.pageCount + 1) 0

/-! ## Allocation and release -/

/-- `pages_needed`. -/
def pagesNeeded (al : KtPageAllocator) (size : ℕ) : ℕ :=
  u32 (size / al.pageSize + if size % al.pageSize ≠ 0 then 1 else 0)

/-- `for (u32 i = 0; i < n; i++) { tmp->free = v; tmp = tmp->next; }`. -/
def markPages (v : ℕ) : ℕ → ℕ → (ℕ → KtPage) → ℕ → KtPage
  | 0, _, list => list
  | n + 1, tmp, list =>
      let list := Function.update list tmp { list tmp with free := v }
      markPages v n (list tmp).next list

/-- `for (u32 i = index; i < stop; i++) mask[i] = v`. -/
def markMask (v index stop : ℕ) (mask : ℕ → ℕ) : ℕ → ℕ :=
  (List.range' index (stop - index)).foldl (fun mask i => Function.update mask i v) mask

/-- Source: `kt_alloc.c` `page_alloc_alloc`. `none` when the call does not return; otherwise the
pointer, or `none` for `NULL`, and the allocator. -/
def pageAllocAlloc (al : KtPageAllocator) (size : ℕ) : Option (Option ℕ × KtPageAllocator) :=
  if al.pageSize = 0 then none
  else
    let need := pagesNeeded al size
    if al.pageFree < need then some (none, al)
    else
      match pageAllocFindAlignedPages al need with
      | none => none
      | some none => some (none, al)
      | some (some index) =>
          let list := Function.update al.pageList index { al.pageList index with reserved := need }
          let list := markPages 0 need index list
          let mask := markMask 0 index (u32 (index + need)) al.freePagesMask
          let al := { al with
            pageList := list
            freePagesMask := mask
            pageFree := u32 (al.pageFree + 2 ^ 32 - need) }
          some (some (u64 (al.data + (list index).offset)), al)

/-- `((u8 *)ptr - alloc->data) / alloc->page_size`, a signed division, as `u32`. -/
def pageIndex (al : KtPageAllocator) (ptr : ℕ) : ℕ :=
  ((((ptr : ℤ) - al.data).bmod (2 ^ 64)).tdiv al.pageSize % 2 ^ 32).toNat

/-- Source: `kt_alloc.c` `page_alloc_free`. -/
def pageAllocFree (al : KtPageAllocator) (ptr : ℕ) : KtPageAllocator :=
  let index := pageIndex al ptr
  if (al.pageList index).free ≠ 0 then al
  else
    let list := Function.update al.pageList index { al.pageList index with free := 1 }
    let reserved := (list index).reserved
    let list := markPages 1 reserved index list
    let mask := markMask 1 index (u32 (index + reserved)) al.freePagesMask
    { al with
      pageList := Function.update list index { list index with reserved := 0 }
      freePagesMask := mask
      pageFree := u32 (al.pageFree + reserved) }

end KuberneTSN.Alloc
