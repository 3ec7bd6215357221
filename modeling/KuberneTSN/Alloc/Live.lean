import KuberneTSN.Alloc.Holding
import KuberneTSN.Lib.Run

/-!
# The page allocator is determined by its live blocks

Runs of `page_alloc_alloc` and `page_alloc_free`, with the blocks handed out and not yet given back
kept beside the allocator.

* `inv_run` — every reachable state is the one that holds its live blocks;
* `allocator_determined_by_live` — so the four records of the allocator agree with each other in
  every reachable state, and the state does not depend on the order of the past calls.
-/

namespace KuberneTSN.Alloc

open Lib

/-- A block that was handed out: its address and its pages. -/
structure Grant where
  ptr : ℕ
  block : Block
  deriving DecidableEq, Repr

/-- The allocator and the blocks that are live. -/
structure Session where
  al : KtPageAllocator
  live : List Grant

/-- The calls of a run. -/
inductive AllocOp where
  | alloc (size : ℕ)
  | free (ptr : ℕ)
  deriving DecidableEq, Repr

/-- One call: an allocation of at least one byte, or the release of a live block. -/
def allocStep (s : Session) : AllocOp → Option Session
  | .alloc size =>
      if 1 ≤ size ∧ size < 2 ^ 32 then
        match pageAllocAlloc s.al size with
        | none => none
        | some (none, al) => some { s with al := al }
        | some (some ptr, al) =>
            some ⟨al, ⟨ptr, ⟨pageIndex al ptr, pagesNeeded s.al size⟩⟩ :: s.live⟩
      else none
  | .free ptr =>
      match s.live.find? fun g => g.ptr = ptr with
      | none => none
      | some g => some ⟨pageAllocFree s.al ptr, s.live.erase g⟩

variable {al₀ : KtPageAllocator} {s s' : Session} {tr : List (Session × AllocOp)}

/-- The allocator holds the live blocks, and each of these has its address. -/
structure Inv (al₀ : KtPageAllocator) (s : Session) : Prop where
  al : s.al = holding al₀ (s.live.map Grant.block)
  placed : Placed al₀.pageCount (s.live.map Grant.block)
  ptr : ∀ g ∈ s.live, g.ptr = u64 (al₀.data + g.block.first * al₀.pageSize)

/-- An allocation keeps the invariant, and always returns. -/
theorem inv_alloc (hfresh : Fresh al₀) (h : Inv al₀ s) {size : ℕ} (hsize : 1 ≤ size)
    (hlt : size < 2 ^ 32) : ∃ s', allocStep s (.alloc size) = some s' ∧ Inv al₀ s' := by
  obtain ⟨al, live⟩ := s
  obtain ⟨hal, hplaced, hptr⟩ := h
  dsimp only at hal hplaced hptr
  subst hal
  simp only [allocStep, if_pos (And.intro hsize hlt)]
  rcases pageAllocAlloc_holding hfresh hplaced hsize hlt with
    ⟨-, hnone⟩ | ⟨b, hpages, hplaced', -, hsome⟩
  · rw [hnone]
    exact ⟨_, rfl, rfl, hplaced, hptr⟩
  · have hin := hplaced'.inside b List.mem_cons_self
    rw [hsome]
    dsimp only
    rw [hfresh.pageIndex_holding _ (show b.first ≤ al₀.pageCount by omega)]
    have hblock : (⟨b.first, pagesNeeded (holding al₀ (live.map Grant.block)) size⟩ : Block) = b := by
      rw [← show b.pages = pagesNeeded (holding al₀ (live.map Grant.block)) size from hpages]
    rw [hblock]
    exact ⟨_, rfl, rfl, hplaced', List.forall_mem_cons.mpr ⟨rfl, hptr⟩⟩

/-- A live block, put before the others. -/
theorem perm_block_erase {live : List Grant} {g : Grant} (hg : g ∈ live) :
    (live.map Grant.block).Perm (g.block :: (live.erase g).map Grant.block) :=
  (List.perm_cons_erase hg).map Grant.block

/-- A release keeps the invariant. -/
theorem inv_free (hfresh : Fresh al₀) (h : Inv al₀ s) {g : Grant} (hg : g ∈ s.live) :
    Inv al₀ ⟨pageAllocFree s.al g.ptr, s.live.erase g⟩ := by
  have hperm := perm_block_erase hg
  have hplaced := h.placed.perm hperm
  refine ⟨?_, hplaced.tail, fun g' hg' => h.ptr g' (List.mem_of_mem_erase hg')⟩
  rw [h.ptr g hg, h.al, holding_perm hperm]
  exact pageAllocFree_holding hfresh hplaced

/-- Every call keeps the invariant. -/
theorem inv_step (hfresh : Fresh al₀) (s : Session) (op : AllocOp) (s' : Session) (h : Inv al₀ s)
    (hstep : allocStep s op = some s') : Inv al₀ s' := by
  cases op with
  | alloc size =>
      by_cases hsize : 1 ≤ size ∧ size < 2 ^ 32
      · obtain ⟨s₁, hs₁, hinv⟩ := inv_alloc hfresh h hsize.1 hsize.2
        rw [hs₁] at hstep
        cases hstep
        exact hinv
      · rw [allocStep, if_neg hsize] at hstep
        cases hstep
  | free ptr =>
      rw [allocStep] at hstep
      cases hfind : s.live.find? fun g => g.ptr = ptr with
      | none =>
          rw [hfind] at hstep
          cases hstep
      | some g =>
          rw [hfind] at hstep
          cases hstep
          have hptr := List.find?_some hfind
          obtain rfl : g.ptr = ptr := of_decide_eq_true hptr
          exact inv_free hfresh h (List.mem_of_find?_eq_some hfind)

/-- **Every reachable state holds its live blocks.** -/
theorem inv_run (hfresh : Fresh al₀) (hrun : Run allocStep ⟨al₀, []⟩ tr s) : Inv al₀ s := by
  refine hrun.always ⟨?_, .nil, fun _ hg => absurd hg List.not_mem_nil⟩ (inv_step hfresh)
  exact hfresh.holding_nil.symm

/-- The records of the allocator agree with the live blocks, and so with each other. -/
structure Agrees (s : Session) : Prop where
  pos : ∀ g ∈ s.live, 0 < g.block.pages
  apart : s.live.Pairwise fun g g' => g.block.Apart g'.block
  inside : ∀ g ∈ s.live, g.block.first + g.block.pages ≤ s.al.pageCount
  index : ∀ g ∈ s.live, pageIndex s.al g.ptr = g.block.first
  reserved : ∀ g ∈ s.live, (s.al.pageList g.block.first).reserved = g.block.pages
  mask_eq_zero : ∀ i < s.al.pageCount,
    s.al.freePagesMask i = 0 ↔ ∃ g ∈ s.live, g.block.Has i
  free_eq_zero : ∀ i < s.al.pageCount,
    (s.al.pageList i).free = 0 ↔ ∃ g ∈ s.live, g.block.Has i
  reserved_ne_zero : ∀ i < s.al.pageCount,
    (s.al.pageList i).reserved ≠ 0 ↔ ∃ g ∈ s.live, g.block.first = i
  pageFree : s.al.pageFree =
    ((Finset.range s.al.pageCount).filter fun i => s.al.freePagesMask i = 1).card

/-- The pages covered by the live blocks. -/
theorem covered_live {live : List Grant} {i : ℕ} :
    Covered (live.map Grant.block) i ↔ ∃ g ∈ live, g.block.Has i := by
  simp [Covered]

/-- A state that holds its live blocks agrees with them. -/
theorem Inv.agrees (hfresh : Fresh al₀) (h : Inv al₀ s) : Agrees s := by
  obtain ⟨al, live⟩ := s
  obtain ⟨hal, hplaced, hptr⟩ := h
  dsimp only at hal hplaced hptr
  subst hal
  have hmem : ∀ g ∈ live, g.block ∈ live.map Grant.block := fun g hg => List.mem_map_of_mem hg
  refine ⟨fun g hg => hplaced.pos _ (hmem g hg), List.pairwise_map.mp hplaced.apart,
    fun g hg => hplaced.inside _ (hmem g hg), ?_, ?_, ?_, ?_, ?_, ?_⟩
  · intro g hg
    have hin := hplaced.inside _ (hmem g hg)
    dsimp only
    rw [hptr g hg]
    exact hfresh.pageIndex_holding _ (by omega)
  · intro g hg
    have hin := hplaced.inside _ (hmem g hg)
    have hpos := hplaced.pos _ (hmem g hg)
    dsimp only [holding]
    rw [hplaced.reservedAt_first (hmem g hg), hfresh.page _ (by omega), zero_add]
  · intro i hi
    dsimp only [holding] at hi ⊢
    rw [hfresh.mask i hi, ← covered_live]
    simp
  · intro i hi
    dsimp only [holding] at hi ⊢
    rw [hfresh.page i hi, ← covered_live]
    simp
  · intro i hi
    dsimp only [holding] at hi ⊢
    rw [hfresh.page i hi, zero_add, hplaced.reservedAt_ne_zero]
    simp
  · dsimp only [holding]
    unfold freePages
    congr 1
    refine Finset.filter_congr fun i hi => ?_
    rw [hfresh.mask i (Finset.mem_range.mp hi)]
    simp

/-- States that hold the same blocks are equal. -/
theorem Inv.al_eq (h : Inv al₀ s) (h' : Inv al₀ s')
    (hsame : ∀ b, b ∈ s.live.map Grant.block ↔ b ∈ s'.live.map Grant.block) : s.al = s'.al := by
  have hperm := (List.perm_ext_iff_of_nodup h.placed.nodup h'.placed.nodup).mpr hsame
  rw [h.al, h'.al, holding_perm hperm]

/-- A second release of a block changes nothing. -/
theorem Inv.free_free (hfresh : Fresh al₀) (h : Inv al₀ s) {g : Grant} (hg : g ∈ s.live) :
    pageAllocFree (pageAllocFree s.al g.ptr) g.ptr = pageAllocFree s.al g.ptr := by
  have hplaced := h.placed.perm (perm_block_erase hg)
  have hpos := hplaced.pos _ List.mem_cons_self
  have hin := hplaced.inside _ List.mem_cons_self
  have hfreed := (inv_free hfresh h hg).al
  dsimp only at hfreed
  rw [hfreed, h.ptr g hg]
  exact pageAllocFree_of_not_covered hfresh (by omega)
    (hplaced.not_covered_tail ⟨le_rfl, by omega⟩)

/-- **The state of the page allocator is determined by its live blocks.** In every reachable state
the records agree with the live blocks, an allocation returns, and a second release changes
nothing; states with the same live blocks are equal, and with none the state is the initial one. -/
theorem allocator_determined_by_live {pages : ℕ → KtPage} {mask : ℕ → ℕ} {data size pageSize : ℕ}
    (hsize : size < 2 ^ 32) (htwo : 2 * pageSize ≤ size)
    (hinit : ktPageAllocatorInit pages mask data size pageSize = .ok al₀) :
    (∀ tr s, Run allocStep ⟨al₀, []⟩ tr s →
      Agrees s ∧ (∀ n, 1 ≤ n → n < 2 ^ 32 → (pageAllocAlloc s.al n).isSome) ∧
        (s.live = [] → s.al = al₀) ∧
        ∀ g ∈ s.live, pageAllocFree (pageAllocFree s.al g.ptr) g.ptr = pageAllocFree s.al g.ptr) ∧
    ∀ tr s tr' s', Run allocStep ⟨al₀, []⟩ tr s → Run allocStep ⟨al₀, []⟩ tr' s' →
      (∀ b, b ∈ s.live.map Grant.block ↔ b ∈ s'.live.map Grant.block) → s.al = s'.al := by
  have hfresh := fresh_of_init hsize htwo hinit
  refine ⟨?_, fun tr s tr' s' hrun hrun' => (inv_run hfresh hrun).al_eq (inv_run hfresh hrun')⟩
  intro tr s hrun
  have hinv := inv_run hfresh hrun
  refine ⟨hinv.agrees hfresh, ?_, ?_, fun g hg => hinv.free_free hfresh hg⟩
  · intro n hn hlt
    rw [hinv.al]
    rcases pageAllocAlloc_holding hfresh hinv.placed hn hlt with ⟨-, h⟩ | ⟨b, -, -, -, h⟩
    · rw [h]
      rfl
    · rw [h]
      rfl
  · intro hnil
    rw [hinv.al, hnil]
    exact hfresh.holding_nil

/-- The allocator over 512 bytes at address `0` with pages of 128 bytes. -/
def threePages : KtPageAllocator where
  pageSize := 128
  pageCount := 3
  pageFree := 3
  pageListAt := 40
  freePagesMaskAt := 2344
  data := 2432
  pageList := initPageList 128 3 fun _ => ⟨0, 0, 0, 0⟩
  freePagesMask := initFreePagesMask 3 fun _ => 0

theorem threePages_init :
    ktPageAllocatorInit (fun _ => ⟨0, 0, 0, 0⟩) (fun _ => 0) 0 512 128 = .ok threePages := by
  have hsize : sizePages 512 (512 / 128) = some ⟨96, 4, 3⟩ :=
    (sizePages_of_fits (by decide +kernel) (by decide +kernel)).trans (by decide +kernel)
  exact ktPageAllocatorInit_eq_ok.mpr
    ⟨by decide +kernel, by decide +kernel, by decide, _, hsize, rfl⟩

/-- Two pages and then one are handed out, and the two given back. -/
theorem allocator_determined_by_live_three :
    ∃ tr s, Run allocStep ⟨threePages, []⟩ tr s ∧ s.live.map Grant.block = [⟨2, 1⟩] ∧ Agrees s := by
  have hexec : (exec allocStep ⟨threePages, []⟩ [.alloc 200, .alloc 1, .free 2432]).map
      (fun s => s.live.map Grant.block) = some [⟨2, 1⟩] := by
    decide +kernel
  obtain ⟨s, hs, hlive⟩ := Option.map_eq_some_iff.mp hexec
  obtain ⟨tr, hrun, -⟩ := Run.of_exec hs
  have hall := allocator_determined_by_live (by decide) (by decide) threePages_init
  exact ⟨tr, s, hrun, hlive, (hall.1 tr s hrun).1⟩

end KuberneTSN.Alloc
