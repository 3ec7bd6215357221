import KuberneTSN.Alloc.Live

/-!
# Page allocation is first fit, and when it returns

* `page_allocation_first_fit` — in every reachable state an allocation of at least one byte answers
  the first run of free pages that is long enough, and `NULL` only if there is none;
* `findPages_zero` — the search for a run of no page at all goes round for ever, if a page is free;
* `page_allocation_returns_iff` — so an allocation returns exactly when it asks for at least one
  byte or no page is free.
-/

namespace KuberneTSN.Alloc

open Lib

variable {al₀ al : KtPageAllocator} {pages : ℕ → KtPage} {mask : ℕ → ℕ} {data size pageSize : ℕ}

/-! ## First fit -/

/-- **Page allocation is complete first fit and atomic on failure.** In every reachable state, and
for every request of at least one byte: it answers `NULL` if and only if there is no run of free
pages that is long enough, and changes nothing then; and otherwise it answers the address of the
first such run. -/
theorem page_allocation_first_fit {s : Session} {tr : List (Session × AllocOp)}
    (hsize : size < 2 ^ 32) (htwo : 2 * pageSize ≤ size)
    (hinit : ktPageAllocatorInit pages mask data size pageSize = .ok al₀)
    (hrun : Run allocStep ⟨al₀, []⟩ tr s) (n : ℕ) (hn : 1 ≤ n) (hlt : n < 2 ^ 32) :
    ((∃ al, pageAllocAlloc s.al n = some (none, al)) ↔
      ∀ i, ¬ FreeRun s.al i (n ⌈/⌉ pageSize)) ∧
    (∀ al, pageAllocAlloc s.al n = some (none, al) → al = s.al) ∧
    ∀ i, FreeRun s.al i (n ⌈/⌉ pageSize) → (∀ j < i, ¬ FreeRun s.al j (n ⌈/⌉ pageSize)) →
      ∃ al, pageAllocAlloc s.al n = some (some (u64 (s.al.data + pageSize * i)), al) := by
  have hfresh := fresh_of_init hsize htwo hinit
  have hinv := inv_run hfresh hrun
  have hps : al₀.pageSize = pageSize := by
    obtain ⟨-, -, -, -, -, rfl⟩ := ktPageAllocatorInit_eq_ok.mp hinit
    rfl
  have hneed : pagesNeeded al₀ n = n ⌈/⌉ pageSize := by
    rw [pagesNeeded_eq_ceilDiv hfresh.pageSize_pos hlt, hps]
  have halloc := pageAllocAlloc_holding hfresh hinv.placed hn hlt
  have hdata : s.al.data = al₀.data := by
    rw [hinv.al]
    rfl
  rw [← hinv.al, hneed] at halloc
  rcases halloc with ⟨hnone, hnull⟩ | ⟨b, -, -, ⟨-, hfits, hfirst⟩, hsome⟩
  · refine ⟨⟨fun _ => hnone, fun _ => ⟨s.al, hnull⟩⟩, fun al hal => ?_, fun i hi => ?_⟩
    · rw [hnull] at hal
      cases hal
      rfl
    · exact absurd hi (hnone i)
  · refine ⟨⟨fun ⟨al, hal⟩ => ?_, fun hnone => absurd hfits (hnone b.first)⟩, fun al hal => ?_,
      fun i hi hleast => ?_⟩
    · rw [hsome] at hal
      cases hal
    · rw [hsome] at hal
      cases hal
    · have heq : b.first = i := by
        rcases lt_trichotomy b.first i with hlt | heq | hgt
        · exact absurd hfits (hleast _ hlt)
        · exact heq
        · exact absurd hi (hfirst i (Nat.zero_le i) hgt)
      rw [hsome, heq, hps, hdata, Nat.mul_comm i]
      exact ⟨_, rfl⟩

/-- With two of three pages taken, a request of two pages fails, and one of a byte gets the last
page. -/
theorem page_allocation_first_fit_three :
    ∃ tr s, Run allocStep ⟨threePages, []⟩ tr s ∧
      (∃ al, pageAllocAlloc s.al 200 = some (none, al)) ∧
      ∃ al, pageAllocAlloc s.al 1 = some (some (u64 (s.al.data + 128 * 2)), al) := by
  have hexec : (exec allocStep ⟨threePages, []⟩ [.alloc 200]).map
      (fun s => (s.al.pageCount, s.al.freePagesMask 0, s.al.freePagesMask 1, s.al.freePagesMask 2)) =
        some (3, 0, 0, 1) := by
    decide +kernel
  obtain ⟨s, hs, hrecords⟩ := Option.map_eq_some_iff.mp hexec
  simp only [Prod.mk.injEq] at hrecords
  obtain ⟨hcount, h0, h1, h2⟩ := hrecords
  obtain ⟨tr, hrun, -⟩ := Run.of_exec hs
  have hstarts : ∀ i m, 0 < m → FreeRun s.al i m → i = 2 := by
    rintro i m hm ⟨hin, hfree⟩
    have hmask : s.al.freePagesMask i ≠ 0 := hfree 0 hm
    rw [hcount] at hin
    have hi : i < 3 := by omega
    interval_cases i
    · exact absurd h0 hmask
    · exact absurd h1 hmask
    · rfl
  have htwo : (200 : ℕ) ⌈/⌉ 128 = 2 := rfl
  have hone : (1 : ℕ) ⌈/⌉ 128 = 1 := rfl
  obtain ⟨hnull, -, -⟩ := page_allocation_first_fit (by decide) (by decide) threePages_init hrun 200
    (by decide) (by decide)
  obtain ⟨-, -, hfirst⟩ := page_allocation_first_fit (by decide) (by decide) threePages_init hrun 1
    (by decide) (by decide)
  refine ⟨tr, s, hrun, hnull.mpr fun i hi => ?_, hfirst 2 ?_ fun j hj hrun' => ?_⟩
  · have hin := hi.1
    rw [htwo, hcount, hstarts i _ (by decide) hi] at hin
    exact absurd hin (by decide)
  · rw [hone]
    exact .one (by rw [hcount]; decide) (by rw [h2]; decide)
  · exact absurd (hstarts j _ (by decide) hrun') hj.ne

/-! ## Termination -/

/-- A call of the allocator, with any size and any pointer. -/
def allocatorStep (al : KtPageAllocator) : AllocOp → Option KtPageAllocator
  | .alloc size => if size < 2 ^ 32 then (pageAllocAlloc al size).map Prod.snd else none
  | .free ptr => some (pageAllocFree al ptr)

/-- An allocation changes neither the page size nor the page count. -/
theorem pageAllocAlloc_sizes {ptr : Option ℕ} {al' : KtPageAllocator} {n : ℕ}
    (h : pageAllocAlloc al n = some (ptr, al')) :
    al'.pageSize = al.pageSize ∧ al'.pageCount = al.pageCount := by
  unfold pageAllocAlloc at h
  split_ifs at h with hps
  dsimp only at h
  split_ifs at h with hroom
  · cases h
    exact ⟨rfl, rfl⟩
  · split at h
    · cases h
    · cases h
      exact ⟨rfl, rfl⟩
    · cases h
      exact ⟨rfl, rfl⟩

/-- No call changes the page size or the page count. -/
theorem allocatorStep_sizes {al' : KtPageAllocator} {op : AllocOp}
    (h : allocatorStep al op = some al') :
    al'.pageSize = al.pageSize ∧ al'.pageCount = al.pageCount := by
  cases op with
  | alloc size =>
      simp only [allocatorStep] at h
      split_ifs at h with hlt
      obtain ⟨⟨ptr, al₁⟩, hal, rfl⟩ := Option.map_eq_some_iff.mp h
      exact pageAllocAlloc_sizes hal
  | free ptr =>
      simp only [allocatorStep, Option.some.injEq] at h
      subst h
      unfold pageAllocFree
      dsimp only
      split_ifs <;> exact ⟨rfl, rfl⟩

/-- The sizes of an allocator in every reachable state. -/
theorem sizes_of_run {tr : List (KtPageAllocator × AllocOp)}
    (hsize : size < 2 ^ 32) (hinit : ktPageAllocatorInit pages mask data size pageSize = .ok al₀)
    (hrun : Run allocatorStep al₀ tr al) : 0 < al.pageSize ∧ al.pageCount < 2 ^ 32 := by
  refine hrun.always (I := fun al => 0 < al.pageSize ∧ al.pageCount < 2 ^ 32) ?_ ?_
  · obtain ⟨-, -, hpos, s, hs, rfl⟩ := ktPageAllocatorInit_eq_ok.mp hinit
    have hle : size / pageSize ≤ size := Nat.div_le_self _ _
    obtain ⟨count, -, rfl, -⟩ := sizePages_some (by omega) hs
    exact ⟨hpos, u32Pred_lt count⟩
  · intro al op al' ⟨hpos, hcount⟩ hstep
    obtain ⟨hps, hpc⟩ := allocatorStep_sizes hstep
    rw [hps, hpc]
    exact ⟨hpos, hcount⟩

/-- `page_alloc_alloc` returns: it refuses at once, or its search ends after some number of rounds. -/
def Returns (al : KtPageAllocator) (n : ℕ) : Prop :=
  al.pageFree < pagesNeeded al n ∨ ∃ rounds r, findPages al (pagesNeeded al n) rounds 0 = some r

/-- Every round of the search that does not return moves the index on, towards the page count. -/
def RoundsProgress (al : KtPageAllocator) (n : ℕ) : Prop :=
  ∀ index ≤ al.pageCount, ∀ k, findRound al (pagesNeeded al n) index = .inr k →
    index < k ∧ k ≤ al.pageCount

/-- With no page free, the search answers `NULL` in its first round. -/
theorem findRound_of_none_free {need index : ℕ}
    (h : ∀ i < al.pageCount, al.freePagesMask i = 0) : findRound al need index = .inl none := by
  rw [findRound]
  cases hsearch : pageAllocSearchFirstFreePageFrom al index with
  | none => rfl
  | some i =>
      obtain ⟨-, hlt, hfree, -⟩ := pageAllocSearchFirstFreePageFrom_some hsearch
      exact absurd (h i hlt) hfree

/-- **The search for no page at all** never ends while a page is free: the inner loop has nothing to
check, and the next round begins at the same page. -/
theorem findPages_zero (rounds index : ℕ)
    (h : ∃ i, index ≤ i ∧ i < al.pageCount ∧ al.freePagesMask i ≠ 0) :
    findPages al 0 rounds index = none := by
  induction rounds generalizing index with
  | zero => rfl
  | succ rounds ih =>
      rw [findPages_succ, findRound]
      cases hsearch : pageAllocSearchFirstFreePageFrom al index with
      | none =>
          obtain ⟨i, hle, hlt, hfree⟩ := h
          exact absurd (pageAllocSearchFirstFreePageFrom_none hsearch i hle hlt) hfree
      | some i =>
          obtain ⟨-, hlt, hfree, -⟩ := pageAllocSearchFirstFreePageFrom_some hsearch
          exact ih i ⟨i, le_rfl, hlt, hfree⟩

/-- **When a page allocation returns.** In every reachable state of an initialised allocator and
for every `u32` size: the call returns, with a search that moves on in every round, if and only if
the size is not zero or no page is free. -/
theorem page_allocation_returns_iff {tr : List (KtPageAllocator × AllocOp)} (hsize : size < 2 ^ 32)
    (hinit : ktPageAllocatorInit pages mask data size pageSize = .ok al₀)
    (hrun : Run allocatorStep al₀ tr al) (n : ℕ) (hn : n < 2 ^ 32) :
    (Returns al n ∧ RoundsProgress al n) ↔ n ≠ 0 ∨ ∀ i < al.pageCount, al.freePagesMask i = 0 := by
  obtain ⟨hpos, hcount⟩ := sizes_of_run hsize hinit hrun
  have hzero := pagesNeeded_eq_zero hpos hn
  constructor
  · rintro ⟨hreturns, -⟩
    by_contra hnot
    rw [not_or, not_not] at hnot
    obtain ⟨rfl, hfree⟩ := hnot
    push Not at hfree
    obtain ⟨i, hi, hfree⟩ := hfree
    rw [Returns, hzero.mpr rfl] at hreturns
    rcases hreturns with hroom | ⟨rounds, r, hr⟩
    · exact absurd hroom (Nat.not_lt_zero _)
    · rw [findPages_zero rounds 0 ⟨i, Nat.zero_le i, hi, hfree⟩] at hr
      cases hr
  · rintro (hne | hnone)
    · have hneed : 0 < pagesNeeded al n := Nat.pos_of_ne_zero fun h => hne (hzero.mp h)
      obtain ⟨r, hr, -⟩ := findPages_spec hcount hneed (al.pageCount + 1) 0 (by omega) (Nat.zero_le _)
      refine ⟨Or.inr ⟨_, r, hr⟩, fun index _ k hround => ?_⟩
      rcases findRound_spec hcount hneed index with ⟨r, hr, -⟩ | ⟨k', hk', hlt, hle, -⟩
      · rw [hr] at hround
        cases hround
      · rw [hk'] at hround
        cases hround
        exact ⟨hlt, hle⟩
    · refine ⟨Or.inr ⟨1, none, ?_⟩, fun index _ k hround => ?_⟩
      · rw [findPages_succ, findRound_of_none_free hnone]
      · rw [findRound_of_none_free hnone] at hround
        cases hround

/-- A request for two pages when only the first and the last of three pages are free: the search
meets the page between them in its first round, moves on, and returns. -/
theorem page_allocation_returns_iff_three :
    ∃ tr al, Run allocatorStep threePages tr al ∧
      tr.map Prod.snd = [.alloc 1, .alloc 1, .free 2432] ∧
      findRound al (pagesNeeded al 200) 0 = .inr 1 ∧ Returns al 200 ∧ RoundsProgress al 200 := by
  have hexec : (exec allocatorStep threePages [.alloc 1, .alloc 1, .free 2432]).map
      (fun al => findRound al (pagesNeeded al 200) 0) = some (.inr 1) := by
    decide +kernel
  obtain ⟨al, hal, hround⟩ := Option.map_eq_some_iff.mp hexec
  obtain ⟨tr, hrun, hops⟩ := Run.of_exec hal
  refine ⟨tr, al, hrun, hops, hround, ?_⟩
  exact (page_allocation_returns_iff (by decide) threePages_init hrun 200 (by decide)).mpr
    (.inl (by decide))

/-- A request of no byte to an allocator of three pages never returns. -/
theorem page_allocation_of_nothing_spins :
    ktPageAllocatorInit (fun _ => ⟨0, 0, 0, 0⟩) (fun _ => 0) 0 512 128 = .ok threePages ∧
      ¬ Returns threePages 0 := by
  refine ⟨threePages_init, ?_⟩
  have hneed : pagesNeeded threePages 0 = 0 := rfl
  rintro (hroom | ⟨rounds, r, hr⟩)
  · exact absurd hroom (Nat.not_lt_zero _)
  · rw [hneed, findPages_zero rounds 0 ⟨0, le_rfl, by decide, by decide⟩] at hr
    cases hr

end KuberneTSN.Alloc
