import KuberneTSN.Alloc.Basic

/-!
# The loops of the page allocator

What the loops of `kt_alloc.c` compute, one lemma for each.

* `initPageList_of_lt`, `initFreePagesMask_eq`, `markMask_eq`, `markPages_eq` — the loops that fill
  and mark, in closed form; `markPages` follows the `next` pointers, which lead from page to page.
* `findRound_spec` — a round of the search for a run of pages returns or moves on;
* `pageAllocFindAlignedPages_spec` — so the search ends, with the first run of free pages.
-/

namespace KuberneTSN.Alloc

/-! ## Sizing -/

theorem u32Pred_lt (x : ℕ) : u32Pred x < 2 ^ 32 := Nat.mod_lt _ (by decide)

theorem u32Pred_of_pos {x : ℕ} (hpos : 0 < x) (hx : x < 2 ^ 32) : u32Pred x = x - 1 := by
  unfold u32Pred u32
  omega

/-- How the sizing loop ends: at a page count `c` whose metadata fit, which is the one it was
started with or follows one whose metadata did not fit. -/
theorem sizePages_some {size pageCount : ℕ} {s : Sizing} (hcount : pageCount < 2 ^ 32)
    (h : sizePages size pageCount = some s) :
    ∃ c < 2 ^ 32, s = ⟨u32 (c * 24), c, u32Pred c⟩ ∧ u32Pred c ≠ 0 ∧ metadataSize c ≤ size ∧
      (0 < pageCount → 0 < c ∧ c ≤ pageCount) ∧
      (c = pageCount ∨ ∃ p < 2 ^ 32, c = u32Pred p ∧ size < metadataSize p) := by
  fun_induction sizePages size pageCount with
  | case1 pageCount hzero => cases h
  | case2 pageCount hzero hsize ih =>
      obtain ⟨c, hc, hs, hne, hfits, hle, hprev⟩ := ih (u32Pred_lt _) h
      refine ⟨c, hc, hs, hne, hfits, fun hpos => ?_, Or.inr ?_⟩
      · rw [u32Pred_of_pos hpos hcount] at hle hzero
        obtain ⟨hcpos, hcle⟩ := hle (Nat.pos_of_ne_zero hzero)
        exact ⟨hcpos, hcle.trans (Nat.sub_le _ _)⟩
      · rcases hprev with heq | hprev
        · exact ⟨pageCount, hcount, heq, hsize⟩
        · exact hprev
  | case3 pageCount hzero hsize =>
      cases h
      exact ⟨pageCount, hcount, rfl, hzero, not_lt.mp hsize, fun hpos => ⟨hpos, le_rfl⟩, Or.inl rfl⟩

/-- The sizing loop ends in its first pass, when the metadata of that page count fit. -/
theorem sizePages_of_fits {size pageCount : ℕ} (hne : u32Pred pageCount ≠ 0)
    (hfits : metadataSize pageCount ≤ size) :
    sizePages size pageCount = some ⟨u32 (pageCount * 24), pageCount, u32Pred pageCount⟩ := by
  unfold sizePages
  rw [dif_neg hne, if_neg (not_lt.mpr hfits)]

/-! ## Filling and marking -/

/-- A loop that stores to consecutive cells. -/
theorem foldl_update_range' {α : Type*} (g : ℕ → α) (a m : ℕ) (f : ℕ → α) :
    (List.range' a m).foldl (fun f i => Function.update f i (g i)) f =
      fun i => if a ≤ i ∧ i < a + m then g i else f i := by
  induction m generalizing a f with
  | zero =>
      funext i
      rw [if_neg (by omega)]
      rfl
  | succ m ih =>
      rw [List.range'_succ, List.foldl_cons, ih]
      funext i
      by_cases hi : i = a
      · subst hi
        rw [if_neg (by omega), if_pos ⟨le_rfl, by omega⟩, Function.update_self]
      · rw [Function.update_of_ne hi]
        by_cases hin : a + 1 ≤ i ∧ i < a + 1 + m
        · rw [if_pos hin, if_pos ⟨by omega, by omega⟩]
        · rw [if_neg hin, if_neg (by omega)]

/-- Marking in the mask. -/
theorem markMask_eq (v a m : ℕ) (mask : ℕ → ℕ) :
    markMask v a (a + m) mask = fun i => if a ≤ i ∧ i < a + m then v else mask i := by
  rw [markMask, Nat.add_sub_cancel_left, foldl_update_range' fun _ => v]

/-- The fresh mask. -/
theorem initFreePagesMask_eq (pageCount : ℕ) (junk : ℕ → ℕ) :
    initFreePagesMask pageCount junk = fun i => if i < pageCount then 1 else junk i := by
  rw [initFreePagesMask, List.range_eq_range', foldl_update_range' fun _ => 1]
  simp only [zero_add, Nat.zero_le, true_and]

/-- The fresh page list. -/
theorem initPageList_of_lt {pageSize pageCount : ℕ} (junk : ℕ → KtPage) {i : ℕ} (hi : i < pageCount) :
    initPageList pageSize pageCount junk i =
      ⟨if i + 1 = pageCount then 0 else i + 1, 1, u32 (i * pageSize), 0⟩ := by
  have hin : 0 ≤ i ∧ i < 0 + pageCount := ⟨Nat.zero_le i, by omega⟩
  unfold initPageList
  rw [List.range_eq_range',
    foldl_update_range' fun i => (⟨i + 1, 1, u32 (i * pageSize), 0⟩ : KtPage)]
  dsimp only
  by_cases hlast : i + 1 = pageCount
  · obtain rfl : i = pageCount - 1 := by omega
    rw [Function.update_self, if_pos hin, if_pos hlast]
  · rw [Function.update_of_ne (by omega), if_pos hin, if_neg hlast]

/-- Marking along the `next` pointers is marking consecutive pages, where these lead from each page
to the next one. -/
theorem markPages_eq (v n tmp : ℕ) (list : ℕ → KtPage)
    (hnext : ∀ j, tmp ≤ j → j + 1 < tmp + n → (list j).next = j + 1) :
    markPages v n tmp list =
      fun j => if tmp ≤ j ∧ j < tmp + n then { list j with free := v } else list j := by
  induction n generalizing tmp list with
  | zero =>
      funext j
      rw [if_neg (by omega)]
      rfl
  | succ n ih =>
      rcases Nat.eq_zero_or_pos n with rfl | hn
      · -- the last page: its `next` pointer is not followed
        funext j
        simp only [markPages]
        by_cases hj : j = tmp
        · subst hj
          rw [Function.update_self, if_pos ⟨le_rfl, by omega⟩]
        · rw [Function.update_of_ne hj, if_neg (by omega)]
      · have hhere : (list tmp).next = tmp + 1 := hnext tmp le_rfl (by omega)
        have htmp : (Function.update list tmp { list tmp with free := v } tmp).next = tmp + 1 := by
          rw [Function.update_self]
          exact hhere
        rw [markPages]
        dsimp only
        rw [htmp, ih (tmp + 1)]
        · funext j
          by_cases hj : j = tmp
          · subst hj
            rw [Function.update_self, if_neg (by omega), if_pos ⟨le_rfl, by omega⟩]
          · rw [Function.update_of_ne hj]
            by_cases hin : tmp + 1 ≤ j ∧ j < tmp + 1 + n
            · rw [if_pos hin, if_pos ⟨by omega, by omega⟩]
            · rw [if_neg hin, if_neg (by omega)]
        · intro j hj hlt
          rw [Function.update_of_ne (by omega)]
          exact hnext j (by omega) (by omega)

/-! ## Search -/

/-- The page that the search answers is the first one that is free. -/
theorem searchPages_some {mask : ℕ → ℕ} {n i r : ℕ} (h : searchPages mask n i = some r) :
    i ≤ r ∧ r < i + n ∧ mask r ≠ 0 ∧ ∀ j, i ≤ j → j < r → mask j = 0 := by
  induction n generalizing i with
  | zero => cases h
  | succ n ih =>
      rw [searchPages] at h
      split_ifs at h with hi
      · cases h
        exact ⟨le_rfl, by omega, hi, fun j hj hjr => absurd hjr (not_lt.mpr hj)⟩
      · rw [not_not] at hi
        obtain ⟨h₁, h₂, h₃, h₄⟩ := ih h
        refine ⟨by omega, by omega, h₃, fun j hj hjr => ?_⟩
        rcases Nat.eq_or_lt_of_le hj with rfl | hlt
        · exact hi
        · exact h₄ j hlt hjr

/-- The search answers nothing when no page is free. -/
theorem searchPages_none {mask : ℕ → ℕ} {n i : ℕ} (h : searchPages mask n i = none) :
    ∀ j, i ≤ j → j < i + n → mask j = 0 := by
  induction n generalizing i with
  | zero => exact fun j hj hlt => absurd hlt (not_lt.mpr hj)
  | succ n ih =>
      intro j hj hlt
      rw [searchPages] at h
      split_ifs at h with hi
      rw [not_not] at hi
      rcases Nat.eq_or_lt_of_le hj with rfl | hne
      · exact hi
      · exact ih h j hne (by omega)

variable {al : KtPageAllocator}

/-- The page that `page_alloc_search_first_free_page_from` answers is the first one that is free. -/
theorem pageAllocSearchFirstFreePageFrom_some {start r : ℕ}
    (h : pageAllocSearchFirstFreePageFrom al start = some r) :
    start ≤ r ∧ r < al.pageCount ∧ al.freePagesMask r ≠ 0 ∧
      ∀ j, start ≤ j → j < r → al.freePagesMask j = 0 := by
  unfold pageAllocSearchFirstFreePageFrom at h
  split_ifs at h with hstart
  obtain ⟨h₁, h₂, h₃, h₄⟩ := searchPages_some h
  exact ⟨h₁, by omega, h₃, h₄⟩

/-- It answers nothing when no page is free. -/
theorem pageAllocSearchFirstFreePageFrom_none {start : ℕ}
    (h : pageAllocSearchFirstFreePageFrom al start = none) :
    ∀ j, start ≤ j → j < al.pageCount → al.freePagesMask j = 0 := by
  intro j hj hlt
  unfold pageAllocSearchFirstFreePageFrom at h
  split_ifs at h with hstart
  · omega
  · exact searchPages_none h j hj (by omega)

/-- There are `m` free pages in a row from page `i` on. -/
def FreeRun (al : KtPageAllocator) (i m : ℕ) : Prop :=
  i + m ≤ al.pageCount ∧ ∀ j < m, al.freePagesMask (i + j) ≠ 0

/-- One free page. -/
theorem FreeRun.one {i : ℕ} (hi : i < al.pageCount) (hfree : al.freePagesMask i ≠ 0) :
    FreeRun al i 1 := by
  refine ⟨hi, fun j hj => ?_⟩
  obtain rfl : j = 0 := by omega
  exact hfree

/-- One free page more. -/
theorem FreeRun.succ {i m : ℕ} (h : FreeRun al i m)
    (hfree : i + m < al.pageCount ∧ al.freePagesMask (i + m) ≠ 0) : FreeRun al i (m + 1) := by
  refine ⟨hfree.1, fun j hj => ?_⟩
  rcases Nat.lt_succ_iff_lt_or_eq.mp hj with hj | rfl
  · exact h.2 j hj
  · exact hfree.2

/-- A page that is not free, or not there, is in no run. -/
theorem not_freeRun_of_blocked {i m k : ℕ} (hik : i ≤ k) (hkm : k < i + m)
    (hblocked : ¬ (k < al.pageCount ∧ al.freePagesMask k ≠ 0)) : ¬ FreeRun al i m := by
  rintro ⟨hin, hfree⟩
  refine hblocked ⟨by omega, ?_⟩
  have hk := hfree (k - i) (by omega)
  rwa [Nat.add_sub_cancel' hik] at hk

/-- The inner loop of the search: a run of free pages, or the first page that ends it. -/
theorem scanPages_spec {index need : ℕ} (hcount : al.pageCount < 2 ^ 32) (n pageFound : ℕ)
    (hn : pageFound + n = need) (hpos : 0 < n) (hsofar : FreeRun al index pageFound) :
    (scanPages al index need n pageFound = .found ∧ FreeRun al index need) ∨
      ∃ k, scanPages al index need n pageFound = .blocked k ∧ index + pageFound ≤ k ∧
        k < index + need ∧ k ≤ al.pageCount ∧ ¬ (k < al.pageCount ∧ al.freePagesMask k ≠ 0) := by
  induction n generalizing pageFound with
  | zero => omega
  | succ n ih =>
      have hend := hsofar.1
      have hk : u32 (index + pageFound) = index + pageFound := Nat.mod_eq_of_lt (by omega)
      simp only [scanPages, hk]
      split_ifs with hfree hlast
      · exact Or.inl ⟨rfl, hlast ▸ hsofar.succ hfree⟩
      · rcases ih (pageFound + 1) (by omega) (by omega) (hsofar.succ hfree) with
          hfound | ⟨k, hscan, hle, hblocked⟩
        · exact Or.inl hfound
        · exact Or.inr ⟨k, hscan, by omega, hblocked⟩
      · exact Or.inr ⟨_, rfl, le_rfl, by omega, hend, hfree⟩

/-- The answer `r` is the first run of `need` free pages from page `index` on, if there is one. -/
def IsFirstFit (al : KtPageAllocator) (index need : ℕ) : Option ℕ → Prop
  | none => ∀ j, index ≤ j → ¬ FreeRun al j need
  | some i => index ≤ i ∧ FreeRun al i need ∧ ∀ j, index ≤ j → j < i → ¬ FreeRun al j need

/-- A first fit from a later page is one from `index`, if no run starts between. -/
theorem IsFirstFit.skip {index k need : ℕ} {r : Option ℕ} (h : IsFirstFit al k need r)
    (hle : index ≤ k) (hskip : ∀ j, index ≤ j → j < k → ¬ FreeRun al j need) :
    IsFirstFit al index need r := by
  cases r with
  | none =>
      intro j hj
      rcases lt_or_ge j k with hlt | hge
      · exact hskip j hj hlt
      · exact h j hge
  | some i =>
      obtain ⟨hki, hrun, hfirst⟩ := h
      refine ⟨hle.trans hki, hrun, fun j hj hji => ?_⟩
      rcases lt_or_ge j k with hlt | hge
      · exact hskip j hj hlt
      · exact hfirst j hge hji

/-- One round of the `while` loop of `page_alloc_find_aligned_pages`: the page that it returns, or
the value of `*index` for the next round. -/
def findRound (al : KtPageAllocator) (need index : ℕ) : Option ℕ ⊕ ℕ :=
  match pageAllocSearchFirstFreePageFrom al index with
  | none => .inl none
  | some i =>
      if need = 1 then .inl (some i)
      else
        match scanPages al i need (need - 1) 1 with
        | .found => .inl (some i)
        | .blocked k => .inr k
        | .exhausted => .inr i

/-- The loop is a sequence of rounds. -/
theorem findPages_succ (need fuel index : ℕ) :
    findPages al need (fuel + 1) index =
      match findRound al need index with
      | .inl r => some r
      | .inr k => findPages al need fuel k := by
  rw [findPages, findRound]
  cases pageAllocSearchFirstFreePageFrom al index with
  | none => rfl
  | some i =>
      dsimp only
      split_ifs
      · rfl
      · cases scanPages al i need (need - 1) 1 <;> rfl

/-- **A round that needs a page** returns the first fit, or moves the index on, past pages where no
run starts. -/
theorem findRound_spec {need : ℕ} (hcount : al.pageCount < 2 ^ 32) (hpos : 0 < need) (index : ℕ) :
    (∃ r, findRound al need index = .inl r ∧ IsFirstFit al index need r) ∨
      ∃ k, findRound al need index = .inr k ∧ index < k ∧ k ≤ al.pageCount ∧
        ∀ j, index ≤ j → j < k → ¬ FreeRun al j need := by
  rw [findRound]
  cases hsearch : pageAllocSearchFirstFreePageFrom al index with
  | none =>
      refine Or.inl ⟨none, rfl, fun j hj => ?_⟩
      refine not_freeRun_of_blocked le_rfl (by omega) fun hfree => hfree.2 ?_
      exact pageAllocSearchFirstFreePageFrom_none hsearch j hj hfree.1
  | some i =>
      obtain ⟨hle, hlt, hfree, hbefore⟩ := pageAllocSearchFirstFreePageFrom_some hsearch
      -- no run starts at a page that is not free
      have hskip : ∀ j, index ≤ j → j < i → ¬ FreeRun al j need := fun j hj hji =>
        not_freeRun_of_blocked le_rfl (by omega) fun h => h.2 (hbefore j hj hji)
      have hone := FreeRun.one hlt hfree
      dsimp only
      split_ifs with h1
      · exact Or.inl ⟨some i, rfl, hle, h1 ▸ hone, hskip⟩
      · rcases scanPages_spec hcount (need - 1) 1 (show 1 + (need - 1) = need by omega) (by omega)
            hone with
          ⟨hscan, hrun⟩ | ⟨k, hscan, hk, hkneed, hkcount, hblocked⟩
        · rw [hscan]
          exact Or.inl ⟨some i, rfl, hle, hrun, hskip⟩
        · rw [hscan]
          refine Or.inr ⟨k, rfl, by omega, hkcount, fun j hj hjk => ?_⟩
          rcases lt_or_ge j i with hji | hij
          · exact hskip j hj hji
          · -- a run from `j` on would go across page `k`
            exact not_freeRun_of_blocked hjk.le (by omega) hblocked

/-- The loop, from `index` on, ends with the first fit: every round but the last moves the index on. -/
theorem findPages_spec {need : ℕ} (hcount : al.pageCount < 2 ^ 32) (hpos : 0 < need)
    (fuel index : ℕ) (hfuel : al.pageCount < fuel + index) (hindex : index ≤ al.pageCount) :
    ∃ r, findPages al need fuel index = some r ∧ IsFirstFit al index need r := by
  induction fuel generalizing index with
  | zero => omega
  | succ fuel ih =>
      rw [findPages_succ]
      rcases findRound_spec hcount hpos _ with ⟨r, hround, hfirst⟩ | ⟨k, hround, hlt, hle, hskip⟩
      · rw [hround]
        exact ⟨r, rfl, hfirst⟩
      · rw [hround]
        obtain ⟨r, hr, hfirst⟩ := ih k (by omega) hle
        exact ⟨r, hr, hfirst.skip hlt.le hskip⟩

/-- **The search for a run of free pages** ends, and answers the first one. -/
theorem pageAllocFindAlignedPages_spec {need : ℕ} (hcount : al.pageCount < 2 ^ 32)
    (hpos : 0 < need) :
    ∃ r, pageAllocFindAlignedPages al need = some r ∧ IsFirstFit al 0 need r :=
  findPages_spec hcount hpos _ 0 (by omega) (Nat.zero_le _)

end KuberneTSN.Alloc
