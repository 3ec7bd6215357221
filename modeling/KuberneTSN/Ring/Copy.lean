import KuberneTSN.Ring.Basic
import KuberneTSN.Lib.Counter

/-!
# The copy loops are a plain block copy

* `ktRingbufElemMoves_eq` — whichever branch is taken, the copies of a burst of `n` elements that
  starts at slot `idx` are `(idx, 0), (idx + 1, 1), …, (idx + n - 1, n - 1)`. In particular the
  wrap-around branch does not wrap: its first loop already runs to `n`, past the end of the array,
  and its second loop has nothing left to do;
* `copy_loops_plain` — so a burst that stays inside the array stores, or loads, one element after
  another, and touches nothing else.
-/

namespace KuberneTSN.Ring

open Lib

/-- `m` copies in a row, from slot `a` and table index `b`. -/
def block (a b m : ℕ) : List (ℕ × ℕ) := (List.range m).map fun j => (a + j, b + j)

/-- Blocks that follow each other are one block. -/
theorem block_append (a b m m' : ℕ) :
    block a b m ++ block (a + m) (b + m) m' = block a b (m + m') := by
  simp [block, List.range_add, add_assoc, Function.comp_def]

/-- A block of one copy. -/
theorem block_one (a b : ℕ) : block a b 1 = [(a, b)] := by
  simp [block, List.range_succ]

/-- The running indices at slot `a` and table index `b`. -/
def CopyState.mkAt (a b : ℕ) (moves : List (ℕ × ℕ)) : CopyState :=
  ⟨UInt32.ofNat a, UInt32.ofNat b, moves⟩

/-- One copy. -/
theorem CopyState.one_mkAt {a b : ℕ} (ha : a < 2 ^ 32) (hb : b < 2 ^ 32) (l : List (ℕ × ℕ)) :
    (mkAt a b l).one = mkAt (a + 1) (b + 1) (l ++ block a b 1) := by
  simp only [mkAt, one, block_one, UInt32.ofNat_add, toNat_ofNat_of_lt ha, toNat_ofNat_of_lt hb]
  rfl

/-- The unrolled body is four copies. -/
theorem CopyState.four_mkAt {a b : ℕ} (ha : a + 4 ≤ 2 ^ 32) (hb : b + 4 ≤ 2 ^ 32)
    (l : List (ℕ × ℕ)) : (mkAt a b l).four = mkAt (a + 4) (b + 4) (l ++ block a b 4) := by
  have hadd : ∀ c d : ℕ, c + 4 ≤ 2 ^ 32 → d < 4 →
      (UInt32.ofNat c + UInt32.ofNat d).toNat = c + d := by
    intro c d hc hd
    rw [← UInt32.ofNat_add]
    exact toNat_ofNat_of_lt (by omega)
  have h₁ := hadd a 1 ha (by omega)
  have h₂ := hadd a 2 ha (by omega)
  have h₃ := hadd a 3 ha (by omega)
  have k₁ := hadd b 1 hb (by omega)
  have k₂ := hadd b 2 hb (by omega)
  have k₃ := hadd b 3 hb (by omega)
  have h₀ : (UInt32.ofNat a).toNat = a := toNat_ofNat_of_lt (by omega)
  have k₀ : (UInt32.ofNat b).toNat = b := toNat_ofNat_of_lt (by omega)
  simp only [mkAt, four, CopyState.mk.injEq]
  refine ⟨by rw [UInt32.ofNat_add]; rfl, by rw [UInt32.ofNat_add]; rfl, ?_⟩
  rw [List.append_cancel_left_eq]
  show [((UInt32.ofNat a).toNat, (UInt32.ofNat b).toNat),
    ((UInt32.ofNat a + UInt32.ofNat 1).toNat, (UInt32.ofNat b + UInt32.ofNat 1).toNat),
    ((UInt32.ofNat a + UInt32.ofNat 2).toNat, (UInt32.ofNat b + UInt32.ofNat 2).toNat),
    ((UInt32.ofNat a + UInt32.ofNat 3).toNat, (UInt32.ofNat b + UInt32.ofNat 3).toNat)] = _
  rw [h₀, h₁, h₂, h₃, k₀, k₁, k₂, k₃]
  rfl

/-- **A copy loop of stride `d`** copies the whole range in one block. -/
theorem copyWhile_mkAt {body : CopyState → CopyState} {d : ℕ} (hd : 0 < d)
    (hbody : ∀ a b l, a + d ≤ 2 ^ 32 → b + d ≤ 2 ^ 32 →
      body (.mkAt a b l) = .mkAt (a + d) (b + d) (l ++ block a b d))
    {bound : UInt32} {a b : ℕ} (l : List (ℕ × ℕ)) (fuel : ℕ) (hfuel : bound.toNat ≤ b + fuel)
    (hb : b ≤ bound.toNat) (hdvd : d ∣ bound.toNat - b) (ha : a + (bound.toNat - b) ≤ 2 ^ 32) :
    copyWhile body bound fuel (.mkAt a b l) =
      .mkAt (a + (bound.toNat - b)) bound.toNat (l ++ block a b (bound.toNat - b)) := by
  have hbound := bound.toNat_lt
  induction fuel generalizing a b l with
  | zero =>
      obtain rfl : b = bound.toNat := by omega
      simp [copyWhile, block]
  | succ fuel ih =>
      rw [copyWhile]
      have hi : (CopyState.mkAt a b l).i < bound ↔ b < bound.toNat := by
        rw [UInt32.lt_iff_toNat_lt]
        simp only [CopyState.mkAt, toNat_ofNat_of_lt (show b < 2 ^ 32 by omega)]
      split_ifs with h
      · have hlt := hi.mp h
        have hle : d ≤ bound.toNat - b := Nat.le_of_dvd (by omega) hdvd
        have hrest : bound.toNat - (b + d) = bound.toNat - b - d := by omega
        have hdvd' : d ∣ bound.toNat - (b + d) := hrest ▸ Nat.dvd_sub hdvd dvd_rfl
        rw [hbody a b l (by omega) (by omega), ih _ (by omega) (by omega) hdvd' (by omega),
          List.append_assoc, block_append,
          show a + d + (bound.toNat - (b + d)) = a + (bound.toNat - b) by omega,
          show d + (bound.toNat - (b + d)) = bound.toNat - b by omega]
      · obtain rfl : b = bound.toNat := by
          have hge : ¬ b < bound.toNat := fun hlt => h (hi.mpr hlt)
          omega
        simp [block]

/-- The plain loop. -/
theorem copyOnes_mkAt {bound : UInt32} {a b : ℕ} (l : List (ℕ × ℕ)) (fuel : ℕ)
    (hfuel : bound.toNat ≤ b + fuel) (hb : b ≤ bound.toNat)
    (ha : a + (bound.toNat - b) ≤ 2 ^ 32) :
    copyOnes bound fuel (.mkAt a b l) =
      .mkAt (a + (bound.toNat - b)) bound.toNat (l ++ block a b (bound.toNat - b)) :=
  copyWhile_mkAt Nat.one_pos (fun _ _ l ha hb => CopyState.one_mkAt ha hb l) l fuel hfuel hb
    (one_dvd _) ha

/-- The unrolled loop. -/
theorem copyFours_mkAt {bound : UInt32} {a b : ℕ} (l : List (ℕ × ℕ)) (fuel : ℕ)
    (hfuel : bound.toNat ≤ b + fuel) (hb : b ≤ bound.toNat) (hdvd : 4 ∣ bound.toNat - b)
    (ha : a + (bound.toNat - b) ≤ 2 ^ 32) :
    copyFours bound fuel (.mkAt a b l) =
      .mkAt (a + (bound.toNat - b)) bound.toNat (l ++ block a b (bound.toNat - b)) :=
  copyWhile_mkAt (by omega) (fun _ _ l ha hb => CopyState.four_mkAt ha hb l) l fuel hfuel hb hdvd ha

/-- The fall-through `switch`. -/
theorem copyRest_mkAt {rest : UInt32} {a b : ℕ} (l : List (ℕ × ℕ)) (hr : rest.toNat < 4)
    (ha : a + rest.toNat ≤ 2 ^ 32) (hb : b + rest.toNat ≤ 2 ^ 32) :
    copyRest rest (.mkAt a b l) =
      .mkAt (a + rest.toNat) (b + rest.toNat) (l ++ block a b rest.toNat) := by
  have hcase : ∀ c : UInt32, rest = c ↔ rest.toNat = c.toNat := fun c => UInt32.toNat_inj.symm
  unfold copyRest
  simp only [hcase]
  by_cases h3 : rest.toNat = 3
  · rw [if_pos (by simpa using h3), h3, CopyState.one_mkAt (by omega) (by omega),
      CopyState.one_mkAt (by omega) (by omega), CopyState.one_mkAt (by omega) (by omega),
      List.append_assoc, List.append_assoc, block_append, block_append]
  rw [if_neg (by simpa using h3)]
  by_cases h2 : rest.toNat = 2
  · rw [if_pos (by simpa using h2), h2, CopyState.one_mkAt (by omega) (by omega),
      CopyState.one_mkAt (by omega) (by omega), List.append_assoc, block_append]
  rw [if_neg (by simpa using h2)]
  by_cases h1 : rest.toNat = 1
  · rw [if_pos (by simpa using h1), h1, CopyState.one_mkAt (by omega) (by omega)]
  rw [if_neg (by simpa using h1)]
  have h0 : rest.toNat = 0 := by omega
  simp [h0, block]

/-- `n & 0x3`. -/
theorem toNat_and_three (n : UInt32) : (n &&& 3).toNat = n.toNat % 4 := by
  rw [UInt32.toNat_and]
  exact Nat.and_two_pow_sub_one_eq_mod n.toNat 2

/-- `n & ~0x3`. -/
theorem toNat_and_not_three (n : UInt32) : (n &&& ~~~3).toNat = n.toNat / 4 * 4 := by
  rw [UInt32.toNat_and]
  show n.toNat &&& 4294967292 = _
  have hlt := n.toNat_lt
  have hdiv : (n.toNat &&& 4294967292) / 2 ^ 2 = n.toNat / 2 ^ 2 := by
    rw [Nat.and_div_two_pow]
    show n.toNat / 2 ^ 2 &&& (2 ^ 30 - 1) = _
    rw [Nat.and_two_pow_sub_one_eq_mod]
    omega
  have hmod : (n.toNat &&& 4294967292) % 2 ^ 2 = 0 := by
    rw [Nat.and_mod_two_pow]
    show n.toNat % 2 ^ 2 &&& 0 = 0
    rw [Nat.and_zero]
  omega

/-- **The copies of a burst**, whichever branch is taken: `n` slots in a row from `idx` on. -/
theorem ktRingbufElemMoves_eq (size idx n : UInt32) (h : idx.toNat + n.toNat ≤ 2 ^ 32) :
    ktRingbufElemMoves size idx n = block idx.toNat 0 n.toNat := by
  have hn := n.toNat_lt
  have hstart : (⟨idx, 0, []⟩ : CopyState) = .mkAt idx.toNat 0 [] := by
    simp [CopyState.mkAt]
  unfold ktRingbufElemMoves
  rw [hstart]
  split_ifs
  · have hbound := toNat_and_not_three n
    have hrest := toNat_and_three n
    rw [copyFours_mkAt [] n.toNat (by omega) (by omega) (by omega) (by omega),
      copyRest_mkAt _ (by omega) (by omega) (by omega)]
    simp only [CopyState.mkAt, List.nil_append, Nat.sub_zero]
    have hsplit := block_append idx.toNat 0 (n &&& ~~~3).toNat (n &&& 3).toNat
    rw [zero_add] at hsplit
    rw [hsplit]
    congr 1
    omega
  · -- the first loop has copied everything, so the second one starts with `i = n`
    rw [copyOnes_mkAt [] n.toNat (by omega) (by omega) (by omega)]
    have hsecond : ({ CopyState.mkAt (idx.toNat + (n.toNat - 0)) n.toNat
        ([] ++ block idx.toNat 0 (n.toNat - 0)) with idx := 0 } : CopyState) =
        .mkAt 0 n.toNat (block idx.toNat 0 n.toNat) := by
      simp [CopyState.mkAt]
    show (copyOnes n n.toNat _).moves = _
    rw [hsecond, copyOnes_mkAt _ n.toNat (by omega) le_rfl (by omega)]
    simp [CopyState.mkAt, block]

/-! ## The effect of a block copy -/

/-- Storing a block into the ring. -/
theorem foldl_store_block (ring src : ℕ → UInt64) (a m : ℕ) :
    (block a 0 m).foldl (fun ring mv => Function.update ring mv.1 (src mv.2)) ring =
      fun s => if a ≤ s ∧ s < a + m then src (s - a) else ring s := by
  induction m with
  | zero =>
      funext s
      simp [block]
  | succ m ih =>
      have hlast := block_append a 0 m 1
      rw [block_one] at hlast
      rw [← hlast, List.foldl_append, ih]
      funext s
      simp only [List.foldl_cons, List.foldl_nil, zero_add]
      by_cases hs : s = a + m
      · subst hs
        simp
      · rw [Function.update_of_ne hs]
        by_cases hin : a ≤ s ∧ s < a + m
        · rw [if_pos hin, if_pos ⟨hin.1, by omega⟩]
        · rw [if_neg hin, if_neg (by omega)]

/-- Loading a block into the table. -/
theorem foldl_load_block (dst ring : ℕ → UInt64) (a m : ℕ) :
    (block a 0 m).foldl (fun dst mv => Function.update dst mv.2 (ring mv.1)) dst =
      fun j => if j < m then ring (a + j) else dst j := by
  induction m with
  | zero =>
      funext j
      simp [block]
  | succ m ih =>
      have hlast := block_append a 0 m 1
      rw [block_one] at hlast
      rw [← hlast, List.foldl_append, ih]
      funext j
      simp only [List.foldl_cons, List.foldl_nil, zero_add]
      by_cases hj : j = m
      · subst hj
        simp
      · rw [Function.update_of_ne hj]
        by_cases hin : j < m
        · rw [if_pos hin, if_pos (by omega)]
        · rw [if_neg hin, if_neg (by omega)]

/-- The slots of a block. -/
theorem map_fst_block (a b m : ℕ) : (block a b m).map Prod.fst = (List.range m).map (a + ·) := by
  simp [block, Function.comp_def]

/-! ## The two routines -/

section routines

variable {rb : KtRingbuf} {head n : UInt32}

/-- What `__kt_ringbuf_enqueue_elems` stores. -/
theorem ktRingbufEnqueueElems_eq (h : (head &&& rb.mask).toNat + n.toNat ≤ 2 ^ 32)
    (src : ℕ → UInt64) :
    ktRingbufEnqueueElems rb head src 8 n =
      let a := (head &&& rb.mask).toNat
      .ok ({ rb with slots := fun s => if a ≤ s ∧ s < a + n.toNat then src (s - a) else rb.slots s },
        (List.range n.toNat).map (a + ·)) := by
  rw [ktRingbufEnqueueElems, if_pos rfl, ktRingbufElemMoves_eq _ _ _ h]
  dsimp only
  rw [foldl_store_block, map_fst_block]

/-- What `__kt_ringbuf_dequeue_elems` loads. -/
theorem ktRingbufDequeueElems_eq (h : (head &&& (rb.size - 1)).toNat + n.toNat ≤ 2 ^ 32)
    (dst : ℕ → UInt64) :
    ktRingbufDequeueElems rb head dst 8 n =
      let a := (head &&& (rb.size - 1)).toNat
      .ok (fun j => if j < n.toNat then rb.slots (a + j) else dst j,
        (List.range n.toNat).map (a + ·)) := by
  rw [ktRingbufDequeueElems, if_pos rfl, ktRingbufElemMoves_eq _ _ _ h]
  dsimp only
  rw [foldl_load_block, map_fst_block]

/-- **The unrolled copy loops equal the plain loop.** For every ring whose mask is its size less
one, every head and every burst that ends inside the array: the enqueue routine stores entry `j` of
the table in slot `(head & mask) + j`, and the dequeue routine loads entry `j` from there. No other
slot, no other entry and no other field of the ring changes, and the slots of the burst are the only
ones touched. -/
theorem copy_loops_plain (rb : KtRingbuf) (head n : UInt32) (hmask : rb.mask = rb.size - 1)
    (hfits : (head &&& rb.mask).toNat + n.toNat ≤ rb.size.toNat) (table : ℕ → UInt64) :
    (∃ ring, ktRingbufEnqueueElems rb head table 8 n =
        .ok ({ rb with slots := ring }, (List.range n.toNat).map ((head &&& rb.mask).toNat + ·)) ∧
      (∀ j < n.toNat, ring ((head &&& rb.mask).toNat + j) = table j) ∧
      ∀ s, (∀ j < n.toNat, s ≠ (head &&& rb.mask).toNat + j) → ring s = rb.slots s) ∧
    ∃ dst, ktRingbufDequeueElems rb head table 8 n =
        .ok (dst, (List.range n.toNat).map ((head &&& rb.mask).toNat + ·)) ∧
      (∀ j < n.toNat, dst j = rb.slots ((head &&& rb.mask).toNat + j)) ∧
      ∀ j, n.toNat ≤ j → dst j = table j := by
  have hlt := rb.size.toNat_lt
  have hbound : (head &&& rb.mask).toNat + n.toNat ≤ 2 ^ 32 := by omega
  constructor
  · refine ⟨_, ktRingbufEnqueueElems_eq hbound table, ?_, ?_⟩
    · intro j hj
      rw [if_pos ⟨Nat.le_add_right _ _, by omega⟩, Nat.add_sub_cancel_left]
    · intro s hs
      refine if_neg fun hin => hs (s - (head &&& rb.mask).toNat) (by omega) (by omega)
  · rw [hmask] at hbound ⊢
    refine ⟨_, ktRingbufDequeueElems_eq hbound table, ?_, ?_⟩
    · intro j hj
      exact if_pos hj
    · intro j hj
      exact if_neg (not_lt.mpr hj)

/-- Seven elements in a ring of sixteen slots, from a head that has wrapped in the mask. -/
theorem copy_loops_plain_seven :
    ∃ ring, ktRingbufEnqueueElems ⟨16, 1, 15, 15, ⟨21, 21⟩, ⟨20, 20⟩, fun _ => 0⟩ 21
          (fun j => UInt64.ofNat (j + 1)) 8 7 =
        .ok (⟨16, 1, 15, 15, ⟨21, 21⟩, ⟨20, 20⟩, ring⟩, [5, 6, 7, 8, 9, 10, 11]) ∧
      ring 5 = 1 ∧ ring 11 = 7 ∧ ring 12 = 0 := by
  obtain ⟨⟨ring, hring, hin, hout⟩, -⟩ :=
    copy_loops_plain ⟨16, 1, 15, 15, ⟨21, 21⟩, ⟨20, 20⟩, fun _ => 0⟩ 21 7 rfl (by decide)
      (fun j => UInt64.ofNat (j + 1))
  exact ⟨ring, hring, hin 0 (by decide), hin 6 (by decide), hout 12 (by decide)⟩

end routines

end KuberneTSN.Ring
