import KuberneTSN.Queue.Basic

/-!
# What the two sift loops do

One specification for each loop, from which everything about the queue's operations follows:

* `ktPrioQueueReorder_spec` — started at a position below `size`, the sift-up returns, touches no
  position at or beyond `size`, rearranges the elements, and repairs the one suspended edge. It
  ends at the root exactly when the path there is clear (`ClearPath`).
* `ktPrioQueueHeapify_rearranged` — the sift-down returns, touches no position at or beyond `size`
  and rearranges the elements.
* `ktPrioQueueHeapify_ordered_iff` — it repairs the order *if and only if* `SpineOk` holds: the
  code forgets the left child whenever the right one is not smaller still, so it only ever descends
  to the right and may stop above a left child that is smaller.
-/

namespace KuberneTSN.Queue

open Lib

variable {q q' : KtPrioQueue} {i n : ℕ}

/-! ## Positions through `int` -/

/-- The parent of a position, computed in `int`. -/
theorem ktPrioQueueParent_eq (h₀ : 0 < i) (h : i < 2 ^ 31) : ktPrioQueueParent i = parent i := by
  have hw : wrapInt ((i : ℤ) - 1) = ((i - 1 : ℕ) : ℤ) := by
    rw [wrapInt_of_range (by omega) (by omega)]
    omega
  have hd : (((i - 1 : ℕ) : ℤ)).tdiv 2 = ((parent i : ℕ) : ℤ) := by
    unfold parent
    rw [Int.tdiv_eq_ediv_of_nonneg (by omega)]
    omega
  unfold ktPrioQueueParent
  rw [hw, hd, sizeT_natCast]
  have := parent_lt h₀
  omega

/-- A child position computed in `int` is an element of the array exactly when it should be and is
an `int`. -/
theorem sizeT_wrapInt_lt_iff {z : ℕ} (hz : z < 2 ^ 32) (hn : n ≤ 2 ^ 63) :
    sizeT (wrapInt z) < n ↔ z < min n (2 ^ 31) := by
  by_cases h : z < 2 ^ 31
  · rw [wrapInt_natCast h, sizeT_natCast (by omega)]
    omega
  · have := le_sizeT_wrapInt (show (2 : ℤ) ^ 31 ≤ z by omega) (by omega)
    omega

/-- The left child of a position, where it is an element. -/
theorem ktPrioQueueLeft_lt_iff (hi : i < 2 ^ 31 - 1) (hn : n ≤ 2 ^ 63) :
    ktPrioQueueLeft (wrapInt i) < n ↔ 2 * i + 1 < min n (2 ^ 31) := by
  have hcast : (2 * (i : ℤ) + 1) = ((2 * i + 1 : ℕ) : ℤ) := by push_cast; ring
  unfold ktPrioQueueLeft
  rw [wrapInt_natCast (by omega), hcast, sizeT_wrapInt_lt_iff (by omega) hn]

/-- The right child of a position, where it is an element. -/
theorem ktPrioQueueRight_lt_iff (hi : i < 2 ^ 31 - 1) (hn : n ≤ 2 ^ 63) :
    ktPrioQueueRight (wrapInt i) < n ↔ 2 * i + 2 < min n (2 ^ 31) := by
  have hcast : (2 * (i : ℤ) + 2) = ((2 * i + 2 : ℕ) : ℤ) := by push_cast; ring
  unfold ktPrioQueueRight
  rw [wrapInt_natCast (by omega), hcast, sizeT_wrapInt_lt_iff (by omega) hn]

/-- The value of the left child of a position. -/
theorem ktPrioQueueLeft_eq (hi : 2 * i + 1 < 2 ^ 31) : ktPrioQueueLeft (wrapInt i) = 2 * i + 1 := by
  have hcast : (2 * (i : ℤ) + 1) = ((2 * i + 1 : ℕ) : ℤ) := by push_cast; ring
  unfold ktPrioQueueLeft
  rw [wrapInt_natCast (by omega), hcast, wrapInt_natCast hi, sizeT_natCast (by omega)]

/-- The value of the right child of a position. -/
theorem ktPrioQueueRight_eq (hi : 2 * i + 2 < 2 ^ 31) :
    ktPrioQueueRight (wrapInt i) = 2 * i + 2 := by
  have hcast : (2 * (i : ℤ) + 2) = ((2 * i + 2 : ℕ) : ℤ) := by push_cast; ring
  unfold ktPrioQueueRight
  rw [wrapInt_natCast (by omega), hcast, wrapInt_natCast hi, sizeT_natCast (by omega)]

/-! ## Elements, keys and rearrangements -/

/-- The multiset of `(prio, data)` pairs in the queue. -/
def KtPrioQueue.pairs (q : KtPrioQueue) : Multiset KtPqNode := entries q.elems q.size

/-- The priority at a position, as an integer. -/
def KtPrioQueue.key (q : KtPrioQueue) (k : ℕ) : ℤ := (q.elems k).prio.toInt

/-- The queue is a min heap: every element's priority is at least its parent's. -/
def KtPrioQueue.Ordered (q : KtPrioQueue) : Prop := HeapOrdered q.key q.size

/-- `q'` holds the elements of `q` in some order. -/
structure Rearranged (q q' : KtPrioQueue) : Prop where
  size : q'.size = q.size
  cap : q'.cap = q.cap
  pairs : q'.pairs = q.pairs

/-- A queue is a rearrangement of itself. -/
theorem Rearranged.refl (q : KtPrioQueue) : Rearranged q q := ⟨rfl, rfl, rfl⟩

/-- Rearrangements compose. -/
theorem Rearranged.trans {q'' : KtPrioQueue} (h : Rearranged q q') (h' : Rearranged q' q'') :
    Rearranged q q'' :=
  ⟨h'.size.trans h.size, h'.cap.trans h.cap, h'.pairs.trans h.pairs⟩

/-- Reading below `size`. -/
theorem KtPrioQueue.at?_of_lt (h : i < q.size) : q.at? i = some (q.elems i) := if_pos h

/-- The swap of the source is a transposition of the array. -/
theorem ktPrioQueueSwap_elems (q : KtPrioQueue) (x y : ℕ) :
    (ktPrioQueueSwap q x y).elems = q.elems ∘ Equiv.swap x y := by
  rw [Equiv.swap_comm, Equiv.comp_swap_eq_update]
  rfl

/-- A swap transposes the keys. -/
theorem ktPrioQueueSwap_key (q : KtPrioQueue) (x y : ℕ) :
    (ktPrioQueueSwap q x y).key = q.key ∘ Equiv.swap x y := by
  funext k
  simp [KtPrioQueue.key, ktPrioQueueSwap_elems]

/-- A swap below `size` rearranges the elements. -/
theorem rearranged_swap {x y : ℕ} (hx : x < q.size) (hy : y < q.size) :
    Rearranged q (ktPrioQueueSwap q x y) where
  size := rfl
  cap := rfl
  pairs := by
    unfold KtPrioQueue.pairs
    rw [ktPrioQueueSwap_elems]
    exact entries_swap q.elems hx hy

/-! ## Sift-up -/

/-- Every position above `i` on the way to the root has a key larger than `x`: an element of key `x`
that starts at `i` is carried to the root. -/
def ClearPath (key : ℕ → ℤ) (x : ℤ) (i : ℕ) : Prop :=
  if 0 < i then x < key (parent i) ∧ ClearPath key x (parent i) else True
termination_by i
decreasing_by exact parent_lt (by assumption)

/-- The path above the root. -/
theorem clearPath_zero (key : ℕ → ℤ) (x : ℤ) : ClearPath key x 0 := by
  rw [ClearPath, if_neg (lt_irrefl 0)]
  trivial

/-- The path above another position begins with its parent. -/
theorem clearPath_of_pos {key : ℕ → ℤ} {x : ℤ} (h : 0 < i) :
    ClearPath key x i ↔ x < key (parent i) ∧ ClearPath key x (parent i) := by
  conv_lhs => rw [ClearPath, if_pos h]

/-- The path only reads the array before its start. -/
theorem clearPath_congr {key key' : ℕ → ℤ} {x : ℤ} (h : ∀ k, k < i → key k = key' k) :
    ClearPath key x i ↔ ClearPath key' x i := by
  induction i using Nat.strongRecOn with
  | ind i ih =>
      rcases Nat.eq_zero_or_pos i with rfl | hpos
      · exact iff_of_true (clearPath_zero key x) (clearPath_zero key' x)
      · have hp := parent_lt hpos
        rw [clearPath_of_pos hpos, clearPath_of_pos hpos, h _ hp,
          ih _ hp fun k hk => h k (hk.trans hp)]

/-- **The sift-up loop**: it returns, it rearranges the elements, it carries the element to the root
exactly over a clear path, and it repairs the edge above its starting position. -/
theorem ktPrioQueueReorder_spec (fuel : ℕ) (q : KtPrioQueue) (i : ℕ) (hfuel : i < fuel)
    (hi : i < q.size) (hint : i < 2 ^ 31) :
    ∃ q', ktPrioQueueReorder fuel q i = some q' ∧ Rearranged q q' ∧
      (ClearPath q.key (q.key i) i → q'.elems 0 = q.elems i) ∧
      (¬ ClearPath q.key (q.key i) i → q'.elems 0 = q.elems 0) ∧
      (UpOrder q.key q.size i → q'.Ordered) := by
  induction fuel generalizing q i with
  | zero => omega
  | succ fuel ih =>
      rcases Nat.eq_zero_or_pos i with rfl | hpos
      · refine ⟨q, by simp [ktPrioQueueReorder], Rearranged.refl q, fun _ => rfl, fun _ => rfl,
          fun ho => ?_⟩
        exact ho.heapOrdered fun h => absurd h (by omega)
      · have hp := parent_lt hpos
        have hsz : sizeT i = i := sizeT_natCast (by omega)
        have hpar : ktPrioQueueParent i = parent i := ktPrioQueueParent_eq hpos hint
        have hpos' : (0 : ℤ) < i := by omega
        have hstep : ktPrioQueueReorder (fuel + 1) q i =
            if (q.elems i).prio < (q.elems (parent i)).prio then
              ktPrioQueueReorder fuel (ktPrioQueueSwap q i (parent i)) (parent i)
            else some q := by
          rw [ktPrioQueueReorder, if_pos hpos', hsz, hpar, KtPrioQueue.at?_of_lt hi,
            KtPrioQueue.at?_of_lt (show parent i < q.size by omega),
            wrapInt_natCast (show parent i < 2 ^ 31 by omega)]
          rfl
        rw [hstep, clearPath_of_pos hpos]
        split_ifs with hlt
        · have hswap := rearranged_swap hi (show parent i < q.size by omega)
          obtain ⟨q', hq', hre, hclear, hblocked, hord⟩ :=
            ih (ktPrioQueueSwap q i (parent i)) (parent i) (by omega)
              (by rw [hswap.size]; omega) (by omega)
          have hkey : q.key i < q.key (parent i) := Int64.lt_iff_toInt_lt.mp hlt
          have htop : (ktPrioQueueSwap q i (parent i)).elems (parent i) = q.elems i := by
            rw [ktPrioQueueSwap_elems, Function.comp_apply, Equiv.swap_apply_right]
          -- the swap leaves the path above the parent as it was
          have hpath : ClearPath (ktPrioQueueSwap q i (parent i)).key
              ((ktPrioQueueSwap q i (parent i)).key (parent i)) (parent i) ↔
                ClearPath q.key (q.key i) (parent i) := by
            rw [ktPrioQueueSwap_key, Function.comp_apply, Equiv.swap_apply_right]
            exact clearPath_congr fun k hk => by
              rw [Function.comp_apply, Equiv.swap_apply_of_ne_of_ne (by omega) (by omega)]
          rw [hpath] at hclear hblocked
          refine ⟨q', hq', hswap.trans hre, fun h => (hclear h.2).trans htop, fun h => ?_,
            fun ho => hord ?_⟩
          · have hnot : ¬ ClearPath q.key (q.key i) (parent i) := fun h' => h ⟨hkey, h'⟩
            have hroot : parent i ≠ 0 := fun h0 => hnot (h0 ▸ clearPath_zero _ _)
            rw [hblocked hnot, ktPrioQueueSwap_elems, Function.comp_apply,
              Equiv.swap_apply_of_ne_of_ne (by omega) hroot.symm]
          · rw [ktPrioQueueSwap_key, hswap.size]
            exact ho.swap hpos hi hkey
        · have hkey : q.key (parent i) ≤ q.key i :=
            Int64.le_iff_toInt_le.mp (Int64.not_lt.mp hlt)
          refine ⟨q, rfl, Rearranged.refl q, fun h => absurd h.1 (not_lt.mpr hkey), fun _ => rfl,
            fun ho => ho.heapOrdered fun _ => hkey⟩

/-! ## Sift-down -/

/-- The walk of the sift-down over the array, for an element of key `x` that starts at `i`: as long
as the right child is smaller than the left one and than `x`, go there; where the walk stops, the
left child must not be smaller than `x`. -/
def SpineOk (key : ℕ → ℤ) (n : ℕ) (x : ℤ) (i : ℕ) : Prop :=
  if 2 * i + 2 < n ∧ key (2 * i + 2) < key (2 * i + 1) ∧ key (2 * i + 2) < x then
    SpineOk key n x (2 * i + 2)
  else 2 * i + 1 < n → x ≤ key (2 * i + 1)
termination_by n - i

/-- The walk only reads the array below its start. -/
theorem spineOk_congr {key key' : ℕ → ℤ} {x : ℤ} (h : ∀ k, i < k → key k = key' k) :
    SpineOk key n x i ↔ SpineOk key' n x i := by
  induction i using SpineOk.induct key n x with
  | case1 i hc ih =>
      rw [SpineOk.eq_def key, SpineOk.eq_def key', ← h (2 * i + 1) (by omega),
        ← h (2 * i + 2) (by omega), if_pos hc, if_pos hc]
      exact ih fun k hk => h k (by omega)
  | case2 i hc =>
      rw [SpineOk.eq_def key, SpineOk.eq_def key', ← h (2 * i + 1) (by omega),
        ← h (2 * i + 2) (by omega), if_neg hc, if_neg hc]

/-- What one `if`/`else` of the sift-down chooses. -/
theorem ktPrioQueueHeapifyPick_eq {minIdx child : ℕ} (h : child < q.size → minIdx < q.size) :
    ktPrioQueueHeapifyPick q i minIdx child =
      some (if child < q.size ∧ q.key child < q.key minIdx then child else i) := by
  unfold ktPrioQueueHeapifyPick
  by_cases hc : child < q.size
  · rw [if_pos hc, KtPrioQueue.at?_of_lt hc, KtPrioQueue.at?_of_lt (h hc)]
    simp only [Option.bind_eq_bind, Option.bind_some, hc, true_and, Int64.lt_iff_toInt_lt]
    rfl
  · rw [if_neg hc, if_neg fun h => hc h.1]

/-- **The choice of the sift-down**: the right child when it is smaller than both the left one and
the element itself, and the element's own position in every other case — also when only the left
child is smaller. -/
theorem ktPrioQueueHeapifyMinIdx_eq (hi : i < 2 ^ 31 - 1) (hsize : q.size ≤ 2 ^ 63) :
    ktPrioQueueHeapifyMinIdx q i =
      some (if 2 * i + 2 < min q.size (2 ^ 31) ∧ q.key (2 * i + 2) < q.key (2 * i + 1) ∧
          q.key (2 * i + 2) < q.key i then 2 * i + 2 else i) := by
  have hleft := ktPrioQueueLeft_lt_iff hi hsize
  have hright := ktPrioQueueRight_lt_iff hi hsize
  have hleq : 2 * i + 1 < min q.size (2 ^ 31) → ktPrioQueueLeft (wrapInt i) = 2 * i + 1 :=
    fun h => ktPrioQueueLeft_eq (by omega)
  have hreq : 2 * i + 2 < min q.size (2 ^ 31) → ktPrioQueueRight (wrapInt i) = 2 * i + 2 :=
    fun h => ktPrioQueueRight_eq (by omega)
  unfold ktPrioQueueHeapifyMinIdx
  generalize ktPrioQueueLeft (wrapInt i) = left at *
  generalize ktPrioQueueRight (wrapInt i) = right at *
  dsimp only
  rw [ktPrioQueueHeapifyPick_eq (fun h => by omega), Option.bind_eq_bind, Option.bind_some,
    ktPrioQueueHeapifyPick_eq (fun h => by split_ifs <;> omega)]
  by_cases hr : 2 * i + 2 < min q.size (2 ^ 31)
  · obtain rfl := hleq (by omega)
    obtain rfl := hreq hr
    have hl : 2 * i + 1 < q.size := by omega
    have hr' : 2 * i + 2 < q.size := by omega
    simp only [hl, hr, hr', true_and]
    -- the left child only matters as the bound the right one is compared with
    by_cases hli : q.key (2 * i + 1) < q.key i
    · rw [if_pos hli]
      by_cases hrl : q.key (2 * i + 2) < q.key (2 * i + 1)
      · rw [if_pos hrl, if_pos ⟨hrl, by omega⟩]
      · rw [if_neg hrl, if_neg fun h => hrl h.1]
    · rw [if_neg hli]
      by_cases hri : q.key (2 * i + 2) < q.key i
      · rw [if_pos hri, if_pos ⟨by omega, hri⟩]
      · rw [if_neg hri, if_neg fun h => hri h.2]
  · rw [if_neg fun h => hr (hright.mp h.1), if_neg fun h => hr h.1]

/-- One level of the sift-down. -/
theorem ktPrioQueueHeapify_step (fuel : ℕ) (hi : i < 2 ^ 31 - 1) (hsize : q.size ≤ 2 ^ 63) :
    ktPrioQueueHeapify (fuel + 1) q i =
      if 2 * i + 2 < min q.size (2 ^ 31) ∧ q.key (2 * i + 2) < q.key (2 * i + 1) ∧
          q.key (2 * i + 2) < q.key i then
        ktPrioQueueHeapify fuel (ktPrioQueueSwap q i (2 * i + 2)) (2 * i + 2)
      else some q := by
  rw [ktPrioQueueHeapify, ktPrioQueueHeapifyMinIdx_eq hi hsize]
  split_ifs with hc
  · exact if_pos (show 2 * i + 2 ≠ i by omega)
  · exact if_neg (fun h => h rfl)

/-- **The sift-down loop** returns and rearranges the elements. -/
theorem ktPrioQueueHeapify_rearranged (fuel : ℕ) (q : KtPrioQueue) (i : ℕ) (hi : i < 2 ^ 31 - 1)
    (hle : i ≤ q.size) (hfuel : q.size < fuel + i) (hsize : q.size ≤ 2 ^ 63) :
    ∃ q', ktPrioQueueHeapify fuel q i = some q' ∧ Rearranged q q' := by
  induction fuel generalizing q i with
  | zero => omega
  | succ fuel ih =>
      rw [ktPrioQueueHeapify_step fuel hi hsize]
      split_ifs with hc
      · have hr := hc.1
        have hswap := rearranged_swap (show i < q.size by omega) (show 2 * i + 2 < q.size by omega)
        obtain ⟨q', hq', hre⟩ := ih (ktPrioQueueSwap q i (2 * i + 2)) (2 * i + 2) (by omega)
          (by rw [hswap.size]; omega) (by rw [hswap.size]; omega) (by rw [hswap.size]; exact hsize)
        exact ⟨q', hq', hswap.trans hre⟩
      · exact ⟨q, rfl, Rearranged.refl q⟩

/-- **When the sift-down restores the order**: where the order holds up to the edges below its
start, it does if and only if the walk meets `SpineOk`. -/
theorem ktPrioQueueHeapify_ordered_iff (fuel : ℕ) (q : KtPrioQueue) (i : ℕ) (hle : i ≤ q.size)
    (hsize : q.size < 2 ^ 31 - 1) (hq' : ktPrioQueueHeapify fuel q i = some q')
    (ho : DownOrder q.key q.size i) : q'.Ordered ↔ SpineOk q.key q.size (q.key i) i := by
  induction fuel generalizing q i with
  | zero => cases hq'
  | succ fuel ih =>
      have hbound : min q.size (2 ^ 31) = q.size := min_eq_left (by omega)
      rw [ktPrioQueueHeapify_step fuel (by omega) (by omega), hbound] at hq'
      rw [SpineOk]
      split_ifs at hq' ⊢ with hc
      · obtain ⟨hr, hrl, hri⟩ := hc
        have hswap := rearranged_swap (show i < q.size by omega) hr
        have hpar : parent (2 * i + 2) = i := (parent_eq_iff (by omega)).mpr (Or.inr rfl)
        have hdown := ho.swap (show 0 < 2 * i + 2 by omega) hr hpar hri (by
          intro d hd _ hpd
          rcases (parent_eq_iff hd).mp hpd with rfl | rfl
          · exact hrl.le
          · exact le_rfl)
        rw [← ktPrioQueueSwap_key] at hdown
        rw [ih (ktPrioQueueSwap q i (2 * i + 2)) (2 * i + 2) (by rw [hswap.size]; omega)
          (by rw [hswap.size]; exact hsize) hq' (by rw [hswap.size]; exact hdown), hswap.size,
          ktPrioQueueSwap_key]
        simp only [Function.comp_apply, Equiv.swap_apply_right]
        exact spineOk_congr fun k hk => by
          rw [Function.comp_apply, Equiv.swap_apply_of_ne_of_ne (by omega) (by omega)]
      · cases hq'
        unfold KtPrioQueue.Ordered
        rw [ho.heapOrdered_iff]
        constructor
        · intro h hl
          exact h (2 * i + 1) (by omega) hl ((parent_eq_iff (by omega)).mpr (Or.inl rfl))
        · intro h c hc0 hcn hpc
          rcases (parent_eq_iff hc0).mp hpc with rfl | rfl
          · exact h hcn
          · have hl := h (by omega)
            by_contra hlt
            exact hc ⟨hcn, by omega, by omega⟩

end KuberneTSN.Queue
