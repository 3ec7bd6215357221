import KuberneTSN.Queue.Sift

/-!
# What each operation of the priority queue does

One specification for each operation, valid for *every* array, ordered or not, together with what
the operation does to an ordered one:

* `ktPrioQueueDecreaseKey_of_le`, `ktPrioQueueDecreaseKey_spec`;
* `ktPrioQueueInsert_spec`;
* `ktPrioQueueExtractMin_removes`, `ktPrioQueueExtractMin_spec`.
-/

namespace KuberneTSN.Queue

open Lib

variable {q q' : KtPrioQueue} {i : ℕ}

/-- Overwriting the element at a position overwrites its key. -/
theorem key_update (q : KtPrioQueue) (i : ℕ) (nd : KtPqNode) (n : ℕ) :
    KtPrioQueue.key { q with elems := Function.update q.elems i nd, size := n } =
      Function.update q.key i nd.prio.toInt := by
  funext k
  by_cases hk : k = i
  · subst hk
    simp [KtPrioQueue.key]
  · simp [KtPrioQueue.key, Function.update_of_ne hk]

/-! ## `kt_prio_queue_decrease_key` -/

/-- A larger value is refused. -/
theorem ktPrioQueueDecreaseKey_of_gt {v : Int64} (hi : i < q.size) (hv : (q.elems i).prio < v) :
    ktPrioQueueDecreaseKey q i v = some q := by
  unfold ktPrioQueueDecreaseKey
  rw [KtPrioQueue.at?_of_lt hi, Option.bind_eq_bind, Option.bind_some, if_pos hv]

/-- The queue with another priority at position `i`. -/
def KtPrioQueue.setPrio (q : KtPrioQueue) (i : ℕ) (v : Int64) : KtPrioQueue :=
  { q with elems := Function.update q.elems i { q.elems i with prio := v } }

/-- The position at which the sift-up of `kt_prio_queue_decrease_key(q, i, …)` starts: `i` passes
through `int`, and a negative position is left alone like the root. -/
def siftStart (i : ℕ) : ℕ := (wrapInt i).toNat

/-- Positions that are `int`s are kept. -/
theorem siftStart_of_lt (h : i < 2 ^ 31) : siftStart i = i := by
  rw [siftStart, wrapInt_natCast h, Int.toNat_natCast]

/-- The sift-up starts at or before the given position, at an `int`. -/
theorem siftStart_le (i : ℕ) : siftStart i ≤ i ∧ siftStart i < 2 ^ 31 := by
  unfold siftStart wrapInt
  rw [Int.bmod_def]
  split <;> omega

/-- The sift-up from a position that passes through `int`. -/
theorem ktPrioQueueReorder_wrapInt (fuel : ℕ) (q : KtPrioQueue) (i : ℕ) :
    ktPrioQueueReorder (fuel + 1) q (wrapInt i) = ktPrioQueueReorder (fuel + 1) q (siftStart i) := by
  rcases le_or_gt (wrapInt i) 0 with hneg | hpos
  · have hzero : siftStart i = 0 := Int.toNat_of_nonpos hneg
    rw [hzero, ktPrioQueueReorder, ktPrioQueueReorder, if_neg (not_lt.mpr hneg), if_neg (by simp)]
  · rw [siftStart, Int.toNat_of_nonneg hpos.le]

/-- **Decreasing a key** replaces one priority and rearranges the elements; the sift-up carries its
element to the root exactly over a clear path, and keeps the heap order where `i` is an `int`. -/
theorem ktPrioQueueDecreaseKey_of_le {v : Int64} (hi : i < q.size) (hv : v ≤ (q.elems i).prio) :
    ∃ q', ktPrioQueueDecreaseKey q i v = some q' ∧ Rearranged (q.setPrio i v) q' ∧
      (ClearPath (q.setPrio i v).key ((q.setPrio i v).key (siftStart i)) (siftStart i) →
        q'.elems 0 = (q.setPrio i v).elems (siftStart i)) ∧
      (¬ ClearPath (q.setPrio i v).key ((q.setPrio i v).key (siftStart i)) (siftStart i) →
        q'.elems 0 = (q.setPrio i v).elems 0) ∧
      (i < 2 ^ 31 → q.Ordered → q'.Ordered) := by
  obtain ⟨hle, hint⟩ := siftStart_le i
  obtain ⟨q', hq', hre, hclear, hblocked, hord⟩ :=
    ktPrioQueueReorder_spec (q.size + 1) (q.setPrio i v) (siftStart i) (by omega)
      (show siftStart i < q.size by omega) hint
  refine ⟨q', ?_, hre, hclear, hblocked, fun hi31 ho => hord ?_⟩
  · unfold ktPrioQueueDecreaseKey
    rw [KtPrioQueue.at?_of_lt hi, Option.bind_eq_bind, Option.bind_some,
      if_neg (Int64.not_lt.mpr hv), ktPrioQueueReorder_wrapInt]
    exact hq'
  · rw [siftStart_of_lt hi31, KtPrioQueue.setPrio, key_update]
    exact HeapOrdered.upOrder_update ho (Int64.le_iff_toInt_le.mp hv)

/-- What a replaced priority does to the elements. -/
theorem setPrio_pairs (hi : i < q.size) (v : Int64) :
    q.elems i ::ₘ (q.setPrio i v).pairs = { q.elems i with prio := v } ::ₘ q.pairs :=
  entries_update q.elems _ hi

/-- Decreasing a key of a queue whose positions are `int`s. -/
theorem ktPrioQueueDecreaseKey_spec {v : Int64} (hi : i < q.size) (hsize : q.size ≤ 2 ^ 31)
    (hv : v ≤ (q.elems i).prio) :
    ∃ q', ktPrioQueueDecreaseKey q i v = some q' ∧ q'.size = q.size ∧ q'.cap = q.cap ∧
      q.elems i ::ₘ q'.pairs = { q.elems i with prio := v } ::ₘ q.pairs ∧
      (q.Ordered → q'.Ordered) := by
  obtain ⟨q', hq', hre, -, -, hord⟩ := ktPrioQueueDecreaseKey_of_le hi hv
  refine ⟨q', hq', hre.size, hre.cap, ?_, hord (by omega)⟩
  rw [hre.pairs]
  exact setPrio_pairs hi v

/-! ## `kt_prio_queue_insert` -/

/-- A full queue refuses. -/
theorem ktPrioQueueInsert_of_full (h : q.size = q.cap) (prio : Int64) (data : UInt64) :
    ktPrioQueueInsert q prio data = some (-1, q) := if_pos h

/-- No priority exceeds the temporary one of an insertion. -/
theorem le_maxValue (v : Int64) : v ≤ Int64.maxValue :=
  Int64.le_iff_toInt_le.mpr v.toInt_le

/-- **Inserting** adds exactly the given pair, and keeps the heap order. -/
theorem ktPrioQueueInsert_spec (hcap : q.size ≠ q.cap) (hsize : q.size < 2 ^ 31) (prio : Int64)
    (data : UInt64) :
    ∃ q', ktPrioQueueInsert q prio data = some (0, q') ∧ q'.size = q.size + 1 ∧ q'.cap = q.cap ∧
      q'.pairs = ⟨prio, data⟩ ::ₘ q.pairs ∧ (q.Ordered → q'.Ordered) := by
  let grown : KtPrioQueue :=
    { q with
      elems := Function.update q.elems q.size { prio := Int64.maxValue, data := data }
      size := q.size + 1 }
  have hnew : grown.elems q.size = { prio := Int64.maxValue, data := data } :=
    Function.update_self _ _ _
  have hold : entries grown.elems q.size = entries q.elems q.size :=
    entries_congr fun k hk => Function.update_of_ne (by omega) _ _
  obtain ⟨q', hq', hsz, hcp, hpairs, hord⟩ :=
    ktPrioQueueDecreaseKey_spec (q := grown) (i := q.size) (v := prio)
      (show q.size < q.size + 1 by omega) (show q.size + 1 ≤ 2 ^ 31 by omega)
      (by rw [hnew]; exact le_maxValue prio)
  refine ⟨q', ?_, hsz, hcp, ?_, fun ho => hord ?_⟩
  · unfold ktPrioQueueInsert
    rw [if_neg hcap]
    show (ktPrioQueueDecreaseKey grown q.size prio).bind _ = _
    rw [hq', Option.bind_some]
  · have hgrown : grown.pairs = grown.elems q.size ::ₘ q.pairs := by
      unfold KtPrioQueue.pairs
      rw [← hold]
      exact entries_succ _ _
    rw [hgrown, Multiset.cons_swap] at hpairs
    rw [(Multiset.cons_inj_right _).mp hpairs, hnew]
  · -- the temporary priority is at least its parent's
    intro c hc hcn
    show grown.key (parent c) ≤ grown.key c
    have hkey : grown.key = Function.update q.key q.size Int64.maxValue.toInt := key_update q _ _ _
    have hp := parent_lt hc
    have hcn' : c < q.size + 1 := hcn
    rw [hkey, Function.update_of_ne (by omega)]
    by_cases hcs : c = q.size
    · rw [hcs, Function.update_self]
      exact Int64.toInt_le _
    · rw [Function.update_of_ne hcs]
      exact ho c hc (by omega)

/-! ## `kt_prio_queue_extract_min` -/

/-- An empty queue refuses. -/
theorem ktPrioQueueExtractMin_of_empty (h : q.size = 0) (out : Option UInt64) :
    ktPrioQueueExtractMin q out = some (-1, out, q) := if_pos h

/-- The array when the sift-down starts: the last element stands at the root. -/
def KtPrioQueue.shrunk (q : KtPrioQueue) : KtPrioQueue :=
  { q with elems := Function.update q.elems 0 (q.elems (q.size - 1)), size := q.size - 1 }

/-- An extraction is a sift-down from the root. -/
theorem ktPrioQueueExtractMin_eq (h : 0 < q.size) (out : Option UInt64) :
    ktPrioQueueExtractMin q out =
      (ktPrioQueueHeapify (q.shrunk.size + 1) q.shrunk 0).bind fun q' =>
        some (0, out.map fun _ => (q.elems 0).data, q') := by
  unfold ktPrioQueueExtractMin
  rw [if_neg (by omega), KtPrioQueue.at?_of_lt h,
    KtPrioQueue.at?_of_lt (show q.size - 1 < q.size by omega)]
  rfl

/-- The root pair is what the shrunk array lacks. -/
theorem shrunk_pairs (h : 0 < q.size) : q.pairs = q.elems 0 ::ₘ q.shrunk.pairs := by
  have hlast : q.pairs = q.elems (q.size - 1) ::ₘ entries q.elems (q.size - 1) := by
    unfold KtPrioQueue.pairs
    conv_lhs => rw [show q.size = q.size - 1 + 1 by omega]
    exact entries_succ _ _
  rw [hlast]
  by_cases h1 : q.size - 1 = 0
  · show _ = q.elems 0 ::ₘ entries _ (q.size - 1)
    rw [h1]
    rfl
  · exact (entries_update q.elems _ (by omega)).symm

/-- **Extracting** removes exactly the root pair, whose data it hands out. -/
theorem ktPrioQueueExtractMin_removes (h : 0 < q.size) (hsize : q.size ≤ 2 ^ 63)
    (out : Option UInt64) :
    ∃ q', ktPrioQueueExtractMin q out = some (0, out.map fun _ => (q.elems 0).data, q') ∧
      q'.size + 1 = q.size ∧ q'.cap = q.cap ∧ q.pairs = q.elems 0 ::ₘ q'.pairs := by
  have hshrunk : q.shrunk.size = q.size - 1 := rfl
  obtain ⟨q', hq', hre⟩ := ktPrioQueueHeapify_rearranged (q.shrunk.size + 1) q.shrunk 0 (by decide)
    (Nat.zero_le _) (by omega) (by omega)
  refine ⟨q', ?_, ?_, hre.cap, ?_⟩
  · rw [ktPrioQueueExtractMin_eq h, hq', Option.bind_some]
  · rw [hre.size, hshrunk]
    omega
  · rw [hre.pairs]
    exact shrunk_pairs h

/-- Extracting keeps the heap order if and only if the sift-down of the last element meets
`SpineOk`. -/
theorem ktPrioQueueExtractMin_spec (h : 0 < q.size) (hsize : q.size < 2 ^ 31)
    (out : Option UInt64) :
    ∃ q', ktPrioQueueExtractMin q out = some (0, out.map fun _ => (q.elems 0).data, q') ∧
      q'.size + 1 = q.size ∧ q'.cap = q.cap ∧ q.pairs = q.elems 0 ::ₘ q'.pairs ∧
      (q.Ordered →
        (q'.Ordered ↔ SpineOk q.key (q.size - 1) (q.key (q.size - 1)) 0)) := by
  obtain ⟨q', hq', hsz, hcap, hpairs⟩ := ktPrioQueueExtractMin_removes h (by omega) out
  refine ⟨q', hq', hsz, hcap, hpairs, fun ho => ?_⟩
  have hheapify : ktPrioQueueHeapify (q.shrunk.size + 1) q.shrunk 0 = some q' := by
    rw [ktPrioQueueExtractMin_eq h] at hq'
    obtain ⟨q₁, hq₁, heq⟩ := Option.bind_eq_some_iff.mp hq'
    simp only [Option.some.injEq, Prod.mk.injEq, true_and] at heq
    rw [hq₁, heq]
  have hkey : q.shrunk.key = Function.update q.key 0 (q.key (q.size - 1)) := key_update q _ _ _
  have hdown : DownOrder q.shrunk.key q.shrunk.size 0 := by
    rw [hkey]
    exact HeapOrdered.downOrder_update ho _ (show q.size - 1 ≤ q.size by omega)
  rw [ktPrioQueueHeapify_ordered_iff _ _ _ (Nat.zero_le _) (show q.size - 1 < 2 ^ 31 - 1 by omega)
    hheapify hdown, hkey, Function.update_self]
  exact spineOk_congr fun k hk => Function.update_of_ne (by omega) _ _

end KuberneTSN.Queue
