import KuberneTSN.Queue.Ops

/-!
# Changing and deleting keys

* `sift_up_keeps_heap` — insertions and decreased keys leave a heap a heap;
* `ktPrioQueueDeleteKey_of_lt`, `ktPrioQueueDeleteKey_of_le` — what `kt_prio_queue_delete_key`
  removes: it lowers the priority to `INT32_MIN`, although priorities are 64-bit numbers, and then
  extracts whatever stands at the root;
* `delete_key_removes_iff` — so it removes the element it is asked to exactly when that element,
  with the lowered priority, is the one at the root.
-/

namespace KuberneTSN.Queue

open Lib

variable {q : KtPrioQueue} {i : ℕ}

/-- **Sift-up keeps the heap**, for insertions into a queue that is not full and for decreased keys. -/
theorem sift_up_keeps_heap (hord : q.Ordered) (hsize : q.size < 2 ^ 30) :
    (q.size ≠ q.cap → ∀ prio data, ∃ q', ktPrioQueueInsert q prio data = some (0, q') ∧ q'.Ordered) ∧
      ∀ i < q.size, ∀ v, ∃ q', ktPrioQueueDecreaseKey q i v = some q' ∧ q'.Ordered := by
  constructor
  · intro hcap prio data
    obtain ⟨q', hq', -, -, -, hord'⟩ := ktPrioQueueInsert_spec hcap (by omega) prio data
    exact ⟨q', hq', hord' hord⟩
  · intro i hi v
    rcases lt_or_ge (q.elems i).prio.toInt v.toInt with hlt | hle
    · exact ⟨q, ktPrioQueueDecreaseKey_of_gt hi (Int64.lt_iff_toInt_lt.mpr hlt), hord⟩
    · obtain ⟨q', hq', -, -, -, hord'⟩ :=
        ktPrioQueueDecreaseKey_spec hi (by omega) (Int64.le_iff_toInt_le.mpr hle)
      exact ⟨q', hq', hord' hord⟩

/-- A heap of two elements with equal priorities. -/
theorem sift_up_keeps_heap_two :
    ∃ q', ktPrioQueueInsert ⟨fun k => ⟨5, UInt64.ofNat k⟩, 4, 2⟩ (-7) 9 = some (0, q') ∧
      q'.Ordered := by
  have hord : KtPrioQueue.Ordered ⟨fun k => ⟨5, UInt64.ofNat k⟩, 4, 2⟩ := fun _ _ _ => le_rfl
  exact (sift_up_keeps_heap hord (by decide)).1 (by decide) (-7) 9

/-! ## `kt_prio_queue_delete_key` -/

/-- The priority that `kt_prio_queue_delete_key` lowers a key to. -/
def keySentinel : Int64 := Int32.minValue.toInt64

/-- A priority below `INT32_MIN` is not lowered: the element at the root is removed in its place. -/
theorem ktPrioQueueDeleteKey_of_lt (hi : i < q.size) (hsize : q.size ≤ 2 ^ 63)
    (hlt : (q.elems i).prio < keySentinel) :
    ∃ q', ktPrioQueueDeleteKey q i = some q' ∧ q.pairs = q.elems 0 ::ₘ q'.pairs := by
  obtain ⟨q', hq', -, -, hpairs⟩ :=
    ktPrioQueueExtractMin_removes (Nat.zero_lt_of_lt hi) hsize (some 0)
  refine ⟨q', ?_, hpairs⟩
  unfold ktPrioQueueDeleteKey
  rw [show Int32.minValue.toInt64 = keySentinel from rfl, ktPrioQueueDecreaseKey_of_gt hi hlt,
    Option.bind_eq_bind, Option.bind_some, hq']
  rfl

/-- The lowered element comes to the root: over a clear path where its position is an `int`, and
otherwise only if an equal pair is carried there or stands there already. -/
def SentinelOnTop (q : KtPrioQueue) (i : ℕ) : Prop :=
  let lowered := q.setPrio i keySentinel
  let start := siftStart i
  (ClearPath lowered.key (lowered.key start) start → lowered.elems start = lowered.elems i) ∧
    (¬ ClearPath lowered.key (lowered.key start) start → lowered.elems 0 = lowered.elems i)

/-- Any other priority is lowered, and the element at the root after the sift-up is removed. -/
theorem ktPrioQueueDeleteKey_of_le (hi : i < q.size) (hsize : q.size ≤ 2 ^ 63)
    (hle : keySentinel ≤ (q.elems i).prio) :
    ∃ q' root, ktPrioQueueDeleteKey q i = some q' ∧
      (q.setPrio i keySentinel).pairs = root ::ₘ q'.pairs ∧
      (root = (q.setPrio i keySentinel).elems i ↔ SentinelOnTop q i) := by
  obtain ⟨q₁, hq₁, hre, hclear, hblocked, -⟩ := ktPrioQueueDecreaseKey_of_le hi hle
  have hsize₁ : q₁.size = q.size := hre.size
  obtain ⟨q', hq', -, -, hpairs⟩ :=
    ktPrioQueueExtractMin_removes (q := q₁) (by omega) (by omega) (some 0)
  refine ⟨q', q₁.elems 0, ?_, hre.pairs.symm.trans hpairs, ?_⟩
  · unfold ktPrioQueueDeleteKey
    rw [show Int32.minValue.toInt64 = keySentinel from rfl, hq₁, Option.bind_eq_bind,
      Option.bind_some, hq']
    rfl
  · constructor
    · intro hroot
      exact ⟨fun h => (hclear h).symm.trans hroot, fun h => (hblocked h).symm.trans hroot⟩
    · rintro ⟨hpath, hnopath⟩
      by_cases hc : ClearPath (q.setPrio i keySentinel).key
          ((q.setPrio i keySentinel).key (siftStart i)) (siftStart i)
      · exact (hclear hc).trans (hpath hc)
      · exact (hblocked hc).trans (hnopath hc)

/-- **When deleting a key removes that element.** For every array that fits the address space: if
the priority is below `INT32_MIN`, exactly when the root holds the same pair; and otherwise exactly
when the lowered element comes to the root. -/
theorem delete_key_removes_iff (hi : i < q.size) (hbytes : 16 * q.size ≤ 2 ^ 64) :
    (∃ q', ktPrioQueueDeleteKey q i = some q' ∧ q.pairs = q.elems i ::ₘ q'.pairs) ↔
      if (q.elems i).prio < keySentinel then q.elems 0 = q.elems i else SentinelOnTop q i := by
  split_ifs with hlt
  · obtain ⟨q', hq', hpairs⟩ := ktPrioQueueDeleteKey_of_lt hi (by omega) hlt
    rw [hq', hpairs]
    simp only [Option.some.injEq, exists_eq_left', Multiset.cons_inj_left]
  · obtain ⟨q', root, hq', hpairs, hroot⟩ :=
      ktPrioQueueDeleteKey_of_le hi (by omega) (Int64.not_lt.mp hlt)
    have hset : q.elems i ::ₘ root ::ₘ q'.pairs =
        (q.setPrio i keySentinel).elems i ::ₘ q.pairs := by
      rw [← hpairs, setPrio_pairs hi]
      congr 1
      exact (Function.update_self i _ q.elems).symm
    rw [← hroot, hq']
    simp only [Option.some.injEq, exists_eq_left']
    constructor
    · intro hremoved
      rw [hremoved, Multiset.cons_swap, Multiset.cons_inj_left] at hset
      exact hset
    · intro heq
      rw [heq, Multiset.cons_swap, Multiset.cons_inj_right] at hset
      exact hset.symm

/-- The last of three elements with the priorities `0`, `1` and `2` can be deleted. -/
theorem delete_key_removes_iff_three :
    ∃ q', ktPrioQueueDeleteKey ⟨fun k => ⟨Int64.ofNat k, 0⟩, 3, 3⟩ 2 = some q' ∧
      KtPrioQueue.pairs ⟨fun k => ⟨Int64.ofNat k, 0⟩, 3, 3⟩ = ⟨2, 0⟩ ::ₘ q'.pairs := by
  refine (delete_key_removes_iff (q := ⟨fun k => ⟨Int64.ofNat k, 0⟩, 3, 3⟩) (i := 2) (by decide)
    (by decide)).mpr ?_
  rw [if_neg (by decide)]
  have hstart : siftStart 2 = 2 := siftStart_of_lt (by decide)
  refine ⟨fun _ => by rw [hstart], fun hblocked => absurd ?_ hblocked⟩
  rw [hstart, clearPath_of_pos (by decide)]
  exact ⟨by decide, clearPath_zero _ _⟩

/-- Two elements with the priorities `INT32_MIN - 2` and `INT32_MIN - 1`: deleting the second one
removes the first. -/
theorem delete_key_removes_other :
    ∃ q q' : KtPrioQueue, q.size = 2 ∧ q.elems 0 = ⟨-2147483650, 10⟩ ∧
      q.elems 1 = ⟨-2147483649, 11⟩ ∧ ktPrioQueueDeleteKey q 1 = some q' ∧
      q.pairs = q.elems 0 ::ₘ q'.pairs ∧ q.pairs ≠ q.elems 1 ::ₘ q'.pairs := by
  let q : KtPrioQueue := ⟨fun k => if k = 0 then ⟨-2147483650, 10⟩ else ⟨-2147483649, 11⟩, 2, 2⟩
  obtain ⟨q', hq', hpairs⟩ := ktPrioQueueDeleteKey_of_lt (q := q) (i := 1) (by decide) (by decide)
    (by decide)
  refine ⟨q, q', rfl, rfl, rfl, hq', hpairs, fun hother => ?_⟩
  rw [hpairs, Multiset.cons_inj_left] at hother
  exact absurd hother (by decide)

end KuberneTSN.Queue
