import KuberneTSN.Queue.Ops
import KuberneTSN.Lib.Run

/-!
# The priority queue conserves its entries

The operations in sequence are the step function `pqStep`. Over a run, every pair is accounted for:
`inserted` and `extracted` say which pair a call brings in or takes out, `loweredFrom` and
`loweredTo` which pair a `kt_prio_queue_decrease_key` exchanges for which. `pqStep_balance` is the
balance of one call; the balance of a run follows by `Run.balance`.

`ktPrioQueue_conserves` collects what the operations do to an *arbitrary* array, with the results
over runs.
-/

namespace KuberneTSN.Queue

open Lib

variable {q q' : KtPrioQueue}

/-- A call on the priority queue. -/
inductive PqOp where
  | insert (prio : Int64) (data : UInt64)
  | extractMin (out : Option UInt64)
  | decreaseKey (i : ℕ) (newVal : Int64)

/-- The queue after a call. `kt_prio_queue_decrease_key` is only called on a position below
`size`. -/
def pqStep (q : KtPrioQueue) : PqOp → Option KtPrioQueue
  | .insert prio data => (ktPrioQueueInsert q prio data).map Prod.snd
  | .extractMin out => (ktPrioQueueExtractMin q out).map fun r => r.2.2
  | .decreaseKey i newVal => ktPrioQueueDecreaseKey q i newVal

/-- The pair a call adds. -/
def inserted : KtPrioQueue × PqOp → Multiset KtPqNode
  | (q, .insert prio data) => if q.size = q.cap then 0 else {⟨prio, data⟩}
  | _ => 0

/-- The pair a call takes out. -/
def extracted : KtPrioQueue × PqOp → Multiset KtPqNode
  | (q, .extractMin _) => if q.size = 0 then 0 else {q.elems 0}
  | _ => 0

/-- The pair whose priority a call lowers, before. -/
def loweredFrom : KtPrioQueue × PqOp → Multiset KtPqNode
  | (q, .decreaseKey i newVal) => if newVal > (q.elems i).prio then 0 else {q.elems i}
  | _ => 0

/-- The pair whose priority a call lowers, after. -/
def loweredTo : KtPrioQueue × PqOp → Multiset KtPqNode
  | (q, .decreaseKey i newVal) =>
      if newVal > (q.elems i).prio then 0 else {{ q.elems i with prio := newVal }}
  | _ => 0

/-- The bound under which the index arithmetic in `int` is exact. -/
def Bounded (q : KtPrioQueue) : Prop := q.size ≤ q.cap ∧ q.cap < 2 ^ 30

/-- Only positions below `size` have their key decreased. -/
theorem lt_size_of_decreaseKey {i : ℕ} {v : Int64} (h : ktPrioQueueDecreaseKey q i v = some q') :
    i < q.size := by
  by_contra hi
  unfold ktPrioQueueDecreaseKey KtPrioQueue.at? at h
  rw [if_neg hi] at h
  cases h

/-- **The balance of one call**, and the bound it keeps. -/
theorem pqStep_balance (q : KtPrioQueue) (op : PqOp) (q' : KtPrioQueue) (hb : Bounded q)
    (h : pqStep q op = some q') :
    Bounded q' ∧ q'.pairs + (extracted (q, op) + loweredFrom (q, op)) =
      q.pairs + (inserted (q, op) + loweredTo (q, op)) := by
  obtain ⟨hsize, hcap⟩ := hb
  cases op with
  | insert prio data =>
      simp only [pqStep, Option.map_eq_some_iff] at h
      obtain ⟨r, hr, rfl⟩ := h
      by_cases hfull : q.size = q.cap
      · rw [ktPrioQueueInsert_of_full hfull] at hr
        cases hr
        exact ⟨⟨hsize, hcap⟩, by simp [inserted, extracted, loweredFrom, loweredTo, hfull]⟩
      · obtain ⟨q₁, hq₁, hsz, hcp, hpairs, -⟩ :=
          ktPrioQueueInsert_spec hfull (by omega) prio data
        rw [hq₁] at hr
        cases hr
        dsimp only
        refine ⟨⟨by omega, by omega⟩, ?_⟩
        simp only [inserted, extracted, loweredFrom, loweredTo, if_neg hfull, add_zero, hpairs]
        rw [add_comm, Multiset.singleton_add]
  | extractMin out =>
      simp only [pqStep, Option.map_eq_some_iff] at h
      obtain ⟨r, hr, rfl⟩ := h
      by_cases hempty : q.size = 0
      · rw [ktPrioQueueExtractMin_of_empty hempty] at hr
        cases hr
        exact ⟨⟨hsize, hcap⟩, by simp [inserted, extracted, loweredFrom, loweredTo, hempty]⟩
      · obtain ⟨q₁, hq₁, hsz, hcp, hpairs, -⟩ :=
          ktPrioQueueExtractMin_spec (q := q) (by omega) (by omega) out
        rw [hq₁] at hr
        cases hr
        dsimp only
        refine ⟨⟨by omega, by omega⟩, ?_⟩
        simp only [inserted, extracted, loweredFrom, loweredTo, if_neg hempty, add_zero, hpairs]
        rw [add_comm, Multiset.singleton_add]
  | decreaseKey i v =>
      have hi := lt_size_of_decreaseKey h
      by_cases hv : v > (q.elems i).prio
      · simp only [pqStep] at h
        rw [ktPrioQueueDecreaseKey_of_gt hi hv] at h
        cases h
        exact ⟨⟨hsize, hcap⟩, by simp only [inserted, extracted, loweredFrom, loweredTo, if_pos hv]⟩
      · obtain ⟨q₁, hq₁, hsz, hcp, hpairs, -⟩ :=
          ktPrioQueueDecreaseKey_spec hi (by omega) (Int64.not_lt.mp hv)
        simp only [pqStep] at h
        rw [hq₁] at h
        cases h
        refine ⟨⟨by omega, by omega⟩, ?_⟩
        simp only [inserted, extracted, loweredFrom, loweredTo, if_neg hv, zero_add]
        rw [add_comm, Multiset.singleton_add, add_comm, Multiset.singleton_add]
        exact hpairs

/-- Lowering a key keeps the data. -/
theorem map_data_lowered (p : KtPrioQueue × PqOp) :
    (loweredFrom p).map KtPqNode.data = (loweredTo p).map KtPqNode.data := by
  rcases p with ⟨q, _ | _ | ⟨i, v⟩⟩
  · rfl
  · rfl
  · by_cases hv : v > (q.elems i).prio
    · simp [loweredFrom, loweredTo, hv]
    · simp [loweredFrom, loweredTo, hv]

/-- Lowering a key keeps the number of elements. -/
theorem card_lowered (p : KtPrioQueue × PqOp) : (loweredFrom p).card = (loweredTo p).card := by
  have h := congrArg Multiset.card (map_data_lowered p)
  simpa using h

/-- The data in the queue over a run: what came in and was not taken out. -/
theorem run_data_balance {tr : List (KtPrioQueue × PqOp)} (hb : Bounded q)
    (h : Run pqStep q tr q') :
    q'.pairs.map KtPqNode.data + (tr.map fun p => (extracted p).map KtPqNode.data).sum =
      q.pairs.map KtPqNode.data + (tr.map fun p => (inserted p).map KtPqNode.data).sum := by
  refine h.balance (I := Bounded) (fun q => q.pairs.map KtPqNode.data)
    (fun p => (inserted p).map KtPqNode.data) (fun p => (extracted p).map KtPqNode.data) hb ?_
  intro s op s' hs hstep
  obtain ⟨hb', hbal⟩ := pqStep_balance s op s' hs hstep
  refine ⟨hb', ?_⟩
  have hdata := congrArg (Multiset.map KtPqNode.data) hbal
  simp only [Multiset.map_add, map_data_lowered] at hdata
  rw [← add_assoc, ← add_assoc] at hdata
  exact add_right_cancel hdata

/-- The number of elements over a run. -/
theorem run_size_balance {tr : List (KtPrioQueue × PqOp)} (hb : Bounded q)
    (h : Run pqStep q tr q') :
    q'.size + (tr.map fun p => (extracted p).card).sum =
      q.size + (tr.map fun p => (inserted p).card).sum := by
  refine h.balance (I := Bounded) (fun q => q.size)
    (fun p => (inserted p).card) (fun p => (extracted p).card) hb ?_
  intro s op s' hs hstep
  obtain ⟨hb', hbal⟩ := pqStep_balance s op s' hs hstep
  refine ⟨hb', ?_⟩
  have hcard := congrArg Multiset.card hbal
  simp only [Multiset.card_add, card_lowered, KtPrioQueue.pairs, card_entries] at hcard
  omega

/-- **The priority queue neither loses, duplicates nor alters entries**, whatever the order of its
array. For every queue with `size ≤ cap < 2^30`:

* inserting into a non-full queue adds exactly the given pair; a full queue answers `-1` and is
  unchanged;
* extracting from a non-empty queue takes out exactly the pair whose data it hands out; an empty
  queue answers `-1` and is unchanged;
* `decrease_key(i, v)` with `i < size` exchanges element `i` for the same one with priority `v`, if
  `v` is not larger, and otherwise changes nothing;
* all of these return, and no sift loop touches a position at or beyond `size` (both would be
  `none`);
* over every run the pairs balance, the data handed out are among those that came in, each as often
  at most, and `size` is the number of insertions minus the number of extractions. -/
theorem ktPrioQueue_conserves (q : KtPrioQueue) (hsize : q.size ≤ q.cap) (hcap : q.cap < 2 ^ 30) :
    (∀ prio data, q.size < q.cap → ∃ q', ktPrioQueueInsert q prio data = some (0, q') ∧
      q'.size = q.size + 1 ∧ q'.cap = q.cap ∧ q'.pairs = ⟨prio, data⟩ ::ₘ q.pairs) ∧
    (∀ prio data, q.size = q.cap → ktPrioQueueInsert q prio data = some (-1, q)) ∧
    (∀ out, 0 < q.size → ∃ q' nd,
      ktPrioQueueExtractMin q out = some (0, out.map fun _ => nd.data, q') ∧
      q'.size + 1 = q.size ∧ q'.cap = q.cap ∧ q.pairs = nd ::ₘ q'.pairs) ∧
    (∀ out, q.size = 0 → ktPrioQueueExtractMin q out = some (-1, out, q)) ∧
    (∀ i v, i < q.size → v ≤ (q.elems i).prio → ∃ q', ktPrioQueueDecreaseKey q i v = some q' ∧
      q'.size = q.size ∧ q'.cap = q.cap ∧
      q.elems i ::ₘ q'.pairs = { q.elems i with prio := v } ::ₘ q.pairs) ∧
    (∀ i v, i < q.size → (q.elems i).prio < v → ktPrioQueueDecreaseKey q i v = some q) ∧
    (∀ tr q', Run pqStep q tr q' →
      q'.pairs + (tr.map fun p => extracted p + loweredFrom p).sum =
        q.pairs + (tr.map fun p => inserted p + loweredTo p).sum ∧
      (tr.map fun p => (extracted p).map KtPqNode.data).sum ≤
        q.pairs.map KtPqNode.data + (tr.map fun p => (inserted p).map KtPqNode.data).sum ∧
      q'.size + (tr.map fun p => (extracted p).card).sum =
        q.size + (tr.map fun p => (inserted p).card).sum) := by
  have hb : Bounded q := ⟨hsize, hcap⟩
  refine ⟨?_, ?_, ?_, ?_, ?_, ?_, ?_⟩
  · intro prio data hlt
    obtain ⟨q', hq', hsz, hcp, hpairs, -⟩ :=
      ktPrioQueueInsert_spec (q := q) (by omega) (by omega) prio data
    exact ⟨q', hq', hsz, hcp, hpairs⟩
  · intro prio data hfull
    exact ktPrioQueueInsert_of_full hfull prio data
  · intro out hpos
    obtain ⟨q', hq', hsz, hcp, hpairs, -⟩ := ktPrioQueueExtractMin_spec hpos (by omega) out
    exact ⟨q', q.elems 0, hq', hsz, hcp, hpairs⟩
  · intro out hempty
    exact ktPrioQueueExtractMin_of_empty hempty out
  · intro i v hi hv
    obtain ⟨q', hq', hsz, hcp, hpairs, -⟩ := ktPrioQueueDecreaseKey_spec hi (by omega) hv
    exact ⟨q', hq', hsz, hcp, hpairs⟩
  · intro i v hi hv
    exact ktPrioQueueDecreaseKey_of_gt hi hv
  · intro tr q' hrun
    refine ⟨?_, ?_, run_size_balance hb hrun⟩
    · exact hrun.balance KtPrioQueue.pairs (fun p => inserted p + loweredTo p)
        (fun p => extracted p + loweredFrom p) hb
        fun s op s' hs hstep => pqStep_balance s op s' hs hstep
    · rw [← run_data_balance hb hrun]
      exact Multiset.le_add_left _ _

/-- The conservation result at a queue of two elements that is not a heap, and a run on it. -/
theorem ktPrioQueue_conserves_two :
    ∃ q : KtPrioQueue, q.size = 2 ∧ q.cap = 3 ∧ ¬ q.Ordered ∧
      ∃ q', ktPrioQueueInsert q 4 7 = some (0, q') ∧ q'.pairs = ⟨4, 7⟩ ::ₘ q.pairs := by
  let q : KtPrioQueue := ⟨fun k => if k = 0 then ⟨9, 1⟩ else ⟨5, 2⟩, 3, 2⟩
  refine ⟨q, rfl, rfl, fun ho => ?_, ?_⟩
  · exact absurd (ho 1 (by decide) (by decide)) (by decide)
  · obtain ⟨q', hq', -, -, hpairs⟩ :=
      (ktPrioQueue_conserves q (by decide) (by decide)).1 4 7 (by decide)
    exact ⟨q', hq', hpairs⟩

end KuberneTSN.Queue
