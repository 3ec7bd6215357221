import KuberneTSN.Queue.Conservation

/-!
# When the priority queue is earliest-deadline-first

`kt_queue.h` documents the queue as a min heap. Insertions and `decrease_key` keep the heap order;
`kt_prio_queue_extract_min` keeps it exactly when the sift-down meets `SpineOk`
(`ktPrioQueueExtractMin_spec`). In a run whose calls all meet `EdfOk`, the root is minimal in every
state reached, and extraction hands out priorities in non-decreasing order
(`earliest_deadline_first`). Three insertions and one extraction are enough to leave that class
(`earliest_deadline_first_fails`).
-/

namespace KuberneTSN.Queue

open Lib

variable {q q' : KtPrioQueue}

/-- The condition on the state before a call under which the queue stays a heap: an insertion finds
room for its position in `int`, and the sift-down of an extraction never stops above a smaller left
child. -/
def EdfOk (q : KtPrioQueue) : PqOp → Prop
  | .insert _ _ => q.size = q.cap ∨ q.size < 2 ^ 31 - 2
  | .extractMin _ => q.size = 0 ∨ SpineOk q.key (q.size - 1) (q.key (q.size - 1)) 0
  | .decreaseKey _ _ => True

/-- The invariant of such runs. -/
structure EdfInv (q : KtPrioQueue) : Prop where
  ordered : q.Ordered
  size_le : q.size ≤ 2 ^ 31 - 2

/-- A fresh queue is a heap. -/
theorem edfInv_init (junk : ℕ → KtPqNode) (cap : ℕ) : EdfInv (ktPrioQueueInit junk cap) where
  ordered _ _ hc := absurd hc (Nat.not_lt_zero _)
  size_le := Nat.zero_le _

/-- **Every call that meets `EdfOk` keeps the heap.** -/
theorem edfInv_step (q : KtPrioQueue) (op : PqOp) (q' : KtPrioQueue) (hinv : EdfInv q)
    (hok : EdfOk q op) (h : pqStep q op = some q') : EdfInv q' := by
  have hsize := hinv.size_le
  cases op with
  | insert prio data =>
      simp only [pqStep, Option.map_eq_some_iff] at h
      obtain ⟨r, hr, rfl⟩ := h
      by_cases hfull : q.size = q.cap
      · rw [ktPrioQueueInsert_of_full hfull] at hr
        cases hr
        exact hinv
      · have hroom : q.size < 2 ^ 31 - 2 := hok.resolve_left hfull
        obtain ⟨q₁, hq₁, hsz, -, -, hord⟩ := ktPrioQueueInsert_spec hfull (by omega) prio data
        rw [hq₁] at hr
        cases hr
        exact ⟨hord hinv.ordered, by dsimp only; omega⟩
  | extractMin out =>
      simp only [pqStep, Option.map_eq_some_iff] at h
      obtain ⟨r, hr, rfl⟩ := h
      by_cases hempty : q.size = 0
      · rw [ktPrioQueueExtractMin_of_empty hempty] at hr
        cases hr
        exact hinv
      · obtain ⟨q₁, hq₁, hsz, -, -, hord⟩ :=
          ktPrioQueueExtractMin_spec (q := q) (by omega) (by omega) out
        rw [hq₁] at hr
        cases hr
        exact ⟨(hord hinv.ordered).mpr (hok.resolve_left hempty), by dsimp only; omega⟩
  | decreaseKey i v =>
      have hi := lt_size_of_decreaseKey h
      by_cases hv : v > (q.elems i).prio
      · simp only [pqStep] at h
        rw [ktPrioQueueDecreaseKey_of_gt hi hv] at h
        cases h
        exact hinv
      · obtain ⟨q₁, hq₁, hsz, -, -, hord⟩ :=
          ktPrioQueueDecreaseKey_spec hi (by omega) (Int64.not_lt.mp hv)
        simp only [pqStep] at h
        rw [hq₁] at h
        cases h
        exact ⟨hord hinv.ordered, by omega⟩

/-- The root of a heap is minimal. -/
theorem EdfInv.getmin_le (hinv : EdfInv q) {i : ℕ} (hi : i < q.size) :
    ktPrioQueueGetmin q ≤ (q.elems i).prio :=
  Int64.le_iff_toInt_le.mpr (hinv.ordered.root_le i hi)

/-- Every pair in a heap is at least the root. -/
theorem EdfInv.getmin_le_of_mem (hinv : EdfInv q) {nd : KtPqNode} (h : nd ∈ q.pairs) :
    ktPrioQueueGetmin q ≤ nd.prio := by
  obtain ⟨i, hi, rfl⟩ := mem_entries.mp h
  exact hinv.getmin_le hi

/-- What an extraction leaves is at least what it takes out. -/
theorem EdfInv.le_of_extract (hinv : EdfInv q) {out : Option UInt64} (hpos : 0 < q.size)
    (h : pqStep q (.extractMin out) = some q') :
    ∀ nd ∈ q'.pairs, ktPrioQueueGetmin q ≤ nd.prio := by
  have hsize := hinv.size_le
  obtain ⟨q₁, hq₁, -, -, hpairs, -⟩ := ktPrioQueueExtractMin_spec hpos (by omega) out
  simp only [pqStep, hq₁, Option.map_some, Option.some.injEq] at h
  subst h
  intro nd hnd
  refine hinv.getmin_le_of_mem ?_
  rw [hpairs]
  exact Multiset.mem_cons_of_mem hnd

/-- Extractions in a row hand out non-decreasing priorities, and none below `lo` where no element
is below `lo`. The induction carries the bound on what is left. -/
theorem extractions_pairwise {tr : List (KtPrioQueue × PqOp)} (hinv : EdfInv q) (h : Run pqStep q tr q')
    (hdrain : ∀ p ∈ tr, 0 < p.1.size ∧ ∃ out, p.2 = .extractMin out)
    (hok : ∀ p ∈ tr, EdfOk p.1 p.2) :
    (tr.map fun p => ktPrioQueueGetmin p.1).Pairwise (· ≤ ·) ∧
      ∀ p ∈ tr, ∀ nd ∈ q'.pairs, ktPrioQueueGetmin p.1 ≤ nd.prio := by
  induction h with
  | nil => simp
  | @snoc tr s s' a hr hs ih =>
      have hlast : (s, a) ∈ tr ++ [(s, a)] :=
        List.mem_append_right _ (List.mem_singleton_self _)
      obtain ⟨hpos, out, rfl⟩ := hdrain _ hlast
      obtain ⟨hsorted, hbound⟩ := ih (fun p hp => hdrain p (List.mem_append_left _ hp))
        (fun p hp => hok p (List.mem_append_left _ hp))
      have hs_inv : EdfInv s := hr.invariant hinv edfInv_step
        fun p hp => hok p (List.mem_append_left _ hp)
      have hroot : s.elems 0 ∈ s.pairs := mem_entries.mpr ⟨0, hpos, rfl⟩
      have hleft := hs_inv.le_of_extract hpos hs
      refine ⟨?_, ?_⟩
      · rw [List.map_append, List.pairwise_append]
        refine ⟨hsorted, List.pairwise_singleton _ _, ?_⟩
        intro x hx y hy
        obtain ⟨p, hp, rfl⟩ := List.mem_map.mp hx
        simp only [List.map_cons, List.map_nil, List.mem_singleton] at hy
        subst hy
        exact hbound p hp _ hroot
      · intro p hp nd hnd
        rcases List.mem_append.mp hp with hp | hp
        · exact Int64.le_trans (hbound p hp _ hroot) (hleft nd hnd)
        · rw [List.mem_singleton] at hp
          subst hp
          exact hleft nd hnd

/-- **Earliest deadline first.** In every run from a fresh queue whose calls all meet `EdfOk`, in
every state reached:

* if there are elements, `kt_prio_queue_getmin` is at most every priority, and
  `kt_prio_queue_extract_min` hands out the data of an element of minimal priority;
* extracting from there on, with calls that meet `EdfOk`, yields the priorities in non-decreasing
  order. -/
theorem earliest_deadline_first (junk : ℕ → KtPqNode) (cap : ℕ) (tr : List (KtPrioQueue × PqOp))
    (q : KtPrioQueue) (hrun : Run pqStep (ktPrioQueueInit junk cap) tr q)
    (hok : ∀ p ∈ tr, EdfOk p.1 p.2) :
    (0 < q.size →
      (∀ i < q.size, ktPrioQueueGetmin q ≤ (q.elems i).prio) ∧
      ∀ cell, ∃ q' nd, ktPrioQueueExtractMin q (some cell) = some (0, some nd.data, q') ∧
        nd ∈ q.pairs ∧ ∀ m ∈ q.pairs, nd.prio ≤ m.prio) ∧
    (∀ tr' q', Run pqStep q tr' q' →
      (∀ p ∈ tr', 0 < p.1.size ∧ ∃ out, p.2 = .extractMin out) → (∀ p ∈ tr', EdfOk p.1 p.2) →
      (tr'.map fun p => ktPrioQueueGetmin p.1).Pairwise (· ≤ ·)) := by
  have hinv : EdfInv q := hrun.invariant (edfInv_init junk cap) edfInv_step hok
  have hsize := hinv.size_le
  refine ⟨fun hpos => ⟨fun i hi => hinv.getmin_le hi, fun cell => ?_⟩, ?_⟩
  · obtain ⟨q', hq', -, -, -, -⟩ := ktPrioQueueExtractMin_spec hpos (by omega) (some cell)
    refine ⟨q', q.elems 0, hq', mem_entries.mpr ⟨0, hpos, rfl⟩, ?_⟩
    intro m hm
    exact hinv.getmin_le_of_mem hm
  · intro tr' q' hrun' hdrain hok'
    exact (extractions_pairwise hinv hrun' hdrain hok').1

/-- The result at a run that inserts two packets and extracts one. -/
theorem earliest_deadline_first_two :
    ∃ tr q, Run pqStep (ktPrioQueueInit (fun _ => ⟨0, 0⟩) 4) tr q ∧ tr.length = 3 ∧
      0 < q.size ∧ ∀ i < q.size, ktPrioQueueGetmin q ≤ (q.elems i).prio := by
  let q₀ := ktPrioQueueInit (fun _ => ⟨0, 0⟩) 4
  obtain ⟨q₁, h₁, hsz₁, hcap₁, -, -⟩ :=
    ktPrioQueueInsert_spec (q := q₀) (by decide) (by decide) 5 10
  have hsz₁' : q₁.size = 1 := hsz₁
  have hcap₁' : q₁.cap = 4 := hcap₁
  obtain ⟨q₂, h₂, hsz₂, hcap₂, -, -⟩ :=
    ktPrioQueueInsert_spec (q := q₁) (by omega) (by omega) 3 20
  obtain ⟨q₃, h₃, hsz₃, -, -, -⟩ :=
    ktPrioQueueExtractMin_spec (q := q₂) (by omega) (by omega) (some 0)
  have hs₁ : pqStep q₀ (.insert 5 10) = some q₁ := by simp [pqStep, h₁]
  have hs₂ : pqStep q₁ (.insert 3 20) = some q₂ := by simp [pqStep, h₂]
  have hs₃ : pqStep q₂ (.extractMin (some 0)) = some q₃ := by simp [pqStep, h₃]
  have hrun := (Run.one hs₁).append ((Run.one hs₂).append (Run.one hs₃))
  have hpos : 0 < q₃.size := by omega
  refine ⟨_, q₃, hrun, rfl, hpos, ?_⟩
  refine ((earliest_deadline_first _ 4 _ q₃ hrun ?_).1 hpos).1
  simp only [List.cons_append, List.nil_append, List.forall_mem_cons]
  refine ⟨Or.inr (by decide), Or.inr (by omega), Or.inr ?_, by simp⟩
  rw [SpineOk, if_neg (by omega)]
  intro h
  omega

/-- A run after which the queue is no min heap: insert the priorities `1`, `2`, `3` and extract
one. The last element `3` moves to the root, its only child is the left one, `2`, and the sift-down
stops. -/
theorem earliest_deadline_first_fails :
    ∃ tr q, Run pqStep (ktPrioQueueInit (fun _ => ⟨0, 0⟩) 3) tr q ∧ 0 < q.size ∧
      ∃ i < q.size, (q.elems i).prio < ktPrioQueueGetmin q := by
  have hexec : (exec pqStep (ktPrioQueueInit (fun _ => ⟨0, 0⟩) 3)
      [.insert 1 10, .insert 2 20, .insert 3 30, .extractMin (some 0)]).map
        (fun q => (q.size, (q.elems 1).prio, ktPrioQueueGetmin q)) = some (2, 2, 3) := by
    decide +kernel
  obtain ⟨q, hq, hval⟩ := Option.map_eq_some_iff.mp hexec
  simp only [Prod.mk.injEq] at hval
  obtain ⟨hsize, hleft, hroot⟩ := hval
  obtain ⟨tr, hrun, -⟩ := Run.of_exec hq
  exact ⟨tr, q, hrun, by omega, 1, by omega, by rw [hleft, hroot]; decide⟩

end KuberneTSN.Queue
