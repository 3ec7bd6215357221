import KuberneTSN.Sched.Tokens

/-!
# Decisions over the whole range of transmit times

A transmit time is a `u64` in the metadata, an `i64` as a priority, and an `i64` again in its
difference to the clock, which can overflow. Here the decisions of the daemon are compared with
those over the integers.

* `txtimeOf` — the transmit time of an element of the queue; `run_txtimes`: over every run, these
  are the times that stood in the metadata when the daemon took the packets;
* `prio_order_iff` — two packets are compared by their transmit times exactly when these lie on the
  same side of `2^63`;
* `toInt_timeDiff` — the difference that the daemon computes, modulo `2^64`;
* `decision_exact_iff` — so all comparisons and the decision are exact if and only if all transmit
  times lie on one side of `2^63` and the first one is less than `2^63` after the clock;
* `run_decision_exact_iff` — over every run, this is so of the times that the metadata showed.
-/

set_option linter.unusedSectionVars false

namespace KuberneTSN.Sched

open Lib KuberneTSN.Ring KuberneTSN.Queue

/-! ## Transmit times and priorities -/

/-- The transmit time of an element of the queue: the `u64` whose conversion to `i64` is its
priority. -/
def txtimeOf (nd : KtPqNode) : UInt64 := nd.prio.toUInt64

/-- The element that the daemon inserts has the transmit time of the metadata. -/
theorem txtimeOf_inserted (txtime data : UInt64) : txtimeOf ⟨txtime.toInt64, data⟩ = txtime :=
  UInt64.toUInt64_toInt64 txtime

/-- A priority is its transmit time, reduced to 64 signed bits. -/
theorem toInt_prio (nd : KtPqNode) : nd.prio.toInt = ((txtimeOf nd).toNat : ℤ).bmod (2 ^ 64) :=
  BitVec.toInt_eq_toNat_bmod _

theorem toInt_prio_of_lt {nd : KtPqNode} (h : (txtimeOf nd).toNat < 2 ^ 63) :
    nd.prio.toInt = (txtimeOf nd).toNat := by
  rw [toInt_prio, bmod_of_range (by omega) (by omega)]

theorem toInt_prio_of_ge {nd : KtPqNode} (h : 2 ^ 63 ≤ (txtimeOf nd).toNat) :
    nd.prio.toInt = (txtimeOf nd).toNat - 2 ^ 64 := by
  have hlt := (txtimeOf nd).toNat_lt
  rw [toInt_prio, bmod_of_ge (by omega) (by omega)]

/-- Two packets are compared by their transmit times. -/
def ComparedByTime (x y : KtPqNode) : Prop := x.prio < y.prio ↔ txtimeOf x < txtimeOf y

/-- **When two packets are compared by their transmit times**, either way round: exactly when these
lie on the same side of `2^63`. -/
theorem prio_order_iff (x y : KtPqNode) :
    ComparedByTime x y ∧ ComparedByTime y x ↔
      ((txtimeOf x).toNat < 2 ^ 63 ↔ (txtimeOf y).toNat < 2 ^ 63) := by
  unfold ComparedByTime
  rw [Int64.lt_iff_toInt_lt, Int64.lt_iff_toInt_lt, UInt64.lt_iff_toNat_lt, UInt64.lt_iff_toNat_lt]
  have hx := (txtimeOf x).toNat_lt
  have hy := (txtimeOf y).toNat_lt
  rcases lt_or_ge (txtimeOf x).toNat (2 ^ 63) with hxs | hxs <;>
    rcases lt_or_ge (txtimeOf y).toNat (2 ^ 63) with hys | hys
  · rw [toInt_prio_of_lt hxs, toInt_prio_of_lt hys]
    omega
  · rw [toInt_prio_of_lt hxs, toInt_prio_of_ge hys]
    omega
  · rw [toInt_prio_of_ge hxs, toInt_prio_of_lt hys]
    omega
  · rw [toInt_prio_of_ge hxs, toInt_prio_of_ge hys]
    omega

/-! ## Where the transmit times come from -/

section supply

variable {ι : Type} [DecidableEq ι] [Fintype ι] {s s' s₀ : State ι} {a : Act ι}
  {tr : List (State ι × Act ι)}

/-- What is in the queue after an action was there before, or was inserted with the transmit time
of its metadata. -/
theorem Effect.mem_pairs (h : Effect s a s') {nd : KtPqNode} (hnd : nd ∈ s'.prioQueue.pairs) :
    nd ∈ s.prioQueue.pairs ∨ ∃ rest, a = .insert ∧ s.daemon = .insert (nd.data :: rest) ∧
      txtimeOf nd = (s.metadataPool nd.data.toNat).txtime := by
  cases h with
  | refuse | take | fill | put | dequeue | wait | transmit | recycle => exact .inl hnd
  | insert hd _ _ hq =>
      rw [hq, Multiset.mem_cons] at hnd
      rcases hnd with rfl | hold
      · exact .inr ⟨_, rfl, hd, txtimeOf_inserted _ _⟩
      · exact .inl hold
  | drop _ _ _ _ hq | extract _ _ _ _ hq =>
      rw [hq]
      exact .inl (Multiset.mem_cons_of_mem hnd)

/-- The daemon inserted the element when its metadata showed this transmit time. -/
def InsertedAt (tr : List (State ι × Act ι)) (nd : KtPqNode) (txtime : UInt64) : Prop :=
  ∃ p ∈ tr, ∃ rest, p.2 = .insert ∧ p.1.daemon = .insert (nd.data :: rest) ∧
    txtime = (p.1.metadataPool nd.data.toNat).txtime

/-- **The transmit times in the queue are those of the metadata**: over every run, each element was
inserted with the time that its metadata showed then. -/
theorem run_txtimes (h : Started s₀) (hrun : Run schedStep s₀ tr s) :
    ∀ nd ∈ s.prioQueue.pairs, InsertedAt tr nd (txtimeOf nd) := by
  induction hrun with
  | nil =>
      intro nd hnd
      have hempty : s₀.prioQueue.pairs = 0 := by
        rw [← Multiset.card_eq_zero, KtPrioQueue.pairs, card_entries, h.size]
      rw [hempty] at hnd
      exact absurd hnd (Multiset.notMem_zero nd)
  | snoc hrun hs ih =>
      intro nd hnd
      rcases (schedStep_effect (inv_run h hrun) hs).mem_pairs hnd with hold | ⟨rest, hnew⟩
      · obtain ⟨p, hp, hfrom⟩ := ih nd hold
        exact ⟨p, List.mem_append_left _ hp, hfrom⟩
      · exact ⟨_, List.mem_append_right _ (List.mem_singleton_self _), rest, hnew⟩

end supply

/-! ## The difference to the clock -/

/-- The difference that the daemon computes. -/
theorem toInt_timeDiff (now : Int64) (nd : KtPqNode) :
    (ktGetTimeDiffNs now nd.prio).toInt =
      (((txtimeOf nd).toNat : ℤ) - now.toInt).bmod (2 ^ 64) := by
  rw [ktGetTimeDiffNs, Int64.toInt_sub, toInt_prio, Int.bmod_sub_bmod]

section clock

variable {now : Int64} {nd : KtPqNode} (hnow : 0 ≤ now)

include hnow

/-- It is exact up to `2^63` after the clock. -/
theorem toInt_timeDiff_of_near (hnear : ((txtimeOf nd).toNat : ℤ) < now.toInt + 2 ^ 63) :
    (ktGetTimeDiffNs now nd.prio).toInt = (txtimeOf nd).toNat - now.toInt := by
  have hpos : 0 ≤ now.toInt := Int64.le_iff_toInt_le.mp hnow
  have hlt := now.toInt_lt
  rw [toInt_timeDiff, bmod_of_range (by omega) (by omega)]

/-- Beyond that, it is negative. -/
theorem timeDiff_neg_of_far (hfar : now.toInt + 2 ^ 63 ≤ ((txtimeOf nd).toNat : ℤ)) :
    ktGetTimeDiffNs now nd.prio < 0 := by
  have hpos : 0 ≤ now.toInt := Int64.le_iff_toInt_le.mp hnow
  have hlt := (txtimeOf nd).toNat_lt
  have hzero : (0 : Int64).toInt = 0 := rfl
  rw [Int64.lt_iff_toInt_lt, toInt_timeDiff, bmod_of_ge (by omega) (by omega)]
  omega

end clock

/-! ## The decision -/

section decision

variable {ι : Type} {s s' : State ι}

/-- What the daemon can do with the head of its queue. -/
inductive Decision where
  | wait
  | drop
  | send
  deriving DecidableEq, Repr

/-- The head stays in the queue; or it leaves the queue and nothing else happens; or it leaves the
queue to be sent. -/
def Decision.Taken (s s' : State ι) : Decision → Prop
  | .wait => s' = { s with daemon := .top }
  | .drop => s'.daemon = .top ∧ s.prioQueue.pairs = s.prioQueue.elems 0 ::ₘ s'.prioQueue.pairs
  | .send => s'.daemon = .transmit (s.prioQueue.elems 0).data ∧
      s.prioQueue.pairs = s.prioQueue.elems 0 ::ₘ s'.prioQueue.pairs

/-- What should happen to a packet by its transmit time and the clock: it waits if it is due in more
than 50 µs, and it is dropped if it is late. -/
def Decision.Right (now txtime : ℤ) : Decision → Prop
  | .wait => txtime > now + 50000
  | .drop => txtime < now
  | .send => now ≤ txtime ∧ txtime ≤ now + 50000

/-- A head that has left the queue is not there any more. -/
theorem not_wait_of_removed
    (h : s.prioQueue.pairs = s.prioQueue.elems 0 ::ₘ s'.prioQueue.pairs) :
    ¬ Decision.wait.Taken s s' := by
  intro hwait
  have hsame : s'.prioQueue = s.prioQueue := by rw [hwait]
  rw [hsame] at h
  have hcard := congrArg Multiset.card h
  rw [Multiset.card_cons] at hcard
  omega

/-- The daemon takes at most one decision. -/
theorem Decision.taken_unique {d d' : Decision} (h : d.Taken s s') (h' : d'.Taken s s') :
    d = d' := by
  cases d <;> cases d'
  case wait.wait | drop.drop | send.send => rfl
  case wait.drop | wait.send => exact absurd h (not_wait_of_removed h'.2)
  case drop.wait | send.wait => exact absurd h' (not_wait_of_removed h.2)
  case drop.send => exact absurd (h.1.symm.trans h'.1) (by simp)
  case send.drop => exact absurd (h.1.symm.trans h'.1) (by simp)

/-- At most one decision is right. -/
theorem Decision.right_unique {now txtime : ℤ} {d d' : Decision} (h : d.Right now txtime)
    (h' : d'.Right now txtime) : d = d' := by
  cases d <;> cases d' <;> simp only [Decision.Right] at h h' <;> first | rfl | omega

/-- The daemon takes a decision exactly when it is the right one over the integers. -/
def ExactDecision (s : State ι) (now : Int64) (txtime : UInt64) : Prop :=
  ∃ s', daemonSchedule s now = some s' ∧
    ∀ d : Decision, d.Taken s s' ↔ d.Right now.toInt txtime.toNat

/-- It has decided exactly if what it did is right. -/
theorem exactDecision_iff_right {now : Int64} {txtime : UInt64} {d : Decision}
    (hs : daemonSchedule s now = some s') (hd : d.Taken s s') :
    ExactDecision s now txtime ↔ d.Right now.toInt txtime.toNat := by
  constructor
  · rintro ⟨t, ht, hexact⟩
    obtain rfl := Option.some.inj (hs.symm.trans ht)
    exact (hexact d).mp hd
  · intro hright
    refine ⟨s', hs, fun d' => ⟨fun hd' => ?_, fun hright' => ?_⟩⟩
    · exact Decision.taken_unique hd hd' ▸ hright
    · exact Decision.right_unique hright hright' ▸ hd

/-- All comparisons in a queue are by transmit time exactly when all of these lie on the same side
of `2^63`. -/
theorem comparedByTime_iff (q : KtPrioQueue) :
    (∀ i j, i < q.size → j < q.size → ComparedByTime (q.elems i) (q.elems j)) ↔
      ∀ i j, i < q.size → j < q.size →
        ((txtimeOf (q.elems i)).toNat < 2 ^ 63 ↔ (txtimeOf (q.elems j)).toNat < 2 ^ 63) := by
  constructor
  · intro h i j hi hj
    exact (prio_order_iff _ _).mp ⟨h i j hi hj, h j i hj hi⟩
  · intro h i j hi hj
    exact ((prio_order_iff _ _).mpr (h i j hi hj)).1

variable (hd : s.daemon = .insert []) (hpos : 0 < s.prioQueue.size)
  (hbytes : 16 * s.prioQueue.size ≤ 2 ^ 64) {now : Int64} (hnow : 0 ≤ now)

include hd hpos hbytes hnow

/-- **When the decision is exact**: exactly when the head of the queue is less than `2^63` after the
clock. A packet that is further away is dropped as late. -/
theorem exactDecision_iff :
    ExactDecision s now (txtimeOf (s.prioQueue.elems 0)) ↔
      ((txtimeOf (s.prioQueue.elems 0)).toNat : ℤ) < now.toInt + 2 ^ 63 := by
  obtain ⟨s', hs', hdecided⟩ := daemonSchedule_spec hd hpos (by omega) now
  have hdelta : txDeltaNs.toInt = 50000 := rfl
  have hzero : (0 : Int64).toInt = 0 := rfl
  rcases lt_or_ge ((txtimeOf (s.prioQueue.elems 0)).toNat : ℤ) (now.toInt + 2 ^ 63)
    with hnear | hfar
  · have hdiff := toInt_timeDiff_of_near hnow hnear
    refine iff_of_true ?_ hnear
    cases hdecided with
    | wait hwait =>
        rw [exactDecision_iff_right (d := .wait) hs' rfl]
        rw [Int64.lt_iff_toInt_lt, ktPrioQueueGetmin, hdiff, hdelta] at hwait
        simp only [Decision.Right]
        omega
    | drop hneg _ _ hpairs =>
        rw [exactDecision_iff_right (d := .drop) hs' ⟨rfl, hpairs⟩]
        rw [Int64.lt_iff_toInt_lt, ktPrioQueueGetmin, hdiff, hzero] at hneg
        simp only [Decision.Right]
        omega
    | send hdue hneg _ _ hpairs =>
        rw [exactDecision_iff_right (d := .send) hs' ⟨rfl, hpairs⟩]
        rw [Int64.lt_iff_toInt_lt, ktPrioQueueGetmin, hdiff, hdelta] at hdue
        rw [Int64.lt_iff_toInt_lt, ktPrioQueueGetmin, hdiff, hzero] at hneg
        simp only [Decision.Right]
        omega
  · have hneg := timeDiff_neg_of_far hnow hfar
    refine iff_of_false ?_ (not_lt.mpr hfar)
    cases hdecided with
    | wait hwait => exact absurd (Int64.lt_trans hwait hneg) (by decide)
    | drop _ _ _ hpairs =>
        rw [exactDecision_iff_right (d := .drop) hs' ⟨rfl, hpairs⟩]
        simp only [Decision.Right]
        omega
    | send _ hdiff => exact absurd hneg hdiff

/-- **When scheduling is exact over the whole range of transmit times.** For every queue, and every
clock that is not negative: any two packets are compared by their transmit times, and what the
daemon does with the first one is what is right over the integers, if and only if all transmit times
lie on the same side of `2^63` and the first one is less than `2^63` after the clock. -/
theorem decision_exact_iff :
    ((∀ i j, i < s.prioQueue.size → j < s.prioQueue.size →
          ComparedByTime (s.prioQueue.elems i) (s.prioQueue.elems j)) ∧
        ExactDecision s now (txtimeOf (s.prioQueue.elems 0))) ↔
      (∀ i j, i < s.prioQueue.size → j < s.prioQueue.size →
          ((txtimeOf (s.prioQueue.elems i)).toNat < 2 ^ 63 ↔
            (txtimeOf (s.prioQueue.elems j)).toNat < 2 ^ 63)) ∧
        ((txtimeOf (s.prioQueue.elems 0)).toNat : ℤ) < now.toInt + 2 ^ 63 :=
  and_congr (comparedByTime_iff s.prioQueue) (exactDecision_iff hd hpos hbytes hnow)

end decision

/-- The daemon before its decision, with one packet in its queue. -/
def oneQueued (txtime : UInt64) : State Unit where
  freeRing := ⟨4, 1, 3, 3, ⟨0, 0⟩, ⟨0, 0⟩, fun _ => 0⟩
  txRing := ⟨4, 1, 3, 3, ⟨0, 0⟩, ⟨0, 0⟩, fun _ => 0⟩
  mbufPool := fun _ => 0
  metadataPool := fun _ => ⟨.ethernet, txtime, ktMulticastMac, ktMulticastMac, 0, 0, 0, 1⟩
  prioQueue := ⟨fun _ => ⟨txtime.toInt64, 0⟩, 3, 1⟩
  clients := fun _ => .idle none
  daemon := .insert []
  wire := []

/-- The daemon before its decision, with two packets in its queue, due at 70 µs and 90 µs. -/
def twoQueued : State Unit :=
  { oneQueued 70000 with
    metadataPool := fun i =>
      ⟨.ethernet, if i = 0 then 70000 else 90000, ktMulticastMac, ktMulticastMac, 0, 0, 0, 1⟩
    prioQueue := ⟨fun k => if k = 0 then ⟨70000, 0⟩ else ⟨90000, 1⟩, 3, 2⟩ }

/-- When the clock shows `0`, the two packets are compared by their transmit times, and the first
one is treated exactly: it waits. -/
theorem decision_exact_iff_soon :
    (ComparedByTime (twoQueued.prioQueue.elems 0) (twoQueued.prioQueue.elems 1) ∧
        ComparedByTime (twoQueued.prioQueue.elems 1) (twoQueued.prioQueue.elems 0)) ∧
      ExactDecision twoQueued 0 70000 := by
  have hsides : ∀ k < 2, (txtimeOf (twoQueued.prioQueue.elems k)).toNat < 2 ^ 63 := by
    decide +kernel
  have hnow : (0 : Int64) ≤ 0 := by decide
  obtain ⟨hcompared, hexact⟩ :=
    (decision_exact_iff (s := twoQueued) rfl (by decide) (by decide) hnow).mpr
      ⟨fun i j hi hj => iff_of_true (hsides i hi) (hsides j hj), by decide +kernel⟩
  exact ⟨⟨hcompared 0 1 (by decide) (by decide), hcompared 1 0 (by decide) (by decide)⟩, hexact⟩

/-- **A packet that is due in `2^63` ns is dropped as late**, and compared as the earlier of two
packets when it is the later one. -/
theorem far_packet_dropped :
    ((daemonSchedule (oneQueued (2 ^ 63)) 0).map fun s =>
        (s.daemon, s.prioQueue.size, s.wire)) = some (.top, 0, []) ∧
      Decision.wait.Right 0 (2 ^ 63) ∧ ¬ Decision.drop.Right 0 (2 ^ 63) ∧
      (2 ^ 63 - 1 : UInt64) < 2 ^ 63 ∧
      (2 ^ 63 : UInt64).toInt64 < (2 ^ 63 - 1 : UInt64).toInt64 := by
  refine ⟨by decide +kernel, ?_, ?_, by decide +kernel, by decide +kernel⟩
  · norm_num [Decision.Right]
  · norm_num [Decision.Right]

/-! ## Over runs -/

/-- **When scheduling is exact, by the transmit times that applications supply.** In every state of
a run from start-up in which the daemon is about to decide, and for every clock that is not
negative: the elements of the queue have transmit times that their metadata showed when they were
inserted, and by these the comparisons and the decision are exact if and only if all of them lie on
the same side of `2^63` and the first one is less than `2^63` after the clock. -/
theorem run_decision_exact_iff {ι : Type} [DecidableEq ι] [Fintype ι] {s₀ s : State ι}
    {tr : List (State ι × Act ι)} (h : Started s₀) (hrun : Run schedStep s₀ tr s)
    (hd : s.daemon = .insert []) (hpos : 0 < s.prioQueue.size) {now : Int64} (hnow : 0 ≤ now) :
    ∃ txtime : ℕ → UInt64,
      (∀ i < s.prioQueue.size, InsertedAt tr (s.prioQueue.elems i) (txtime i)) ∧
        (((∀ i j, i < s.prioQueue.size → j < s.prioQueue.size →
              ((s.prioQueue.elems i).prio < (s.prioQueue.elems j).prio ↔ txtime i < txtime j)) ∧
            ExactDecision s now (txtime 0)) ↔
          (∀ i j, i < s.prioQueue.size → j < s.prioQueue.size →
              ((txtime i).toNat < 2 ^ 63 ↔ (txtime j).toNat < 2 ^ 63)) ∧
            ((txtime 0).toNat : ℤ) < now.toInt + 2 ^ 63) := by
  have hsize := (inv_run h hrun).queue_le
  refine ⟨fun i => txtimeOf (s.prioQueue.elems i), fun i hi => ?_, ?_⟩
  · exact run_txtimes h hrun _ (mem_entries.mpr ⟨i, hi, rfl⟩)
  · exact and_congr (comparedByTime_iff s.prioQueue) (exactDecision_iff hd hpos (by omega) hnow)

end KuberneTSN.Sched
