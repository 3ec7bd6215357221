import KuberneTSN.Ring.Fifo

/-!
# How full a ring is

The number of elements in a ring is never stored: every routine computes it as a difference of two
32-bit counters that run on for ever, and only `kt_ringbuf_count` masks that difference.

* `run_counted` — the counters are the numbers of elements accepted and handed out, modulo `2^32`,
  after any number of calls;
* `occupancy_exact` — so every routine sees the number of elements as it is, however often the
  counters have wrapped. Bursts that run past the end of the array make no difference: they spoil
  elements, not counts.
-/

namespace KuberneTSN.Ring

open Lib

/-- A ring of `2^k` slots in which `c` elements wait, as its routines see it. A burst gets what it
asks for, or as much as there is, and is told what is left. -/
structure Occupied (rb : KtRingbuf) (k c : ℕ) : Prop where
  le_capacity : c ≤ 2 ^ k - 1
  count : (ktRingbufCount rb).toNat = c
  enqueue : ∀ table n, ∃ r, ktRingbufEnqueueBurst rb table 8 n = .ok r ∧
    r.n.toNat = min n.toNat (2 ^ k - 1 - c) ∧ r.freeSpace.toNat = 2 ^ k - 1 - c - r.n.toNat
  dequeue : ∀ table n, ∃ r, ktRingbufDequeueBurst rb table 8 n = .ok r ∧
    r.n.toNat = min n.toNat c ∧ r.available.toNat = c - r.n.toNat

variable {rb : KtRingbuf} {k P C : ℕ} {t t' : Traffic} {op : BurstOp}

/-- A ring at rest. -/
theorem RingAt.occupied (h : RingAt rb k P C) : Occupied rb k (P - C) := by
  have hcap := h.le_capacity
  refine ⟨by omega, h.count, ?_, ?_⟩
  · intro table n
    obtain ⟨r, hr, hspec⟩ := ktRingbufEnqueueBurst_spec h table n
    refine ⟨r, hr, hspec.n, ?_⟩
    rw [hspec.freeSpace, hspec.n]
  · intro table n
    obtain ⟨r, hr, hspec⟩ := ktRingbufDequeueBurst_spec h table n
    refine ⟨r, hr, hspec.n, ?_⟩
    rw [hspec.available, hspec.n]

/-- The positions of the ring are the numbers of elements accepted and handed out. -/
def Counted (k : ℕ) (t : Traffic) : Prop :=
  RingAt t.rb k t.accepted.length t.delivered.length

/-- One call keeps the count. -/
theorem Counted.step (h : Counted k t) (hs : burstStep t op = some t') : Counted k t' := by
  cases op with
  | enqueue table n =>
      obtain ⟨r, hspec, hr⟩ := burstStep_enqueue h table n
      rw [hr] at hs
      cases hs
      unfold Counted
      rw [List.length_append, length_firstOf]
      exact hspec.at_rest
  | dequeue table n =>
      obtain ⟨r, hspec, hr⟩ := burstStep_dequeue h table n
      rw [hr] at hs
      cases hs
      unfold Counted
      rw [List.length_append, length_firstOf]
      exact hspec.at_rest

/-- A whole run keeps the count. -/
theorem run_counted {tr : List (Traffic × BurstOp)} (h₀ : RingAt rb k 0 0)
    (h : Run burstStep ⟨rb, [], [], []⟩ tr t) : Counted k t := by
  have hinit : Counted k ⟨rb, [], [], []⟩ := h₀
  refine h.always hinit ?_
  intro s op s' hs hstep
  exact hs.step hstep

/-- **Occupancy is exact across wrap-around.** For every ring of `2^k` slots that
`kt_ringbuf_create` returns and every sequence of burst calls, however long and with any requests:
no more elements have been handed out than accepted, and the difference is what
`kt_ringbuf_count` answers and what the next enqueue and the next dequeue go by. -/
theorem occupancy_exact {alloc : UInt32 → Option (ℕ → UInt64)} {count esize : UInt32}
    {rb : KtRingbuf} {k : ℕ} (hcount : count.toNat = 2 ^ k)
    (hcreate : ktRingbufCreate alloc count esize = some rb)
    {tr : List (Traffic × BurstOp)} {t : Traffic} (hrun : Run burstStep ⟨rb, [], [], []⟩ tr t) :
    t.delivered.length ≤ t.accepted.length ∧
      Occupied t.rb k (t.accepted.length - t.delivered.length) := by
  have hlt : k < 32 := (Nat.pow_lt_pow_iff_right Nat.one_lt_two).mp (hcount ▸ count.toNat_lt)
  have hcounted := run_counted (ringAt_create (Nat.le_of_lt_succ hlt) hcount hcreate) hrun
  exact ⟨hcounted.le, RingAt.occupied hcounted⟩

/-- A ring of four slots that is asked to take five elements, and then to hand out two: it takes
three, and one is left. -/
theorem occupancy_exact_four :
    ∃ tr t, Run burstStep ⟨ringOfFour, [], [], []⟩ tr t ∧
      tr.map Prod.snd = [.enqueue UInt64.ofNat 5, .dequeue (fun _ => 0) 2] ∧ Occupied t.rb 2 1 := by
  have hexec : (exec burstStep ⟨ringOfFour, [], [], []⟩
      [.enqueue UInt64.ofNat 5, .dequeue (fun _ => 0) 2]).map
        (fun t => (t.accepted.length, t.delivered.length)) = some (3, 2) := by
    decide
  obtain ⟨t, ht, hlengths⟩ := Option.map_eq_some_iff.mp hexec
  obtain ⟨tr, hrun, hops⟩ := Run.of_exec ht
  have hcreate : ktRingbufCreate (fun _ => some fun _ => 0) 4 8 = some ringOfFour := rfl
  obtain ⟨-, hoccupied⟩ := occupancy_exact (k := 2) rfl hcreate hrun
  rw [Prod.mk.injEq] at hlengths
  rw [hlengths.1, hlengths.2] at hoccupied
  exact ⟨tr, t, hrun, hops, hoccupied⟩

end KuberneTSN.Ring
