import KuberneTSN.Ring.Fifo

/-!
# The element counts for which a ring works

`kt_ringbuf_create` takes any number of elements. The slot of a position is the position masked with
that number less one, while a ring counts as full when as many positions are outstanding.

* `pow_of_worksAsQueue` — the mask of a number that is not a power of two has a clear bit below its
  highest one, so that two positions closer than the capacity share a slot;
* `ring_works_iff_power_of_two` — a ring hands out the elements of single-element calls in order
  exactly when its number of elements is a power of two;
* `ring_of_hundred_fails` — the rings of `ktsnd_socket.c` do not.
-/

namespace KuberneTSN.Ring

open Lib

/-- A call with one element. -/
def BurstOp.Single : BurstOp → Prop
  | .enqueue _ n => n = 1
  | .dequeue _ n => n = 1

/-- A ring that works: in every state reached by single-element calls, the elements handed out are
the accepted ones, in order and each once; an element is accepted if fewer than `count - 1` are
outstanding; and one is handed out if any is outstanding. -/
def WorksAsQueue (count : ℕ) (rb : KtRingbuf) : Prop :=
  ∀ tr t, Run burstStep ⟨rb, [], [], []⟩ tr t → (∀ p ∈ tr, p.2.Single) →
    t.delivered <+: t.accepted ∧
    (∀ table, ∃ t', burstStep t (.enqueue table 1) = some t' ∧
      t'.accepted =
        if t.accepted.length - t.delivered.length < count - 1 then t.accepted ++ [table 0]
        else t.accepted) ∧
    ∀ table, ∃ t', burstStep t (.dequeue table 1) = some t' ∧
      t'.delivered.length =
        if t.delivered.length < t.accepted.length then t.delivered.length + 1
        else t.delivered.length

variable {rb : KtRingbuf} {k P C : ℕ} {t : Traffic}

/-! ## Powers of two -/

/-- A call with one element always fits. -/
theorem BurstOp.Single.fits {op : BurstOp} (hop : op.Single) (h : RingAt t.rb k P C) : Fits t op := by
  have hpos := Nat.two_pow_pos k
  have hone : (1 : UInt32).toNat = 1 := rfl
  cases op with
  | enqueue table n =>
      obtain rfl : n = 1 := hop
      rw [fits_enqueue h, hone]
      have hlt := Nat.mod_lt P hpos
      omega
  | dequeue table n =>
      obtain rfl : n = 1 := hop
      rw [fits_dequeue h, hone]
      have hlt := Nat.mod_lt C hpos
      omega

/-- A ring with a power of two of slots works. -/
theorem worksAsQueue_of_pow (h₀ : RingAt rb k 0 0) : WorksAsQueue (2 ^ k) rb := by
  intro tr t hrun hsingle
  have hone : (1 : UInt32).toNat = 1 := rfl
  have hfits : ∀ p ∈ tr, Fits p.1 p.2 := by
    intro p hp
    obtain ⟨tr', -, hrun'⟩ := hrun.exists_run_to p hp
    obtain ⟨P, C, hat⟩ := run_ringAt h₀ hrun'
    exact (hsingle p hp).fits hat
  obtain ⟨tr', f, hf, -, P, C, hholds⟩ := burst_refines_fifo h₀ hrun hfits
  have hvalid := fifoStep_valid hf
  have hle := hholds.at_rest.le
  have hcap := hholds.at_rest.le_capacity
  have hlength : t.accepted.length = t.delivered.length + (P - C) := by
    rw [hholds.accepted, hholds.delivered, hvalid.accepted_eq, List.length_append, hholds.length]
  refine ⟨?_, fun table => ?_, fun table => ?_⟩
  · rw [hholds.delivered, hholds.accepted]
    exact hvalid.isPrefix_accepted
  · obtain ⟨r, -, hr⟩ := burstStep_enqueue hholds.at_rest table 1
    refine ⟨_, hr, ?_⟩
    dsimp only
    rw [hone, hlength]
    split_ifs with hroom
    · rw [min_eq_left (by omega)]
      rfl
    · rw [show 2 ^ k - 1 - (P - C) = 0 by omega]
      exact List.append_nil _
  · obtain ⟨r, -, hr⟩ := burstStep_dequeue hholds.at_rest table 1
    refine ⟨_, hr, ?_⟩
    dsimp only
    rw [hone, hlength, List.length_append, length_firstOf]
    split_ifs <;> omega

/-! ## Other counts -/

/-- The traffic after the elements `0, …, m - 1` have been enqueued one by one. -/
structure Filled (rb : KtRingbuf) (m : ℕ) (t : Traffic) : Prop where
  size : t.rb.size = rb.size
  mask : t.rb.mask = rb.mask
  capacity : t.rb.capacity = rb.capacity
  prod : t.rb.prod = ⟨UInt32.ofNat m, UInt32.ofNat m⟩
  cons : t.rb.cons = ⟨0, 0⟩
  accepted : t.accepted = (List.range m).map UInt64.ofNat
  delivered : t.delivered = []

/-- One element more. -/
theorem Filled.step {m : ℕ} (h : Filled rb m t) (hm : m < rb.capacity.toNat) :
    ∃ t', burstStep t (.enqueue (fun _ => UInt64.ofNat m) 1) = some t' ∧ Filled rb (m + 1) t' ∧
      t'.rb.slots (UInt32.ofNat m &&& rb.mask).toNat = UInt64.ofNat m := by
  have hlt := rb.capacity.toNat_lt
  have hroom : t.rb.capacity - (t.rb.prod.head - t.rb.cons.tail) ≠ 0 := by
    rw [h.prod, h.cons, h.capacity, UInt32.sub_zero, sub_ne_zero]
    intro heq
    have heq := congrArg UInt32.toNat heq
    dsimp only at heq
    rw [toNat_ofNat_of_lt (by omega)] at heq
    exact absurd heq hm.ne'
  have hburst := ktRingbufEnqueueBurst_eq (by rw [h.prod]) (fun _ => UInt64.ofNat m) 1
  simp only [burstCount_one hroom, enqueued, ktRingbufElemMoves_one,
    List.foldl_cons, List.foldl_nil] at hburst
  refine ⟨_, burstStep_of_enqueue hburst, ⟨h.size, h.mask, h.capacity, ?_, h.cons, ?_, h.delivered⟩, ?_⟩
  · dsimp only
    rw [h.prod, UInt32.ofNat_add]
    rfl
  · rw [List.range_succ, List.map_append, ← h.accepted]
    rfl
  · dsimp only
    rw [h.prod, h.mask, Function.update_self]

/-- A ring can be filled up to its capacity. -/
theorem exists_filled (h₀ : Filled rb 0 ⟨rb, [], [], []⟩) (m : ℕ) (hm : m ≤ rb.capacity.toNat) :
    ∃ tr t, Run burstStep ⟨rb, [], [], []⟩ tr t ∧ (∀ p ∈ tr, p.2.Single) ∧ Filled rb m t := by
  induction m with
  | zero => exact ⟨[], _, .nil, fun p hp => absurd hp List.not_mem_nil, h₀⟩
  | succ m ih =>
      obtain ⟨tr, t, hrun, hsingle, hfilled⟩ := ih (by omega)
      obtain ⟨t', hstep, hfilled', -⟩ := hfilled.step hm
      refine ⟨_, t', .snoc hrun hstep, ?_, hfilled'⟩
      rw [List.forall_mem_append, List.forall_mem_singleton]
      exact ⟨hsingle, rfl⟩

/-- **A ring that works has a power of two of slots.** Otherwise there is a position below the
capacity, other than `0`, that falls into slot `0`: its element is handed out in place of the first
one. -/
theorem pow_of_worksAsQueue {count : ℕ} (h₀ : Filled rb 0 ⟨rb, [], [], []⟩) (hcount : 2 ≤ count)
    (hmask : rb.mask.toNat = count - 1) (hcap : rb.capacity.toNat = count - 1)
    (h : WorksAsQueue count rb) : ∃ k, count = 2 ^ k := by
  by_contra hnot
  obtain ⟨j, hj, hclear⟩ := exists_clear_bit (m := rb.mask.toNat) (by omega) fun k hk =>
    hnot ⟨k, by omega⟩
  have hpos := Nat.two_pow_pos j
  obtain ⟨tr, t, hrun, hsingle, hfilled⟩ := exists_filled h₀ (2 ^ j) (by omega)
  obtain ⟨t₁, hstep₁, hfilled₁, hslot⟩ := hfilled.step (by omega)
  rw [toNat_ofNat_and_of_clear hj hclear] at hslot
  have hlt : 2 ^ j + 1 < 2 ^ 32 := by
    have := rb.mask.toNat_lt
    omega
  have hsome : t₁.rb.prod.tail - t₁.rb.cons.head ≠ 0 := by
    rw [hfilled₁.prod, hfilled₁.cons, UInt32.sub_zero]
    intro hzero
    have hzero := congrArg UInt32.toNat hzero
    rw [toNat_ofNat_of_lt hlt] at hzero
    exact absurd hzero (Nat.succ_ne_zero _)
  have hburst := ktRingbufDequeueBurst_eq (by rw [hfilled₁.cons]) (fun _ => 0) 1
  simp only [burstCount_one hsome, dequeued, ktRingbufElemMoves_one,
    List.foldl_cons, List.foldl_nil] at hburst
  obtain ⟨hfront, -⟩ := h _ _ (.snoc (.snoc hrun hstep₁) (burstStep_of_dequeue hburst)) (by
    rw [List.forall_mem_append, List.forall_mem_append, List.forall_mem_singleton,
      List.forall_mem_singleton]
    exact ⟨⟨hsingle, rfl⟩, rfl⟩)
  have hfirst : (t₁.rb.cons.head &&& (t₁.rb.size - 1)).toNat = 0 := by
    rw [hfilled₁.cons, UInt32.zero_and]
    rfl
  have hgot : [UInt64.ofNat (2 ^ j)] <+: (List.range (2 ^ j + 1)).map UInt64.ofNat := by
    rw [← hfilled₁.accepted, ← hslot, ← hfirst]
    rw [hfilled₁.delivered] at hfront
    exact hfront
  rw [List.range_succ_eq_map, List.map_cons, List.cons_prefix_cons] at hgot
  have hsame := congrArg UInt64.toNat hgot.1
  rw [UInt64.toNat_ofNat', UInt64.toNat_ofNat', Nat.mod_eq_of_lt (by omega)] at hsame
  exact hpos.ne' hsame

/-- **For which element counts a ring works.** For every count of at least two for which
`kt_ringbuf_create` returns a ring, with memory for that many slots: the ring is a queue for
single-element calls, with room for `count - 1` elements, if and only if the count is a power of
two. -/
theorem ring_works_iff_power_of_two (alloc : UInt32 → Option (ℕ → UInt64)) (count esize : UInt32)
    (rb : KtRingbuf) (htwo : 2 ≤ count.toNat)
    (hcreate : ktRingbufCreate alloc count esize = some rb) :
    WorksAsQueue count.toNat rb ↔ ∃ k, count.toNat = 2 ^ k := by
  constructor
  · have hone : (1 : UInt32).toNat = 1 := rfl
    have hpred : (count - 1).toNat = count.toNat - 1 :=
      UInt32.toNat_sub_of_le _ _ (UInt32.le_iff_toNat_le.mpr (by omega))
    obtain ⟨slots, rfl⟩ := ktRingbufCreate_eq_some hcreate
    exact pow_of_worksAsQueue ⟨rfl, rfl, rfl, rfl, rfl, rfl, rfl⟩ htwo hpred hpred
  · rintro ⟨k, hk⟩
    have hlt : k < 32 := (Nat.pow_lt_pow_iff_right Nat.one_lt_two).mp (hk ▸ count.toNat_lt)
    rw [hk]
    exact worksAsQueue_of_pow (ringAt_create (Nat.le_of_lt_succ hlt) hk hcreate)

/-- A ring of four slots. -/
theorem ring_works_iff_power_of_two_four : WorksAsQueue 4 ringOfFour :=
  (ring_works_iff_power_of_two (fun _ => some fun _ => 0) 4 8 ringOfFour (by decide) rfl).mpr ⟨2, rfl⟩

/-- A ring of 100 elements, the count that `ktsnd_socket.c` asks for. -/
def ringOfHundred : KtRingbuf := ⟨100, 1, 99, 99, ⟨0, 0⟩, ⟨0, 0⟩, fun _ => 0⟩

/-- Of the elements `1, …, 5` that are put into a ring of 100 elements, the fifth comes out first:
position `4` falls into slot `0`. -/
theorem ring_of_hundred_fails :
    ktRingbufCreate (fun _ => some fun _ => 0) 100 1 = some ringOfHundred ∧
      ∃ tr t, Run burstStep ⟨ringOfHundred, [], [], []⟩ tr t ∧
        tr.map Prod.snd = [.enqueue (fun _ => 1) 1, .enqueue (fun _ => 2) 1, .enqueue (fun _ => 3) 1,
          .enqueue (fun _ => 4) 1, .enqueue (fun _ => 5) 1, .dequeue (fun _ => 0) 1] ∧
        t.accepted = [1, 2, 3, 4, 5] ∧ t.delivered = [5] ∧ ¬ t.delivered <+: t.accepted := by
  refine ⟨rfl, ?_⟩
  have hexec : (exec burstStep ⟨ringOfHundred, [], [], []⟩
      [.enqueue (fun _ => 1) 1, .enqueue (fun _ => 2) 1, .enqueue (fun _ => 3) 1,
        .enqueue (fun _ => 4) 1, .enqueue (fun _ => 5) 1, .dequeue (fun _ => 0) 1]).map
        (fun t => (t.accepted, t.delivered)) = some ([1, 2, 3, 4, 5], [5]) := by
    decide +kernel
  obtain ⟨t, ht, hval⟩ := Option.map_eq_some_iff.mp hexec
  simp only [Prod.mk.injEq] at hval
  obtain ⟨hacc, hdel⟩ := hval
  obtain ⟨tr, hrun, hops⟩ := Run.of_exec ht
  refine ⟨tr, t, hrun, hops, hacc, hdel, ?_⟩
  rw [hacc, hdel]
  decide

end KuberneTSN.Ring
