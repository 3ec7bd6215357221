import KuberneTSN.Ring.Fifo

/-!
# The elements in a ring

`contents rb` lists the elements that wait in a ring, oldest first, as the stored counters delimit
them. For a ring at rest, whatever its positions are:

* `RingAt.enqueue_one`, `Appended` — a burst of one element appends it, if there is room;
  `RingAt.enqueue_full` — and a full ring takes nothing;
* `RingAt.dequeue_burst`, `Drained` — a dequeue shortens the list by what it hands out, and reads
  that from consecutive cells, also behind the array;
* `Drained.eq_take` — these are the oldest elements, if the burst stays inside the array;
* `RingAt.dequeue_one` — and so does a burst of one element.
-/

namespace KuberneTSN.Ring

open Lib

/-- The elements in a ring, oldest first. -/
def contents (rb : KtRingbuf) : List UInt64 :=
  (List.range (ktRingbufCount rb).toNat).map fun j =>
    rb.slots ((rb.cons.tail.toNat + j) % rb.size.toNat)

variable {rb : KtRingbuf} {k P C : ℕ}

/-- The elements between the two positions of a ring at rest. -/
theorem RingAt.contents_eq (h : RingAt rb k P C) :
    contents rb = (List.range (P - C)).map fun j => rb.slots ((C + j) % 2 ^ k) := by
  have hdvd : 2 ^ k ∣ 2 ^ 32 := Nat.pow_dvd_pow 2 (h.shape.le.trans (by omega))
  rw [contents, h.count, h.shape.size, h.cons]
  refine List.map_congr_left fun j _ => ?_
  rw [toNat_ofNat_mod, Nat.add_mod, Nat.mod_mod_of_dvd _ hdvd, ← Nat.add_mod]

/-- A ring at rest with equal positions is empty. -/
theorem RingAt.contents_eq_nil (h : RingAt rb k P P) : contents rb = [] := by
  rw [h.contents_eq, Nat.sub_self]
  rfl

theorem RingAt.length_contents (h : RingAt rb k P C) : (contents rb).length = P - C := by
  rw [h.contents_eq, List.length_map, List.length_range]

/-- The count that `kt_ringbuf_count` answers is the number of elements. -/
theorem length_contents (rb : KtRingbuf) : (contents rb).length = (ktRingbufCount rb).toNat := by
  rw [contents, List.length_map, List.length_range]

/-- A ring at rest, without a history, holds its elements. -/
theorem RingAt.holds (h : RingAt rb k P C) :
    Holds ⟨rb, [], [], []⟩ ⟨contents rb, [], []⟩ k P C := by
  refine ⟨h, h.length_contents, fun j hj => ?_, rfl, rfl⟩
  simp only [h.contents_eq, List.getElem_map, List.getElem_range]

/-- The elements of a ring that holds a queue. -/
theorem Holds.contents {t : Traffic} {f : Fifo UInt64} (h : Holds t f k P C) :
    contents t.rb = f.queue := by
  rw [h.at_rest.contents_eq, ← h.length, h.window.read le_rfl, List.take_length]

/-- The ring `rb'` is `rb` with the element `x` appended. -/
structure Appended (k : ℕ) (rb rb' : KtRingbuf) (x : UInt64) : Prop where
  at_rest : ∀ P C, RingAt rb k P C → RingAt rb' k (P + 1) C
  contents_eq : contents rb' = contents rb ++ [x]
  behind : ∀ s, 2 ^ k ≤ s → rb'.slots s = rb.slots s

/-- **Enqueue of one element**: it is appended, if there is room. -/
theorem RingAt.enqueue_one (h : RingAt rb k P C) (hroom : (contents rb).length < 2 ^ k - 1)
    (x : UInt64) :
    ∃ r, ktRingbufEnqueueBurst rb (fun _ => x) 8 1 = .ok r ∧ r.n = 1 ∧ Appended k rb r.rb x := by
  have hpos : P % 2 ^ k < 2 ^ k := Nat.mod_lt _ (Nat.two_pow_pos k)
  have hone : (1 : UInt32).toNat = 1 := rfl
  have hmin : ∀ P C, RingAt rb k P C → min (1 : UInt32).toNat (2 ^ k - 1 - (P - C)) = 1 := by
    intro P C h
    rw [h.length_contents] at hroom
    omega
  obtain ⟨r, hr, hspec⟩ := ktRingbufEnqueueBurst_spec h (fun _ => x) 1
  have hstep : burstStep ⟨rb, [], [], []⟩ (.enqueue (fun _ => x) 1) =
      some ⟨r.rb, [] ++ firstOf (fun _ => x) r.n.toNat, [], [] ++ r.touched⟩ := by
    rw [burstStep, hr]
  have hfits : Fits ⟨rb, [], [], []⟩ (.enqueue (fun _ => x) 1) := by
    rw [fits_enqueue h, hmin P C h]
    omega
  obtain ⟨P', hholds⟩ := h.holds.enqueue hfits hstep
  rw [hmin P C h] at hspec
  refine ⟨r, hr, UInt32.toNat_inj.mp hspec.n, ⟨?_, ?_, ?_⟩⟩
  · intro P C h
    obtain ⟨r', hr', hspec'⟩ := ktRingbufEnqueueBurst_spec h (fun _ => x) 1
    rw [hr] at hr'
    cases hr'
    rw [hmin P C h] at hspec'
    exact hspec'.at_rest
  · have hcut := hmin P C h
    refine hholds.contents.trans ?_
    rw [Fifo.offer, take_firstOf, h.length_contents, hcut]
    rfl
  · intro s hs
    rw [hspec.slots]
    exact if_neg (by omega)

/-- A full ring takes nothing. -/
theorem RingAt.enqueue_full (h : RingAt rb k P C) (hfull : 2 ^ k - 1 ≤ (contents rb).length)
    (x : UInt64) : ∃ r, ktRingbufEnqueueBurst rb (fun _ => x) 8 1 = .ok r ∧ r.n = 0 ∧ r.rb = rb := by
  have hfree : rb.capacity - (rb.prod.head - rb.cons.tail) = 0 := by
    apply UInt32.toNat_inj.mp
    rw [h.length_contents] at hfull
    rw [h.free, UInt32.toNat_zero]
    omega
  have htail : rb.prod.tail = rb.prod.head := by rw [h.prod]
  refine ⟨_, ktRingbufEnqueueBurst_eq htail _ 1, ?_, ?_⟩
  · rw [hfree]
    rfl
  · rw [hfree, show burstCount 1 0 = 0 from rfl, enqueued, ktRingbufElemMoves_zero, UInt32.add_zero]
    obtain ⟨size, esize, mask, capacity, ⟨head, tail⟩, cons, slots⟩ := rb
    obtain rfl : tail = head := htail
    rfl

/-- The ring `rb'` is `rb` without its `got.length` oldest elements, as many as there are up to `n`;
`got` was read from the cells at its consumer position and behind. -/
structure Drained (k n : ℕ) (rb rb' : KtRingbuf) (got : List UInt64) : Prop where
  length : got.length = min n (contents rb).length
  at_rest : ∀ P C, RingAt rb k P C → RingAt rb' k P (C + got.length)
  contents_eq : contents rb' = (contents rb).drop got.length
  slots : rb'.slots = rb.slots
  read : ∀ P C, RingAt rb k P C →
    got = (List.range got.length).map fun j => rb.slots (C % 2 ^ k + j)

/-- **Dequeue of up to `n` elements.** -/
theorem RingAt.dequeue_burst (h : RingAt rb k P C) (table : ℕ → UInt64) (n : UInt32) :
    ∃ r, ktRingbufDequeueBurst rb table 8 n = .ok r ∧
      Drained k n.toNat rb r.rb (firstOf r.table r.n.toNat) := by
  obtain ⟨r, hr, hspec⟩ := ktRingbufDequeueBurst_spec h table n
  have hall : ∀ P C, RingAt rb k P C → DequeuedAt rb k P C table r.n.toNat r := by
    intro P C h
    obtain ⟨r', hr', hspec'⟩ := ktRingbufDequeueBurst_spec h table n
    rw [hr] at hr'
    cases hr'
    rw [hspec'.n]
    exact hspec'
  refine ⟨r, hr, ⟨?_, ?_, ?_, hspec.slots, ?_⟩⟩
  · rw [length_firstOf, hspec.n, h.length_contents]
  · intro P C h
    rw [length_firstOf]
    exact (hall P C h).at_rest
  · have hwindow : Window r.rb.slots (2 ^ k) (C + r.n.toNat) ((contents rb).drop r.n.toNat) := by
      rw [hspec.slots]
      exact h.holds.window.drop _
    have hlen : ((contents rb).drop r.n.toNat).length = P - (C + r.n.toNat) := by
      rw [List.length_drop, h.length_contents]
      omega
    rw [length_firstOf, (hall P C h).at_rest.contents_eq, ← hlen, hwindow.read le_rfl,
      List.take_length]
  · intro P C h
    rw [length_firstOf]
    refine List.map_congr_left fun j hj => ?_
    rw [(hall P C h).table]
    exact if_pos (List.mem_range.mp hj)

/-- A dequeue that stays inside the array hands out the oldest elements. -/
theorem Drained.eq_take {n : ℕ} {rb' : KtRingbuf} {got : List UInt64} (h : Drained k n rb rb' got)
    (hat : RingAt rb k P C) (hfits : C % 2 ^ k + got.length ≤ 2 ^ k) :
    got = (contents rb).take got.length := by
  have hle : got.length ≤ (contents rb).length := h.length ▸ min_le_right _ _
  refine (h.read P C hat).trans ?_
  rw [← hat.holds.window.read hle]
  refine List.map_congr_left fun j hj => ?_
  rw [add_mod_of_fits hfits (List.mem_range.mp hj)]

/-- **Dequeue of one element**: the oldest one, if there is any. -/
theorem RingAt.dequeue_one (h : RingAt rb k P C) (table : ℕ → UInt64) :
    ∃ r, ktRingbufDequeueBurst rb table 8 1 = .ok r ∧
      (contents rb = [] ∧ r.n = 0 ∧ Drained k 1 rb r.rb [] ∨
        contents rb = r.table 0 :: contents r.rb ∧ r.n = 1 ∧ Drained k 1 rb r.rb [r.table 0]) := by
  obtain ⟨r, hr, hdrained⟩ := h.dequeue_burst table 1
  have hone : (1 : UInt32).toNat = 1 := rfl
  have hslot : C % 2 ^ k < 2 ^ k := Nat.mod_lt _ (Nat.two_pow_pos k)
  have hlen := hdrained.length
  rw [length_firstOf, hone] at hlen
  refine ⟨r, hr, ?_⟩
  cases hfree : contents rb with
  | nil =>
      have hn : r.n = 0 := UInt32.toNat_inj.mp (by rw [hlen, hfree]; rfl)
      rw [hn] at hdrained
      exact Or.inl ⟨rfl, hn, hdrained⟩
  | cons i rest =>
      have hn : r.n = 1 := UInt32.toNat_inj.mp (by rw [hlen, hfree, List.length_cons, hone]; omega)
      rw [hn] at hdrained
      have htake : [r.table 0] = [i] := by
        refine (hdrained.eq_take h hslot).trans ?_
        rw [hfree]
        rfl
      refine Or.inr ⟨?_, hn, hdrained⟩
      rw [List.singleton_inj.mp htake, hdrained.contents_eq, hfree]
      rfl

end KuberneTSN.Ring
