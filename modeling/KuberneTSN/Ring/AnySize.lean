import KuberneTSN.Ring.Memory

/-!
# Rings of any size

`kt_ringbuf_create` takes any element count. Positions are masked with `count - 1`, so with a count
that is not a power of two only some slots are ever used, and an element may be written over
another one that has not been taken out yet. The number of entries is right all the same: it is the
distance of the two heads.

* `AtRest.push`, `AtRest.push_full` — an enqueue of one element;
* `AtRest.pull` — a dequeue of up to `n` elements hands out what some slots hold, as many as there
  are entries.
-/

namespace KuberneTSN.Ring

variable {count : UInt32} {rb : KtRingbuf}

/-- The number of entries. -/
def filled (rb : KtRingbuf) : ℕ := (rb.prod.head - rb.cons.head).toNat

/-- The slot of the next element. -/
def nextSlot (rb : KtRingbuf) : ℕ := (rb.prod.head &&& rb.mask).toNat

/-- The ring `rb'` is `rb` after the element `i` was put in. -/
structure Pushed (count : UInt32) (rb rb' : KtRingbuf) (i : UInt64) : Prop where
  at_rest : AtRest count rb'
  filled : filled rb' = filled rb + 1
  slots : rb'.slots = Function.update rb.slots (nextSlot rb) i

/-- The ring `rb'` is `rb` after the elements `got` were taken out, as many as there are up to `n`;
each of them was in some slot. -/
structure Pulled (count : UInt32) (n : ℕ) (rb rb' : KtRingbuf) (got : List UInt64) : Prop where
  at_rest : AtRest count rb'
  length : got.length = min n (filled rb)
  filled : filled rb' + got.length = filled rb
  slots : rb'.slots = rb.slots
  read : ∀ i ∈ got, ∃ k, rb.slots k = i

/-- A new ring. -/
theorem atRest_create {alloc : UInt32 → Option (ℕ → UInt64)} {esize : UInt32}
    (h : ktRingbufCreate alloc count esize = some rb) : AtRest count rb ∧ filled rb = 0 := by
  obtain ⟨slots, rfl⟩ := ktRingbufCreate_eq_some h
  have hzero : ((0 : UInt32) - 0).toNat = 0 := rfl
  exact ⟨⟨rfl, rfl, rfl, rfl, rfl, by dsimp only; omega⟩, hzero⟩

/-- The slot of the next element is in the array. -/
theorem AtRest.nextSlot_le (h : AtRest count rb) : nextSlot rb ≤ (count - 1).toNat := by
  rw [nextSlot, h.mask]
  exact toNat_and_le _ _

/-- An enqueue of one element, where there is room. -/
theorem AtRest.push (h : AtRest count rb) (hroom : filled rb < (count - 1).toNat) (i : UInt64) :
    ∃ r, ktRingbufEnqueueBurst rb (fun _ => i) 8 1 = .ok r ∧ r.n = 1 ∧ Pushed count rb r.rb i := by
  have hfree := h.toNat_free
  have hone : (1 : UInt32).toNat = 1 := rfl
  have hlt := (count - 1).toNat_lt
  unfold filled at hroom
  have hm : burstCount 1 (rb.capacity - (rb.prod.head - rb.cons.tail)) = 1 := by
    apply UInt32.toNat_inj.mp
    rw [toNat_burstCount, hfree]
    omega
  have hfilled : (rb.prod.head + 1 - rb.cons.head).toNat =
      (rb.prod.head - rb.cons.head).toNat + 1 := by
    rw [add_sub_right_comm, UInt32.toNat_add, hone]
    exact Nat.mod_eq_of_lt (by omega)
  refine ⟨_, ktRingbufEnqueueBurst_eq h.prod _ 1, hm, ?_⟩
  rw [hm]
  refine ⟨⟨h.size, h.mask, h.capacity, rfl, h.cons, ?_⟩, hfilled, ?_⟩
  · exact hfilled.trans_le hroom
  · simp only [enqueued, ktRingbufElemMoves_one, List.foldl_cons, List.foldl_nil, nextSlot]

/-- An element that was put in is in a slot, and the other slots are as before. -/
theorem Pushed.slots_eq_or {rb' : KtRingbuf} {i : UInt64} (h : Pushed count rb rb' i) (k : ℕ) :
    rb'.slots k = rb.slots k ∨ rb'.slots k = i := by
  rw [h.slots]
  by_cases hk : k = nextSlot rb
  · rw [hk, Function.update_self]
    exact Or.inr rfl
  · rw [Function.update_of_ne hk]
    exact Or.inl rfl

/-- A full ring takes nothing. -/
theorem AtRest.push_full (h : AtRest count rb) (hfull : (count - 1).toNat ≤ filled rb)
    (i : UInt64) : ∃ r, ktRingbufEnqueueBurst rb (fun _ => i) 8 1 = .ok r ∧ r.rb = rb := by
  have hfree : rb.capacity - (rb.prod.head - rb.cons.tail) = 0 := by
    apply UInt32.toNat_inj.mp
    rw [h.toNat_free, UInt32.toNat_zero]
    exact Nat.sub_eq_zero_of_le hfull
  refine ⟨_, ktRingbufEnqueueBurst_eq h.prod _ 1, ?_⟩
  rw [hfree, show burstCount 1 0 = 0 from rfl, enqueued, ktRingbufElemMoves_zero, UInt32.add_zero]
  have htail := h.prod
  obtain ⟨size, esize, mask, capacity, ⟨head, tail⟩, cons, slots⟩ := rb
  obtain rfl : tail = head := htail
  rfl

/-- A dequeue of up to `n` elements. -/
theorem AtRest.pull (h : AtRest count rb) (hcount : (count - 1).toNat < 2 ^ 31) (table : ℕ → UInt64)
    (n : UInt32) :
    ∃ r, ktRingbufDequeueBurst rb table 8 n = .ok r ∧
      Pulled count n.toNat rb r.rb (firstOf r.table r.n.toNat) := by
  have hle := h.filled_le
  have hm := toNat_burstCount n (rb.prod.head - rb.cons.head)
  have hmoves : ∀ m : UInt32, m.toNat ≤ (count - 1).toNat →
      ktRingbufElemMoves rb.size (rb.cons.head &&& (rb.size - 1)) m =
        block (rb.cons.head &&& (rb.size - 1)).toNat 0 m.toNat := by
    intro m hm
    have hidx := toNat_and_le rb.cons.head (rb.size - 1)
    rw [h.size] at hidx ⊢
    exact ktRingbufElemMoves_eq _ _ _ (by omega)
  refine ⟨_, ktRingbufDequeueBurst_eq h.cons table n, ?_⟩
  rw [h.prod]
  generalize burstCount n (rb.prod.head - rb.cons.head) = m at hm
  have hdiff : (rb.prod.head - (rb.cons.head + m)).toNat =
      (rb.prod.head - rb.cons.head).toNat - m.toNat := by
    rw [sub_add_eq_sub_sub]
    exact UInt32.toNat_sub_of_le _ _ (UInt32.le_iff_toNat_le.mpr (by omega))
  refine ⟨⟨h.size, h.mask, h.capacity, h.prod, rfl, ?_⟩, ?_, ?_, rfl, ?_⟩
  · exact hdiff.trans_le (by omega)
  · rw [length_firstOf]
    exact hm
  · rw [length_firstOf]
    change (rb.prod.head - (rb.cons.head + m)).toNat + m.toNat = _
    rw [hdiff, filled]
    omega
  · intro i hi
    rw [firstOf, List.mem_map] at hi
    obtain ⟨j, hj, rfl⟩ := hi
    refine ⟨(rb.cons.head &&& (rb.size - 1)).toNat + j, ?_⟩
    simp only [dequeued]
    rw [hmoves m (by omega), foldl_load_block]
    exact (if_pos (List.mem_range.mp hj)).symm

end KuberneTSN.Ring
