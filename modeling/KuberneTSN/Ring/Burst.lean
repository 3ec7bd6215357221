import KuberneTSN.Ring.Copy

/-!
# What one burst does

`RingAt rb k P C` is a ring of `2^k` slots at rest, to which `P` elements have been published and
from which `C` have been taken; the four stored counters are these two numbers modulo `2^32`. On
such a ring a burst call always returns, and these are its effects:

* `ktRingbufEnqueueBurst_eq`, `ktRingbufDequeueBurst_eq` — what a call does to any ring at rest;
* `ktRingbufEnqueueBurst_spec` — it accepts as many elements as there is room for and stores them in
  consecutive slots from `P % 2^k` on, past the end of the array if need be;
* `ktRingbufDequeueBurst_spec` — it hands out as many elements as there are, from consecutive slots
  from `C % 2^k` on;
* `RingAt.count` — `kt_ringbuf_count` is `P - C`;
* `ktRingbufEnqueueBurst_one_frame`, `ktRingbufDequeueBurst_frame` — what a call leaves alone, on
  any ring.

Whether a burst stays inside the array makes no difference here; `KuberneTSN.Ring.Fifo` asks when it
does.
-/

namespace KuberneTSN.Ring

open Lib

variable {rb : KtRingbuf} {k P C : ℕ}

/-- The geometry that `kt_ringbuf_create` gives a ring of `2^k` slots. -/
structure Shape (rb : KtRingbuf) (k : ℕ) : Prop where
  le : k ≤ 31
  size : rb.size.toNat = 2 ^ k
  mask : rb.mask = rb.size - 1
  capacity : rb.capacity = rb.mask

/-- The number of slots is a 32-bit number. -/
theorem Shape.pow_le (h : Shape rb k) : 2 ^ k ≤ 2 ^ 31 := Nat.pow_le_pow_right (by omega) h.le

/-- The mask has the low `k` bits. -/
theorem Shape.toNat_mask (h : Shape rb k) : rb.mask.toNat = 2 ^ k - 1 := by
  have hpos : 0 < 2 ^ k := Nat.two_pow_pos k
  have hle := h.pow_le
  have hone : (1 : UInt32).toNat = 1 := rfl
  rw [h.mask, UInt32.toNat_sub, h.size, hone]
  omega

/-- Every masked counter is the number of a slot. -/
theorem Shape.slot_lt (h : Shape rb k) (x : UInt32) : (x &&& rb.mask).toNat < rb.size.toNat := by
  rw [toNat_and_mask h.toNat_mask, h.size]
  exact Nat.mod_lt _ (Nat.two_pow_pos k)

/-- One slot stays free. -/
theorem Shape.toNat_capacity (h : Shape rb k) : rb.capacity.toNat = 2 ^ k - 1 := by
  rw [h.capacity, h.toNat_mask]

/-- Only these three fields matter. -/
theorem Shape.of_eq {rb' : KtRingbuf} (h : Shape rb k) (hsize : rb'.size = rb.size)
    (hmask : rb'.mask = rb.mask) (hcap : rb'.capacity = rb.capacity) : Shape rb' k :=
  ⟨h.le, by rw [hsize, h.size], by rw [hmask, hsize, h.mask], by rw [hcap, hmask, h.capacity]⟩

/-- A ring at rest with `P` elements published and `C` taken. -/
structure RingAt (rb : KtRingbuf) (k P C : ℕ) : Prop where
  shape : Shape rb k
  prod : rb.prod = ⟨UInt32.ofNat P, UInt32.ofNat P⟩
  cons : rb.cons = ⟨UInt32.ofNat C, UInt32.ofNat C⟩
  le : C ≤ P
  le_capacity : P ≤ C + (2 ^ k - 1)

/-- The ring that `kt_ringbuf_create` returns. -/
theorem ktRingbufCreate_eq_some {alloc : UInt32 → Option (ℕ → UInt64)} {count esize : UInt32}
    (h : ktRingbufCreate alloc count esize = some rb) :
    ∃ slots, rb = ⟨count, esize, count - 1, count - 1, ⟨0, 0⟩, ⟨0, 0⟩, slots⟩ := by
  simp only [ktRingbufCreate, Option.bind_eq_bind, Option.bind_eq_some_iff,
    Option.some.injEq] at h
  obtain ⟨slots, -, rfl⟩ := h
  exact ⟨slots, rfl⟩

/-- A ring fresh from `kt_ringbuf_create`. -/
theorem ringAt_create {alloc : UInt32 → Option (ℕ → UInt64)} {count esize : UInt32}
    (hk : k ≤ 31) (hcount : count.toNat = 2 ^ k)
    (h : ktRingbufCreate alloc count esize = some rb) : RingAt rb k 0 0 := by
  obtain ⟨slots, rfl⟩ := ktRingbufCreate_eq_some h
  exact ⟨⟨hk, hcount, rfl, rfl⟩, rfl, rfl, le_rfl, by omega⟩

/-- The entries in a ring at rest. -/
theorem RingAt.count (h : RingAt rb k P C) : (ktRingbufCount rb).toNat = P - C := by
  have hle := h.shape.pow_le
  have hPC := h.le_capacity
  have hcap := h.shape.toNat_capacity
  have hsub : (rb.prod.tail - rb.cons.tail).toNat = P - C := by
    rw [h.prod, h.cons]
    exact toNat_ofNat_sub h.le (by omega)
  have hcount : ((rb.prod.tail - rb.cons.tail) &&& rb.mask).toNat = P - C := by
    rw [toNat_and_mask h.shape.toNat_mask, hsub]
    exact Nat.mod_eq_of_lt (by have := Nat.two_pow_pos k; omega)
  unfold ktRingbufCount
  dsimp only
  rw [if_neg, hcount]
  rw [gt_iff_lt, UInt32.lt_iff_toNat_lt, hcount, hcap]
  omega

/-! ## Reserving -/

/-- The number of elements that a burst of `n` gets: no more than the entries there are. -/
def burstCount (n entries : UInt32) : UInt32 := if n > entries then entries else n

theorem toNat_burstCount (n entries : UInt32) :
    (burstCount n entries).toNat = min n.toNat entries.toNat := by
  simp only [burstCount, gt_iff_lt, UInt32.lt_iff_toNat_lt]
  split_ifs with h
  · exact (min_eq_right h.le).symm
  · exact (min_eq_left (not_lt.mp h)).symm

/-- A burst of one element, where there is an entry for it. -/
theorem burstCount_one {entries : UInt32} (h : entries ≠ 0) : burstCount 1 entries = 1 := by
  apply UInt32.toNat_inj.mp
  rw [toNat_burstCount]
  have hone : (1 : UInt32).toNat = 1 := rfl
  have hne : entries.toNat ≠ 0 := fun hzero => h (UInt32.toNat_inj.mp hzero)
  omega

/-- A reservation of a burst. -/
theorem reserve_variable_eq (n oldHead entries : UInt32) :
    reserve .variable n oldHead entries =
      ⟨burstCount n entries, oldHead, oldHead + burstCount n entries, entries⟩ := rfl

theorem reserve_variable (n oldHead entries : UInt32) :
    (reserve .variable n oldHead entries).n.toNat = min n.toNat entries.toNat := by
  rw [reserve_variable_eq, toNat_burstCount]

/-- The copy of nothing. -/
theorem ktRingbufElemMoves_zero (size idx : UInt32) : ktRingbufElemMoves size idx 0 = [] :=
  ktRingbufElemMoves_eq size idx 0 idx.toNat_lt.le

/-- The copy of one element. -/
theorem ktRingbufElemMoves_one (size idx : UInt32) :
    ktRingbufElemMoves size idx 1 = [(idx.toNat, 0)] := by
  rw [ktRingbufElemMoves_eq size idx 1 idx.toNat_lt]
  exact block_one _ _

/-- What an enqueue of `m` elements leaves behind, with `entries` entries free before. -/
def enqueued (rb : KtRingbuf) (table : ℕ → UInt64) (entries m : UInt32) : Enqueued :=
  let moves := ktRingbufElemMoves rb.size (rb.prod.head &&& rb.mask) m
  { rb := { rb with
      prod := ⟨rb.prod.head + m, rb.prod.head + m⟩
      slots := moves.foldl (fun ring mv => Function.update ring mv.1 (table mv.2)) rb.slots }
    n := m
    freeSpace := entries - m
    touched := moves.map Prod.fst }

/-- **An enqueue burst on a ring at rest**, of any geometry: it accepts what it is asked for, or as
much as there is room for. -/
theorem ktRingbufEnqueueBurst_eq (htail : rb.prod.tail = rb.prod.head) (table : ℕ → UInt64)
    (n : UInt32) :
    ktRingbufEnqueueBurst rb table 8 n =
      let entries := rb.capacity - (rb.prod.head - rb.cons.tail)
      .ok (enqueued rb table entries (burstCount n entries)) := by
  obtain ⟨size, esize, mask, capacity, ⟨head, tail⟩, cons, slots⟩ := rb
  obtain rfl : tail = head := htail
  simp only [ktRingbufEnqueueBurst, ktRingbufDoEnqueueElems, ktRingbufMoveProdHead,
    reserve_variable_eq, enqueued]
  by_cases h0 : burstCount n (capacity - (tail - cons.tail)) = 0
  · -- nothing fits: the ring is handed back as it was
    simp only [h0, ktRingbufElemMoves_zero, UInt32.add_zero, List.foldl_nil, List.map_nil, if_pos]
  · simp only [h0, if_false]
    exact if_neg (not_not.mpr rfl)

/-- What a dequeue of `m` elements leaves behind, with `entries` entries filled before. -/
def dequeued (rb : KtRingbuf) (table : ℕ → UInt64) (entries m : UInt32) : Dequeued :=
  let moves := ktRingbufElemMoves rb.size (rb.cons.head &&& (rb.size - 1)) m
  { rb := { rb with cons := ⟨rb.cons.head + m, rb.cons.head + m⟩ }
    table := moves.foldl (fun dst mv => Function.update dst mv.2 (rb.slots mv.1)) table
    n := m
    available := entries - m
    touched := moves.map Prod.fst }

/-- **A dequeue burst on a ring at rest**, of any geometry: it hands out what it is asked for, or
as much as there is. -/
theorem ktRingbufDequeueBurst_eq (htail : rb.cons.tail = rb.cons.head) (table : ℕ → UInt64)
    (n : UInt32) :
    ktRingbufDequeueBurst rb table 8 n =
      let entries := rb.prod.tail - rb.cons.head
      .ok (dequeued rb table entries (burstCount n entries)) := by
  obtain ⟨size, esize, mask, capacity, prod, ⟨head, tail⟩, slots⟩ := rb
  obtain rfl : tail = head := htail
  simp only [ktRingbufDequeueBurst, ktRingbufDoDequeueElems, ktRingbufMoveConsHead,
    reserve_variable_eq, dequeued]
  by_cases h0 : burstCount n (prod.tail - tail) = 0
  · simp only [h0, ktRingbufElemMoves_zero, UInt32.add_zero, List.foldl_nil, List.map_nil, if_pos]
  · simp only [h0, if_false]
    exact if_neg (not_not.mpr rfl)

/-- The free entries that a producer sees. -/
theorem RingAt.free (h : RingAt rb k P C) :
    (rb.capacity - (rb.prod.head - rb.cons.tail)).toNat = 2 ^ k - 1 - (P - C) := by
  have hle := h.shape.pow_le
  have hPC := h.le_capacity
  have hsub : (rb.prod.head - rb.cons.tail).toNat = P - C := by
    rw [h.prod, h.cons]
    exact toNat_ofNat_sub h.le (by omega)
  rw [UInt32.toNat_sub, hsub, h.shape.toNat_capacity]
  omega

/-- The entries that a consumer sees. -/
theorem RingAt.entries (h : RingAt rb k P C) : (rb.prod.tail - rb.cons.head).toNat = P - C := by
  have hle := h.shape.pow_le
  have hPC := h.le_capacity
  rw [h.prod, h.cons]
  exact toNat_ofNat_sub h.le (by omega)

/-- The slots of a burst that starts at position `p` are those of a block copy. -/
theorem Shape.moves (h : Shape rb k) {p : ℕ} {m : UInt32} (hm : m.toNat ≤ 2 ^ k - 1) :
    ktRingbufElemMoves rb.size (UInt32.ofNat p &&& rb.mask) m = block (p % 2 ^ k) 0 m.toNat := by
  have hidx := toNat_ofNat_and_mask (p := p) (h.le.trans (by omega)) h.toNat_mask
  have hlt : p % 2 ^ k < 2 ^ k := Nat.mod_lt _ (Nat.two_pow_pos k)
  have hpow := h.pow_le
  rw [ktRingbufElemMoves_eq _ _ _ (by omega), hidx]

/-! ## Enqueue -/

/-- The outcome `r` of an enqueue that accepts `m` elements. -/
structure EnqueuedAt (rb : KtRingbuf) (k P C : ℕ) (table : ℕ → UInt64) (m : ℕ) (r : Enqueued) :
    Prop where
  n : r.n.toNat = m
  at_rest : RingAt r.rb k (P + m) C
  freeSpace : r.freeSpace.toNat = 2 ^ k - 1 - (P - C) - m
  touched : r.touched = (List.range m).map (P % 2 ^ k + ·)
  slots : r.rb.slots = fun s =>
    if P % 2 ^ k ≤ s ∧ s < P % 2 ^ k + m then table (s - P % 2 ^ k) else rb.slots s

/-- **One enqueue.** The call returns, and accepts as many elements as there is room for. -/
theorem ktRingbufEnqueueBurst_spec (h : RingAt rb k P C) (table : ℕ → UInt64) (n : UInt32) :
    ∃ r, ktRingbufEnqueueBurst rb table 8 n = .ok r ∧
      EnqueuedAt rb k P C table (min n.toNat (2 ^ k - 1 - (P - C))) r := by
  have hPC := h.le_capacity
  have hCP := h.le
  have hfree := h.free
  refine ⟨_, ktRingbufEnqueueBurst_eq (by rw [h.prod]) table n, ?_⟩
  generalize rb.capacity - (rb.prod.head - rb.cons.tail) = e at hfree ⊢
  have hm := toNat_burstCount n e
  rw [hfree] at hm
  generalize burstCount n e = m at hm ⊢
  have hmoves := h.shape.moves (p := P) (m := m) (by omega)
  rw [← hm, enqueued, show rb.prod.head = UInt32.ofNat P from congrArg KtHeadtail.head h.prod, hmoves]
  refine ⟨rfl, ?_, ?_, map_fst_block _ _ _, foldl_store_block _ _ _ _⟩
  · exact ⟨h.shape.of_eq rfl rfl rfl, by rw [ofNat_add_eq], h.cons, by omega, by omega⟩
  · rw [UInt32.toNat_sub_of_le _ _ (UInt32.le_iff_toNat_le.mpr (by omega)), hfree]

/-! ## Dequeue -/

/-- The outcome `r` of a dequeue that hands out `m` elements. -/
structure DequeuedAt (rb : KtRingbuf) (k P C : ℕ) (table : ℕ → UInt64) (m : ℕ) (r : Dequeued) :
    Prop where
  n : r.n.toNat = m
  at_rest : RingAt r.rb k P (C + m)
  available : r.available.toNat = P - C - m
  touched : r.touched = (List.range m).map (C % 2 ^ k + ·)
  table : r.table = fun j => if j < m then rb.slots (C % 2 ^ k + j) else table j
  slots : r.rb.slots = rb.slots

/-- **One dequeue.** The call returns, and hands out as many elements as there are. -/
theorem ktRingbufDequeueBurst_spec (h : RingAt rb k P C) (table : ℕ → UInt64) (n : UInt32) :
    ∃ r, ktRingbufDequeueBurst rb table 8 n = .ok r ∧
      DequeuedAt rb k P C table (min n.toNat (P - C)) r := by
  have hPC := h.le_capacity
  have hCP := h.le
  have hentries := h.entries
  refine ⟨_, ktRingbufDequeueBurst_eq (by rw [h.cons]) table n, ?_⟩
  generalize rb.prod.tail - rb.cons.head = e at hentries ⊢
  have hm := toNat_burstCount n e
  rw [hentries] at hm
  generalize burstCount n e = m at hm ⊢
  have hmoves := h.shape.moves (p := C) (m := m) (by omega)
  rw [← hm, dequeued, show rb.cons.head = UInt32.ofNat C from congrArg KtHeadtail.head h.cons,
    ← h.shape.mask, hmoves]
  refine ⟨rfl, ?_, ?_, map_fst_block _ _ _, foldl_load_block _ _ _ _, rfl⟩
  · exact ⟨h.shape.of_eq rfl rfl rfl, h.prod, by rw [ofNat_add_eq], by omega, by omega⟩
  · rw [UInt32.toNat_sub_of_le _ _ (UInt32.le_iff_toNat_le.mpr (by omega)), hentries]

/-! ## What a call leaves alone -/

section frame

variable {table : ℕ → UInt64} {n : UInt32}

/-- An enqueue that returns found no room, or the tail where the head was. -/
theorem ktRingbufEnqueueBurst_ok {r : Enqueued}
    (h : ktRingbufEnqueueBurst rb table 8 n = .ok r) : r.rb = rb ∨ rb.prod.tail = rb.prod.head := by
  by_cases htail : rb.prod.tail = rb.prod.head
  · exact .inr htail
  · simp only [ktRingbufEnqueueBurst, ktRingbufDoEnqueueElems, ktRingbufMoveProdHead,
      reserve_variable_eq] at h
    by_cases h0 : burstCount n (rb.capacity - (rb.prod.head - rb.cons.tail)) = 0
    · simp only [h0, if_pos] at h
      cases h
      exact .inl rfl
    · simp only [h0, if_false] at h
      have hspin := (if_pos (c := rb.prod.tail ≠ rb.prod.head) htail).symm.trans h
      exact absurd hspin (by simp)

/-- A dequeue that returns found nothing, or the tail where the head was. -/
theorem ktRingbufDequeueBurst_ok {r : Dequeued}
    (h : ktRingbufDequeueBurst rb table 8 n = .ok r) : r.rb = rb ∨ rb.cons.tail = rb.cons.head := by
  by_cases htail : rb.cons.tail = rb.cons.head
  · exact .inr htail
  · simp only [ktRingbufDequeueBurst, ktRingbufDoDequeueElems, ktRingbufMoveConsHead,
      reserve_variable_eq] at h
    by_cases h0 : burstCount n (rb.prod.tail - rb.cons.head) = 0
    · simp only [h0, if_pos] at h
      cases h
      exact .inl rfl
    · simp only [h0, if_false] at h
      have hspin := (if_pos (c := rb.cons.tail ≠ rb.cons.head) htail).symm.trans h
      exact absurd hspin (by simp)

/-- A dequeue changes the counters of the consumers and nothing else, whatever the counters were. -/
theorem ktRingbufDequeueBurst_frame {r : Dequeued}
    (h : ktRingbufDequeueBurst rb table 8 n = .ok r) :
    ∃ cons, r.rb = { rb with cons := cons } := by
  rcases ktRingbufDequeueBurst_ok h with hsame | htail
  · exact ⟨rb.cons, hsame⟩
  · rw [ktRingbufDequeueBurst_eq htail] at h
    cases h
    exact ⟨_, rfl⟩

/-- An enqueue of one element changes the counters of the producers and the slot under their head,
and nothing else. -/
theorem ktRingbufEnqueueBurst_one_frame {r : Enqueued}
    (h : ktRingbufEnqueueBurst rb table 8 1 = .ok r) :
    ∃ prod slots, r.rb = { rb with prod := prod, slots := slots } ∧
      ∀ a, a ≠ (rb.prod.head &&& rb.mask).toNat → slots a = rb.slots a := by
  rcases ktRingbufEnqueueBurst_ok h with hsame | htail
  · exact ⟨rb.prod, rb.slots, hsame, fun _ _ => rfl⟩
  · rw [ktRingbufEnqueueBurst_eq htail] at h
    cases h
    refine ⟨_, _, rfl, fun a ha => ?_⟩
    generalize rb.capacity - (rb.prod.head - rb.cons.tail) = e
    by_cases hnone : e = 0
    · have hzero : burstCount 1 e = 0 := by rw [hnone]; rfl
      rw [hzero, ktRingbufElemMoves_zero, List.foldl_nil]
    · rw [burstCount_one hnone, ktRingbufElemMoves_one, List.foldl_cons, List.foldl_nil,
        Function.update_of_ne ha]

end frame

end KuberneTSN.Ring
