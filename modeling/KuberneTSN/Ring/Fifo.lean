import KuberneTSN.Ring.Burst
import KuberneTSN.Lib.Fifo
import KuberneTSN.Lib.Run
import KuberneTSN.Lib.Window

/-!
# When the ring buffer is a FIFO

Runs of burst calls on a ring made by `kt_ringbuf_create`, with the history of the elements accepted
and handed out and of the slots touched.

* `burst_refines_fifo` — as long as every call `Fits`, that is, its burst ends at or before the end
  of the slot array, the ring refines the bounded queue of `KuberneTSN.Lib.Fifo`.
* `touched_lt_iff_fits` — the slots touched all lie in the array exactly when every call fits.
* `ring_fifo_iff_fits` — so the ring is a FIFO inside its array exactly when every call fits. The
  counters of the model are unbounded (`RingAt`), so a wrap of the stored ones makes no difference.
* `ring_fifo_fails` — five calls on a ring of four slots that lose an element.
-/

namespace KuberneTSN.Ring

open Lib

variable {rb : KtRingbuf} {k P C : ℕ}

/-- A burst call with 8-byte elements. -/
inductive BurstOp where
  | enqueue (table : ℕ → UInt64) (n : UInt32)
  | dequeue (table : ℕ → UInt64) (n : UInt32)

/-- A ring and what has passed through it. -/
structure Traffic where
  rb : KtRingbuf
  accepted : List UInt64
  delivered : List UInt64
  touched : List ℕ

/-- The first `n` entries of a table. -/
def firstOf (table : ℕ → UInt64) (n : ℕ) : List UInt64 := (List.range n).map table

/-- One call; `none` when it does not return. -/
def burstStep (t : Traffic) : BurstOp → Option Traffic
  | .enqueue table n =>
      match ktRingbufEnqueueBurst t.rb table 8 n with
      | .ok r => some
          { rb := r.rb
            accepted := t.accepted ++ firstOf table r.n.toNat
            delivered := t.delivered
            touched := t.touched ++ r.touched }
      | .error _ => none
  | .dequeue table n =>
      match ktRingbufDequeueBurst t.rb table 8 n with
      | .ok r => some
          { rb := r.rb
            accepted := t.accepted
            delivered := t.delivered ++ firstOf r.table r.n.toNat
            touched := t.touched ++ r.touched }
      | .error _ => none

/-- The burst ends at or before the end of the slot array: the slot of the head, plus the number of
elements asked for or, if less, the entries there are. -/
def Fits (t : Traffic) : BurstOp → Prop
  | .enqueue _ n =>
      (t.rb.prod.head &&& t.rb.mask).toNat +
        min n.toNat (t.rb.capacity - (t.rb.prod.head - t.rb.cons.tail)).toNat ≤ t.rb.size.toNat
  | .dequeue _ n =>
      (t.rb.cons.head &&& t.rb.mask).toNat +
        min n.toNat (t.rb.prod.tail - t.rb.cons.head).toNat ≤ t.rb.size.toNat

instance (t : Traffic) : (op : BurstOp) → Decidable (Fits t op)
  | .enqueue _ _ => inferInstanceAs (Decidable (_ ≤ _))
  | .dequeue _ _ => inferInstanceAs (Decidable (_ ≤ _))

/-- The abstract counterpart of a call. -/
def fifoStep (cap : ℕ) (f : Fifo UInt64) : BurstOp → Option (Fifo UInt64)
  | .enqueue table n => some (f.offer cap (firstOf table n.toNat))
  | .dequeue _ n => some (f.poll n.toNat)

/-! ## One call -/

variable {t t' : Traffic} {op : BurstOp}

/-- The step of an enqueue call that returns. -/
theorem burstStep_of_enqueue {table : ℕ → UInt64} {n : UInt32} {r : Enqueued}
    (h : ktRingbufEnqueueBurst t.rb table 8 n = .ok r) :
    burstStep t (.enqueue table n) = some
      { rb := r.rb
        accepted := t.accepted ++ firstOf table r.n.toNat
        delivered := t.delivered
        touched := t.touched ++ r.touched } := by
  rw [burstStep, h]

/-- The step of a dequeue call that returns. -/
theorem burstStep_of_dequeue {table : ℕ → UInt64} {n : UInt32} {r : Dequeued}
    (h : ktRingbufDequeueBurst t.rb table 8 n = .ok r) :
    burstStep t (.dequeue table n) = some
      { rb := r.rb
        accepted := t.accepted
        delivered := t.delivered ++ firstOf r.table r.n.toNat
        touched := t.touched ++ r.touched } := by
  rw [burstStep, h]

/-- What an enqueue step does to a ring at rest. -/
theorem burstStep_enqueue (h : RingAt t.rb k P C) (table : ℕ → UInt64) (n : UInt32) :
    ∃ r, EnqueuedAt t.rb k P C table (min n.toNat (2 ^ k - 1 - (P - C))) r ∧
      burstStep t (.enqueue table n) = some
        { rb := r.rb
          accepted := t.accepted ++ firstOf table (min n.toNat (2 ^ k - 1 - (P - C)))
          delivered := t.delivered
          touched := t.touched ++ r.touched } := by
  obtain ⟨r, hr, hspec⟩ := ktRingbufEnqueueBurst_spec h table n
  refine ⟨r, hspec, ?_⟩
  rw [burstStep_of_enqueue hr, hspec.n]

/-- What a dequeue step does to a ring at rest. -/
theorem burstStep_dequeue (h : RingAt t.rb k P C) (table : ℕ → UInt64) (n : UInt32) :
    ∃ r, DequeuedAt t.rb k P C table (min n.toNat (P - C)) r ∧
      burstStep t (.dequeue table n) = some
        { rb := r.rb
          accepted := t.accepted
          delivered := t.delivered ++ firstOf r.table (min n.toNat (P - C))
          touched := t.touched ++ r.touched } := by
  obtain ⟨r, hr, hspec⟩ := ktRingbufDequeueBurst_spec h table n
  refine ⟨r, hspec, ?_⟩
  rw [burstStep_of_dequeue hr, hspec.n]

/-- Every call on a ring at rest returns. -/
theorem burstStep_isSome (h : RingAt t.rb k P C) (op : BurstOp) : ∃ t', burstStep t op = some t' := by
  cases op with
  | enqueue table n =>
      obtain ⟨r, -, hr⟩ := burstStep_enqueue h table n
      exact ⟨_, hr⟩
  | dequeue table n =>
      obtain ⟨r, -, hr⟩ := burstStep_dequeue h table n
      exact ⟨_, hr⟩

/-- The ring is at rest after every call. -/
theorem burstStep_ringAt (h : RingAt t.rb k P C) (hs : burstStep t op = some t') :
    ∃ P' C', RingAt t'.rb k P' C' := by
  cases op with
  | enqueue table n =>
      obtain ⟨r, hspec, hr⟩ := burstStep_enqueue h table n
      rw [hr] at hs
      cases hs
      exact ⟨_, _, hspec.at_rest⟩
  | dequeue table n =>
      obtain ⟨r, hspec, hr⟩ := burstStep_dequeue h table n
      rw [hr] at hs
      cases hs
      exact ⟨_, _, hspec.at_rest⟩

/-- `Fits` for an enqueue, in terms of the positions. -/
theorem fits_enqueue (h : RingAt t.rb k P C) (table : ℕ → UInt64) (n : UInt32) :
    Fits t (.enqueue table n) ↔ P % 2 ^ k + min n.toNat (2 ^ k - 1 - (P - C)) ≤ 2 ^ k := by
  have hslot : (t.rb.prod.head &&& t.rb.mask).toNat = P % 2 ^ k := by
    rw [h.prod]
    exact toNat_ofNat_and_mask (h.shape.le.trans (by omega)) h.shape.toNat_mask
  rw [Fits, hslot, h.free, h.shape.size]

/-- `Fits` for a dequeue, in terms of the positions. -/
theorem fits_dequeue (h : RingAt t.rb k P C) (table : ℕ → UInt64) (n : UInt32) :
    Fits t (.dequeue table n) ↔ C % 2 ^ k + min n.toNat (P - C) ≤ 2 ^ k := by
  have hslot : (t.rb.cons.head &&& t.rb.mask).toNat = C % 2 ^ k := by
    rw [h.cons]
    exact toNat_ofNat_and_mask (h.shape.le.trans (by omega)) h.shape.toNat_mask
  rw [Fits, hslot, h.entries, h.shape.size]

/-- A block of consecutive slots lies in the array when it ends there. -/
theorem block_lt_iff {a m size : ℕ} (ha : a < size) :
    (∀ s ∈ (List.range m).map (a + ·), s < size) ↔ a + m ≤ size := by
  simp only [List.forall_mem_map, List.mem_range]
  constructor
  · intro h
    rcases m with _ | m
    · exact ha.le
    · exact h m (Nat.lt_succ_self m)
  · intro h j hj
    omega

/-- The slots touched by a call all lie in the array exactly when it fits. -/
theorem burstStep_touched (h : RingAt t.rb k P C) (hs : burstStep t op = some t') :
    ∃ l, t'.touched = t.touched ++ l ∧ ((∀ s ∈ l, s < 2 ^ k) ↔ Fits t op) := by
  have hpos := Nat.two_pow_pos k
  cases op with
  | enqueue table n =>
      obtain ⟨r, hspec, hr⟩ := burstStep_enqueue h table n
      rw [hr] at hs
      cases hs
      refine ⟨r.touched, rfl, ?_⟩
      rw [hspec.touched, block_lt_iff (Nat.mod_lt P hpos), fits_enqueue h]
  | dequeue table n =>
      obtain ⟨r, hspec, hr⟩ := burstStep_dequeue h table n
      rw [hr] at hs
      cases hs
      refine ⟨r.touched, rfl, ?_⟩
      rw [hspec.touched, block_lt_iff (Nat.mod_lt C hpos), fits_dequeue h]

/-! ## Refinement -/

/-- The entries handed to an `offer` are cut as the source cuts the request. -/
theorem take_firstOf (table : ℕ → UInt64) (n m : ℕ) :
    (firstOf table n).take m = firstOf table (min n m) := by
  rw [firstOf, firstOf, ← List.map_take, List.take_range, min_comm]

@[simp]
theorem length_firstOf (table : ℕ → UInt64) (n : ℕ) : (firstOf table n).length = n := by
  simp [firstOf]

@[simp]
theorem getElem_firstOf (table : ℕ → UInt64) (n j : ℕ) (h : j < (firstOf table n).length) :
    (firstOf table n)[j] = table j := by
  simp [firstOf]

/-- The ring `t.rb`, at rest at the positions `P` and `C`, holds the abstract queue `f`, and the two
have the same history. -/
structure Holds (t : Traffic) (f : Fifo UInt64) (k P C : ℕ) : Prop where
  at_rest : RingAt t.rb k P C
  length : f.queue.length = P - C
  window : Window t.rb.slots (2 ^ k) C f.queue
  accepted : t.accepted = f.accepted
  delivered : t.delivered = f.delivered

/-- An enqueue that fits is an `offer`. -/
theorem Holds.enqueue {f : Fifo UInt64} (h : Holds t f k P C) {table : ℕ → UInt64} {n : UInt32}
    (hfits : Fits t (.enqueue table n)) (hs : burstStep t (.enqueue table n) = some t') :
    ∃ P', Holds t' (f.offer (2 ^ k - 1) (firstOf table n.toNat)) k P' C := by
  have hle := h.at_rest.le
  have hcap := h.at_rest.le_capacity
  rw [fits_enqueue h.at_rest] at hfits
  obtain ⟨r, hspec, hr⟩ := burstStep_enqueue h.at_rest table n
  rw [hr] at hs
  cases hs
  have hm : min n.toNat (2 ^ k - 1 - (P - C)) ≤ 2 ^ k - 1 - (P - C) := min_le_right _ _
  have htake : (firstOf table n.toNat).take (2 ^ k - 1 - f.queue.length) =
      firstOf table (min n.toNat (2 ^ k - 1 - (P - C))) := by
    rw [take_firstOf, h.length]
  generalize min n.toNat (2 ^ k - 1 - (P - C)) = m at hfits hspec hm htake ⊢
  have hstart : C + f.queue.length = P := by rw [h.length]; omega
  refine ⟨P + m, hspec.at_rest, ?_, ?_, ?_, h.delivered⟩
  · rw [Fifo.offer, htake, List.length_append, length_firstOf, h.length]
    omega
  · simp only [Fifo.offer, htake]
    refine h.window.write ?_ ?_ ?_
    · rw [length_firstOf, h.length]
      omega
    · intro j hj
      rw [length_firstOf] at hj
      rw [hstart, add_mod_of_fits hfits hj, hspec.slots, getElem_firstOf]
      dsimp only
      rw [if_pos ⟨by omega, by omega⟩, Nat.add_sub_cancel_left]
    · intro s hne
      rw [hspec.slots]
      refine if_neg fun hin => hne (s - P % 2 ^ k) (by rw [length_firstOf]; omega) ?_
      rw [hstart, add_mod_of_fits hfits (by omega)]
      omega
  · simp only [Fifo.offer, htake, h.accepted]

/-- A dequeue that fits is a `poll`. -/
theorem Holds.dequeue {f : Fifo UInt64} (h : Holds t f k P C) {table : ℕ → UInt64} {n : UInt32}
    (hfits : Fits t (.dequeue table n)) (hs : burstStep t (.dequeue table n) = some t') :
    ∃ C', Holds t' (f.poll n.toNat) k P C' := by
  have hle := h.at_rest.le
  rw [fits_dequeue h.at_rest] at hfits
  obtain ⟨r, hspec, hr⟩ := burstStep_dequeue h.at_rest table n
  rw [hr] at hs
  cases hs
  have htake : f.queue.take n.toNat = f.queue.take (min n.toNat (P - C)) := by
    rw [← h.length, ← List.take_take, List.take_length]
  have hdrop : f.queue.drop n.toNat = f.queue.drop (min n.toNat (P - C)) := by
    rcases le_total n.toNat (P - C) with hn | hn
    · rw [min_eq_left hn]
    · rw [min_eq_right hn, List.drop_eq_nil_of_le (h.length.trans_le hn),
        List.drop_eq_nil_of_le h.length.le]
  have hm : min n.toNat (P - C) ≤ P - C := min_le_right _ _
  generalize min n.toNat (P - C) = m at hfits hspec hm htake hdrop ⊢
  have hread : firstOf r.table m = f.queue.take m := by
    rw [← h.window.read (hm.trans h.length.ge), firstOf]
    refine List.map_congr_left fun j hj => ?_
    have hj : j < m := List.mem_range.mp hj
    rw [hspec.table, add_mod_of_fits hfits hj]
    exact if_pos hj
  refine ⟨C + m, hspec.at_rest, ?_, ?_, h.accepted, ?_⟩
  · simp only [Fifo.poll, hdrop, List.length_drop, h.length]
    omega
  · simp only [Fifo.poll, hdrop, hspec.slots]
    exact h.window.drop m
  · simp only [Fifo.poll, htake, hread, h.delivered]

/-! ## Runs -/

variable {tr : List (Traffic × BurstOp)}

/-- The ring is at rest between calls, all along a run. -/
theorem run_ringAt (h₀ : RingAt rb k 0 0) (h : Run burstStep ⟨rb, [], [], []⟩ tr t) :
    ∃ P C, RingAt t.rb k P C := by
  refine h.always (I := fun t => ∃ P C, RingAt t.rb k P C) ⟨0, 0, h₀⟩ ?_
  rintro s op s' ⟨P, C, hat⟩ hs
  exact burstStep_ringAt hat hs

/-- **The slots touched in a run** all lie in the array exactly when every call fits. -/
theorem touched_lt_iff_fits (h₀ : RingAt rb k 0 0) (h : Run burstStep ⟨rb, [], [], []⟩ tr t) :
    (∀ s ∈ t.touched, s < 2 ^ k) ↔ ∀ p ∈ tr, Fits p.1 p.2 := by
  induction h with
  | nil => simp
  | @snoc tr s s' op hr hs ih =>
      obtain ⟨P, C, hat⟩ := run_ringAt h₀ hr
      obtain ⟨l, htouched, hl⟩ := burstStep_touched hat hs
      rw [htouched, List.forall_mem_append, List.forall_mem_append, ih, hl,
        List.forall_mem_singleton]

/-- **Refinement.** A run whose calls all fit is followed, call by call, by the bounded queue. -/
theorem burst_refines_fifo (h₀ : RingAt rb k 0 0) (h : Run burstStep ⟨rb, [], [], []⟩ tr t)
    (hfits : ∀ p ∈ tr, Fits p.1 p.2) :
    ∃ tr' f, Run (fifoStep (2 ^ k - 1)) ⟨[], [], []⟩ tr' f ∧
      tr'.map Prod.snd = tr.map Prod.snd ∧ ∃ P C, Holds t f k P C := by
  refine h.simulation (R := fun t f => ∃ P C, Holds t f k P C)
    ⟨0, 0, h₀, rfl, .nil _ _ _, rfl, rfl⟩ ?_ hfits
  rintro s op s' f ⟨P, C, hf⟩ hok hs
  cases op with
  | enqueue table n =>
      obtain ⟨P', hf'⟩ := hf.enqueue hok hs
      exact ⟨_, rfl, P', C, hf'⟩
  | dequeue table n =>
      obtain ⟨C', hf'⟩ := hf.dequeue hok hs
      exact ⟨_, rfl, P, C', hf'⟩

/-- The bounded queue stays valid. -/
theorem fifoStep_valid {cap : ℕ} {tr : List (Fifo UInt64 × BurstOp)} {f : Fifo UInt64}
    (h : Run (fifoStep cap) ⟨[], [], []⟩ tr f) : f.Valid cap := by
  refine h.always (Fifo.Valid.empty cap) ?_
  rintro f (⟨table, n⟩ | ⟨table, n⟩) f' hf hs
  · cases hs
    exact hf.offer _
  · cases hs
    exact hf.poll _

/-- **The ring is a FIFO inside its array exactly when every call fits.** For every number of slots
that is a power of two, and every run of burst calls on a ring made by `kt_ringbuf_create`: every
call returns; and the elements handed out are a prefix of those accepted, with no slot touched
outside the array, if and only if the burst of every call of the run ends at or before the end of
the array. -/
theorem ring_fifo_iff_fits (alloc : UInt32 → Option (ℕ → UInt64)) (count esize : UInt32)
    (rb : KtRingbuf) (k : ℕ) (hcount : count.toNat = 2 ^ k)
    (hcreate : ktRingbufCreate alloc count esize = some rb) (tr : List (Traffic × BurstOp))
    (t : Traffic) (hrun : Run burstStep ⟨rb, [], [], []⟩ tr t) :
    (∀ op, ∃ t', burstStep t op = some t') ∧
    ((t.delivered <+: t.accepted ∧ ∀ s ∈ t.touched, s < count.toNat) ↔
      ∀ p ∈ tr, Fits p.1 p.2) := by
  have hk : k < 32 := (Nat.pow_lt_pow_iff_right Nat.one_lt_two).mp (hcount ▸ count.toNat_lt)
  have h₀ := ringAt_create (Nat.le_of_lt_succ hk) hcount hcreate
  obtain ⟨P, C, hat⟩ := run_ringAt h₀ hrun
  refine ⟨burstStep_isSome hat, ?_⟩
  rw [hcount, touched_lt_iff_fits h₀ hrun, and_iff_right_iff_imp]
  intro hfits
  obtain ⟨tr', f, hf, -, P, C, hholds⟩ := burst_refines_fifo h₀ hrun hfits
  rw [hholds.delivered, hholds.accepted]
  exact (fifoStep_valid hf).isPrefix_accepted

/-- A ring of four slots over cleared memory. -/
def ringOfFour : KtRingbuf := ⟨4, 8, 3, 3, ⟨0, 0⟩, ⟨0, 0⟩, fun _ => 0⟩

/-- The result at a run that fills a ring of four slots and empties it. -/
theorem ring_fifo_iff_fits_four :
    ∃ tr t, Run burstStep ⟨ringOfFour, [], [], []⟩ tr t ∧ tr.length = 2 ∧
      t.delivered = [1, 2, 3] ∧ ∀ p ∈ tr, Fits p.1 p.2 := by
  have hexec : (exec burstStep ⟨ringOfFour, [], [], []⟩
      [.enqueue (fun j => UInt64.ofNat (j + 1)) 5, .dequeue (fun _ => 0) 8]).map
        (fun t => (t.accepted, t.delivered, t.touched)) =
      some ([1, 2, 3], [1, 2, 3], [0, 1, 2, 0, 1, 2]) := by
    decide +kernel
  obtain ⟨t, ht, hval⟩ := Option.map_eq_some_iff.mp hexec
  simp only [Prod.mk.injEq] at hval
  obtain ⟨hacc, hdel, htouched⟩ := hval
  obtain ⟨tr, hrun, hops⟩ := Run.of_exec ht
  have hlength : tr.length = 2 := by
    rw [← List.length_map (f := Prod.snd), hops]
    rfl
  refine ⟨tr, t, hrun, hlength, hdel, ?_⟩
  refine (ring_fifo_iff_fits (fun _ => some fun _ => 0) 4 8 ringOfFour 2 rfl rfl tr t hrun).2.mp ?_
  rw [hacc, hdel, htouched]
  decide

/-- Five calls on a ring of four slots: three elements in and out, then two in, which are written
to the slots `3` and `4`, and twice one out, read from the slots `3` and `0`. The element `5` is
lost and the element `1` handed out again. -/
theorem ring_fifo_fails :
    ∃ tr t, Run burstStep ⟨ringOfFour, [], [], []⟩ tr t ∧ t.accepted = [1, 2, 3, 4, 5] ∧
      t.delivered = [1, 2, 3, 4, 1] ∧ ¬ t.delivered <+: t.accepted ∧ ∃ s ∈ t.touched, ¬ s < 4 := by
  have hexec : (exec burstStep ⟨ringOfFour, [], [], []⟩
      [.enqueue (fun j => UInt64.ofNat (j + 1)) 3, .dequeue (fun _ => 0) 3,
        .enqueue (fun j => UInt64.ofNat (j + 4)) 2, .dequeue (fun _ => 0) 1,
        .dequeue (fun _ => 0) 1]).map
        (fun t => (t.accepted, t.delivered, t.touched)) =
      some ([1, 2, 3, 4, 5], [1, 2, 3, 4, 1], [0, 1, 2, 0, 1, 2, 3, 4, 3, 0]) := by
    decide +kernel
  obtain ⟨t, ht, hval⟩ := Option.map_eq_some_iff.mp hexec
  simp only [Prod.mk.injEq] at hval
  obtain ⟨hacc, hdel, htouched⟩ := hval
  obtain ⟨tr, hrun, -⟩ := Run.of_exec ht
  refine ⟨tr, t, hrun, hacc, hdel, ?_, 4, ?_, by decide⟩
  · rw [hacc, hdel]
    decide
  · rw [htouched]
    decide

end KuberneTSN.Ring
