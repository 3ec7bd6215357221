import KuberneTSN.Ring.Contents
import KuberneTSN.Ring.Delivery

/-!
# Concurrent bursts are atomic

The ring with many threads is a bounded queue whose operations happen at once. A call takes effect
when it stores the tail of its side: until then the elements that it copies are not among the
contents of the ring, and from then on all of them are.

* `Inv.contents_eq` — the contents of the ring while calls are in progress;
* `Delivery.contents_quiet` — a step that stores no tail leaves the contents as they are;
* `Delivery.contents_push`, `Delivery.contents_pop` — the store of the tail appends the elements of
  the call, or removes them from the front;
* `ring_linearizes` — every run is a run of the queue.
-/

namespace KuberneTSN.Ring

open Lib

variable {ι : Type*} {k : ℕ} {T T' : Side → ℕ} {w w' : World ι} {a : Act ι}

/-- What a call of side `σ` with the elements `xs` does to the queue. -/
def Side.queueEvent (xs : List UInt64) : Side → QueueEvent UInt64
  | .prod => .push xs
  | .cons => .pop xs

/-- What a step does to the queue: a call takes effect when it stores its tail. -/
def takesEffect : World ι × Act ι → Option (QueueEvent UInt64)
  | (w, .step i) =>
      match w.pc i with
      | .store c r => some (c.side.queueEvent (firstOf c.table r.n.toNat))
      | _ => none
  | _ => none

/-! ## The contents while calls are in progress -/

/-- The contents are those of the ring without the reservations. -/
theorem Inv.contents_eq (h : Inv k T w) :
    contents w.rb = (List.range (T .prod - T .cons)).map fun j =>
      w.rb.slots ((T .cons + j) % 2 ^ k) := by
  obtain ⟨h₁, h₂, h₃, h₄⟩ := h.chain
  have hprod : w.rb.prod = _ := h.lane .prod
  have hcons : w.rb.cons = _ := h.lane .cons
  let settled : KtRingbuf := { w.rb with
    prod := ⟨w.rb.prod.tail, w.rb.prod.tail⟩
    cons := ⟨w.rb.cons.tail, w.rb.cons.tail⟩ }
  have hsettled : RingAt settled k (T .prod) (T .cons) := by
    refine ⟨h.shape.of_eq rfl rfl rfl, ?_, ?_, h₁.trans h₂, h₃.trans h₄⟩
    · simp only [settled, hprod]
    · simp only [settled, hcons]
  exact hsettled.contents_eq

/-- The room that is left for further elements. -/
theorem Inv.length_contents (h : Inv k T w) : (contents w.rb).length = T .prod - T .cons := by
  rw [h.contents_eq, List.length_map, List.length_range]

/-- A write to a position that is not published leaves the contents as they are. -/
theorem Inv.contents_write (h : Inv k T w) {p : ℕ} (hlo : T .prod ≤ p) (hhi : p < w.head .prod)
    (hinv' : Inv k T w') {v : UInt64}
    (hslots : w'.rb.slots = Function.update w.rb.slots (p % 2 ^ k) v) :
    contents w'.rb = contents w.rb := by
  obtain ⟨h₁, h₂, h₃, h₄⟩ := h.chain
  rw [hinv'.contents_eq, h.contents_eq, hslots]
  refine List.map_congr_left fun j hj => ?_
  have hj' := List.mem_range.mp hj
  apply Function.update_of_ne
  exact mod_ne_of_lt (by omega) (by omega)

/-- The slots of a call that is about to store its tail hold the elements of its table. -/
theorem Delivery.slots_store (h : Delivery k T w) (hinv : Inv k T w) {i : ι} {c : Call}
    {r : Reservation} (hpc : w.pc i = .store c r) {q : ℕ} (hq : q < r.n.toNat) :
    w.rb.slots ((T c.side + q) % 2 ^ k) = c.table q := by
  obtain ⟨h₁, h₂, h₃, h₄⟩ := hinv.chain
  have hprog := h.progress i
  rw [hpc] at hprog
  have hdid := hprog.did q hq
  rw [hinv.at_tail i c r hpc] at hdid
  cases hside : c.side with
  | prod =>
      rw [hside] at hdid
      exact h.content _ _ _ hdid (by omega)
  | cons =>
      rw [hside] at hdid
      exact h.content _ _ _ (h.once.wrote_of_read hdid) (Nat.le_add_right _ _)

variable [DecidableEq ι]

/-- A copy leaves the contents as they are. -/
theorem Delivery.contents_copyOne (h : Delivery k T w) (hinv : Inv k T w) {i : ι} {c : Call}
    {r : Reservation} {mv : ℕ × ℕ} {todo : List (ℕ × ℕ)} (hpc : w.pc i = .copy c r (mv :: todo)) :
    contents (w.copyOne i c r mv todo).rb = contents w.rb := by
  obtain ⟨done, hlt, hmv, -, -, hown⟩ := h.copying hpc
  obtain ⟨side, table, n⟩ := c
  cases side with
  | prod =>
      obtain ⟨hlo, hhi⟩ := hinv.inside hown ⟨Nat.le_add_right _ done, by omega⟩
      refine hinv.contents_write hlo hhi (hinv.copyOne hpc) (v := table mv.2) ?_
      rw [hmv]
      rfl
  | cons => rfl

/-- The store of a tail writes no slot. -/
theorem slots_storeTail (w : World ι) (i : ι) (c : Call) (r : Reservation) :
    (w.storeTail i c r).rb.slots = w.rb.slots := by
  unfold World.storeTail
  cases c.side <;> rfl

/-- **The store of the producers' tail** appends the elements of the call. -/
theorem Delivery.contents_push (h : Delivery k T w) (hinv : Inv k T w) {i : ι} {c : Call}
    {r : Reservation} (hpc : w.pc i = .store c r) (hside : c.side = .prod) :
    contents (w.storeTail i c r).rb = contents w.rb ++ firstOf c.table r.n.toNat := by
  obtain ⟨h₁, h₂, h₃, h₄⟩ := hinv.chain
  have hmore : T .prod + r.n.toNat - T .cons = T .prod - T .cons + r.n.toNat := by omega
  rw [(hinv.storeTail hpc).contents_eq, hinv.contents_eq, slots_storeTail, hside,
    Function.update_self, Function.update_of_ne (by decide), hmore, List.range_add, List.map_append,
    List.map_map]
  congr 1
  refine List.map_congr_left fun q hq => ?_
  have hstore := h.slots_store hinv hpc (List.mem_range.mp hq)
  rw [hside] at hstore
  rw [← hstore, Function.comp_apply]
  congr 2
  omega

/-- **The store of the consumers' tail** removes the elements of the call from the front. -/
theorem Delivery.contents_pop (h : Delivery k T w) (hinv : Inv k T w) {i : ι} {c : Call}
    {r : Reservation} (hpc : w.pc i = .store c r) (hside : c.side = .cons) :
    contents w.rb = firstOf c.table r.n.toNat ++ contents (w.storeTail i c r).rb := by
  obtain ⟨h₁, h₂, h₃, h₄⟩ := hinv.chain
  have hown : w.own .cons i = some (w.pos i, r.n.toNat) := by
    rw [World.own, hpc]
    exact if_pos hside
  obtain ⟨-, hlo, hhi⟩ := (hinv.tiles .cons).inside hown
  have hmore : T .prod - T .cons = r.n.toNat + (T .prod - (T .cons + r.n.toNat)) := by omega
  rw [(hinv.storeTail hpc).contents_eq, hinv.contents_eq, slots_storeTail, hside,
    Function.update_self, Function.update_of_ne (by decide), hmore, List.range_add, List.map_append,
    List.map_map]
  congr 1
  · refine List.map_congr_left fun q hq => ?_
    have hstore := h.slots_store hinv hpc (List.mem_range.mp hq)
    rw [hside] at hstore
    exact hstore
  · refine List.map_congr_left fun q _ => ?_
    rw [Function.comp_apply, Nat.add_assoc]

/-! ## Steps and runs -/

omit [DecidableEq ι] in
/-- Only the store of a tail is an event of the queue. -/
theorem takesEffect_eq_some {e : QueueEvent UInt64} (h : takesEffect (w, a) = some e) :
    ∃ i c r, a = .step i ∧ w.pc i = .store c r ∧
      e = c.side.queueEvent (firstOf c.table r.n.toNat) := by
  cases a with
  | step i =>
      unfold takesEffect at h
      dsimp only at h
      split at h
      · cases h
        exact ⟨i, _, _, rfl, ‹_›, rfl⟩
      · cases h
  | call i c => cases h
  | casFail i => cases h

/-- A step that stores no tail leaves the contents as they are. -/
theorem Delivery.contents_quiet (h : Delivery k T w) (hinv : Inv k T w)
    (hs : threadStep w a = some w') (he : takesEffect (w, a) = none) :
    contents w'.rb = contents w.rb := by
  obtain ⟨i, heff⟩ := threadStep_effect hs
  cases heff with
  | call c hpc => rfl
  | loadHead _ c hpc => rfl
  | loadTail c oldHead hpc => rfl
  | moveHead c r hpc heq =>
      unfold World.moveHead
      cases c.side <;> rfl
  | copyOne c r mv todo hpc => exact h.contents_copyOne hinv hpc
  | wait c r hpc => rfl
  | seeTail c r hpc heq => rfl
  | storeTail c r hpc =>
      unfold takesEffect at he
      dsimp only at he
      rw [hpc] at he
      cases he

/-- **A step of the ring is a step of the queue, or leaves it as it is.** -/
theorem Delivery.linear_step (h : Delivery k T w) (hinv : Inv k T w)
    (hs : threadStep w a = some w') :
    (takesEffect (w, a)).elim (contents w'.rb = contents w.rb) fun e =>
      queueStep (2 ^ k - 1) (contents w.rb) e = some (contents w'.rb) := by
  cases he : takesEffect (w, a) with
  | none => exact h.contents_quiet hinv hs he
  | some e =>
      obtain ⟨i, c, r, rfl, hpc, rfl⟩ := takesEffect_eq_some he
      simp only [threadStep, hpc, Option.some.injEq] at hs
      subst hs
      rw [Option.elim_some]
      cases hside : c.side with
      | prod =>
          have hpush := h.contents_push hinv hpc hside
          obtain ⟨h₁, h₂, h₃, h₄⟩ := (hinv.storeTail hpc).chain
          have hroom : (contents (w.storeTail i c r).rb).length ≤ 2 ^ k - 1 := by
            rw [(hinv.storeTail hpc).length_contents]
            omega
          rw [hpush, List.length_append] at hroom
          rw [hpush]
          exact if_pos hroom
      | cons =>
          have hpop := h.contents_pop hinv hpc hside
          rw [hpop]
          exact (if_pos (List.prefix_append _ _)).trans (congrArg some List.drop_left)

/-- **The ring is a bounded queue with atomic operations.** For a ring of any power-of-two size made by
`kt_ringbuf_create`, any number of threads and bursts of any length, in every run of interleaved
atomic steps in which no compare-exchange meets a head that has wrapped (`NoWrap`) and no burst
crosses the end of the array (`StaysInside`):

* each call that moves elements takes effect at once, when it stores its tail: these events, in the
  order in which they happen, are a run of a queue for `count - 1` elements, which ends with the
  contents of the ring;
* so the elements dequeued, in this order, followed by the contents are the elements enqueued. -/
theorem ring_linearizes (alloc : UInt32 → Option (ℕ → UInt64)) (count esize : UInt32)
    (rb : KtRingbuf) (k : ℕ) (hcount : count.toNat = 2 ^ k)
    (hcreate : ktRingbufCreate alloc count esize = some rb) (tr : List (World ι × Act ι))
    (w : World ι) (hrun : Run threadStep (World.init rb) tr w) (hwrap : ∀ p ∈ tr, NoWrap p.1 p.2)
    (hinside : ∀ p ∈ tr, StaysInside p.1 p.2) :
    (∃ tr', Run (queueStep (count.toNat - 1)) [] tr' (contents w.rb) ∧
        tr'.map Prod.snd = tr.filterMap takesEffect) ∧
      (tr.filterMap takesEffect).flatMap QueueEvent.pushed =
        (tr.filterMap takesEffect).flatMap QueueEvent.popped ++ contents w.rb := by
  have hk : k < 32 := (Nat.pow_lt_pow_iff_right Nat.one_lt_two).mp (hcount ▸ count.toNat_lt)
  have h₀ := ringAt_create (Nat.le_of_lt_succ hk) hcount hcreate
  have hstep : ∀ (w : World ι) a w', (∃ T, Inv k T w ∧ Delivery k T w) →
      NoWrap w a ∧ StaysInside w a → threadStep w a = some w' →
      (∃ T, Inv k T w' ∧ Delivery k T w') ∧
        (takesEffect (w, a)).elim (contents w'.rb = contents w.rb) fun e =>
          queueStep (2 ^ k - 1) (contents w.rb) e = some (contents w'.rb) := by
    rintro w a w' ⟨T, hinv, h⟩ ⟨hwrap, hinside⟩ hs
    exact ⟨delivery_step h hinv hwrap hinside hs, h.linear_step hinv hs⟩
  obtain ⟨-, hrun'⟩ := hrun.refines (fun w => contents w.rb) takesEffect
    ⟨_, inv_init h₀, delivery_init rb⟩ hstep fun p hp => ⟨hwrap p hp, hinside p hp⟩
  have hempty : contents (World.init rb : World ι).rb = [] := h₀.contents_eq_nil
  rw [hempty, ← hcount] at hrun'
  have hevents := map_snd_image (fun w => contents w.rb) takesEffect tr
  refine ⟨⟨_, hrun', hevents⟩, ?_⟩
  have horder := queue_order hrun'
  rw [hevents] at horder
  exact horder

/-- The test that a step stays inside the array. -/
def stepsInside (w : World ι) : Act ι → Bool
  | .step i =>
      match w.pc i with
      | .cas c r => decide ((w.rb.lane c.side).head = r.oldHead →
          (firstSlot w.rb r.oldHead c.side).toNat + r.n.toNat ≤ w.rb.size.toNat)
      | _ => true
  | _ => true

omit [DecidableEq ι] in
theorem staysInside_of_stepsInside {w : World ι} {a : Act ι} (h : stepsInside w a = true) :
    StaysInside w a := by
  intro i c r hstep hpc
  simp only [stepsInside, hstep, hpc, decide_eq_true_eq] at h
  exact h

/-- The result at a run of two threads, in which a call to dequeue comes between the copies of a
burst of two elements, and finds nothing. -/
theorem ring_linearizes_two :
    ∃ (tr : List (World Bool × Act Bool)) (w : World Bool),
      Run threadStep (World.init ⟨4, 8, 3, 3, ⟨0, 0⟩, ⟨0, 0⟩, fun _ => 0⟩) tr w ∧
      contents w.rb = [7, 8] ∧
      ∃ tr', Run (queueStep 3) [] tr' [7, 8] ∧ tr'.map Prod.snd = tr.filterMap takesEffect := by
  let rb : KtRingbuf := ⟨4, 8, 3, 3, ⟨0, 0⟩, ⟨0, 0⟩, fun _ => 0⟩
  let put : Call := ⟨.prod, fun j => if j = 0 then 7 else 8, 2⟩
  let get : Call := ⟨.cons, fun _ => 0, 2⟩
  let ok : World Bool → Act Bool → Bool := fun w a =>
    decide (w.head .prod < 2 ^ 31) && stepsInside w a
  have hexec : (exec (fun w a => if ok w a then threadStep w a else none) (World.init rb)
      [.call true put, .step true, .step true, .step true, .step true, .call false get,
        .step false, .step false, .step true, .step true, .step true]).map
        (fun w => contents w.rb) = some [7, 8] := by
    decide +kernel
  obtain ⟨w, hw, hcontents⟩ := Option.map_eq_some_iff.mp hexec
  obtain ⟨tr, hguarded, -⟩ := Run.of_exec hw
  obtain ⟨hrun, hok⟩ := hguarded.of_guarded
  have hlinear := ring_linearizes (fun _ => some fun _ => 0) 4 8 rb 2 rfl rfl tr w hrun
    (by
      intro p hp i c r _ _
      have hp' := hok p hp
      simp only [ok, Bool.and_eq_true, decide_eq_true_eq] at hp'
      exact ⟨.prod, Nat.lt_add_left _ hp'.1⟩)
    (by
      intro p hp
      have hp' := hok p hp
      simp only [ok, Bool.and_eq_true] at hp'
      exact staysInside_of_stepsInside hp'.2)
  rw [hcontents] at hlinear
  exact ⟨tr, w, hrun, hcontents, hlinear.1⟩

end KuberneTSN.Ring
