import KuberneTSN.Ring.Burst
import KuberneTSN.Ring.Threads
import KuberneTSN.Lib.Run
import KuberneTSN.Lib.Tiles
import KuberneTSN.Lib.Window

/-!
# Reservations of concurrent bursts

The invariant behind the ring with many threads. `T σ` is the tail of side `σ` without wrap, beside
the heads that a `World` records.

* `Inv` — the positions from the tail to the head of each side are tiled by the intervals that the
  threads of this side have reserved and not yet published; heads do not pass their `limit`; and a
  thread on its way to the compare-exchange has seen enough room, *if* its head is still the one it
  has loaded.
* `inv_step` — every atomic step keeps it, provided that a compare-exchange does not meet a head
  that has gone once around the 32-bit counter since it was loaded (`NoWrap`).
* `reservations_partition` — the invariant in terms of the stored 32-bit counters.
-/

namespace KuberneTSN.Ring

open Lib

variable {ι : Type*} {k : ℕ} {T T' : Side → ℕ}

/-- The positions a thread at `pc` has reserved on side `σ`, if `p` is the first of them. -/
def Pc.holds (σ : Side) (p : ℕ) : Pc → Option (ℕ × ℕ)
  | .copy c r _ => if c.side = σ then some (p, r.n.toNat) else none
  | .store c r => if c.side = σ then some (p, r.n.toNat) else none
  | _ => none

/-- The positions that the threads have reserved on side `σ`. -/
def World.own (w : World ι) (σ : Side) (i : ι) : Option (ℕ × ℕ) := (w.pc i).holds σ (w.pos i)

/-- How far the head of a side may go: producers one round ahead of the consumers' tail, less one,
and consumers up to the producers' tail. -/
def limit (k : ℕ) (T : Side → ℕ) : Side → ℕ
  | .prod => T .cons + (2 ^ k - 1)
  | .cons => T .prod

/-- The heads at a past moment, seen from the heads now. -/
structure MarkOk (k : ℕ) (head mark : Side → ℕ) : Prop where
  le : ∀ σ, mark σ ≤ head σ
  cons_le : mark .cons ≤ mark .prod
  prod_le : mark .prod ≤ mark .cons + (2 ^ k - 1)

/-- What is known about a thread at `pc`. The last clause of `cas` is the point: the room that the
thread has computed may be nonsense if the head has moved, but then the compare-exchange fails. -/
def ThreadOk (k : ℕ) (T head mark : Side → ℕ) (pos : ℕ) : Pc → Prop
  | .loadTail c oldHead => MarkOk k head mark ∧ oldHead = UInt32.ofNat (mark c.side)
  | .cas c r => MarkOk k head mark ∧ r.oldHead = UInt32.ofNat (mark c.side) ∧
      r.newHead = r.oldHead + r.n ∧ 0 < r.n.toNat ∧
      (head c.side = mark c.side → mark c.side + r.n.toNat ≤ limit k T c.side)
  | .copy _ r _ => r.oldHead = UInt32.ofNat pos ∧ r.newHead = r.oldHead + r.n
  | .store _ r => r.oldHead = UInt32.ofNat pos ∧ r.newHead = r.oldHead + r.n
  | _ => True

/-- The invariant of the ring with many threads. -/
structure Inv (k : ℕ) (T : Side → ℕ) (w : World ι) : Prop where
  shape : Shape w.rb k
  lane : ∀ σ, w.rb.lane σ = ⟨UInt32.ofNat (w.head σ), UInt32.ofNat (T σ)⟩
  tiles : ∀ σ, Tiles (w.own σ) (T σ) (w.head σ)
  head_le : ∀ σ, w.head σ ≤ limit k T σ
  thread : ∀ i, ThreadOk k T w.head (w.mark i) (w.pos i) (w.pc i)
  at_tail : ∀ i c r, w.pc i = .store c r → w.pos i = T c.side

/-- A compare-exchange on a head that fewer than `2^31` elements have passed since it was loaded: on
the way in, or on the way out. -/
def NoWrap (w : World ι) (a : Act ι) : Prop :=
  ∀ i c r, a = .step i → w.pc i = .cas c r → ∃ σ, w.head σ < w.mark i σ + 2 ^ 31

variable {w w' : World ι} {a : Act ι}

/-! ## Consequences -/

/-- The order of the four counters. -/
theorem Inv.chain (h : Inv k T w) :
    T .cons ≤ w.head .cons ∧ w.head .cons ≤ T .prod ∧ T .prod ≤ w.head .prod ∧
      w.head .prod ≤ T .cons + (2 ^ k - 1) :=
  ⟨(h.tiles .cons).le, h.head_le .cons, (h.tiles .prod).le, h.head_le .prod⟩

/-- What a thread sees when the head it has loaded is still the head: exactly the room there is. -/
theorem Inv.entriesSeen_eq (h : Inv k T w) (σ : Side) :
    (entriesSeen w.rb (UInt32.ofNat (w.head σ)) σ).toNat = limit k T σ - w.head σ := by
  obtain ⟨h₁, h₂, h₃, h₄⟩ := h.chain
  have hpow := h.shape.pow_le
  cases σ with
  | prod =>
      have hcons : w.rb.cons = _ := h.lane .cons
      have hsub := toNat_ofNat_sub (p := w.head .prod) (c := T .cons) (by omega) (by omega)
      simp only [entriesSeen, hcons, limit]
      rw [UInt32.toNat_sub, hsub, h.shape.toNat_capacity]
      omega
  | cons =>
      have hprod : w.rb.prod = _ := h.lane .prod
      simp only [entriesSeen, hprod, limit]
      exact toNat_ofNat_sub h₂ (by omega)

/-- The compare-exchange succeeds only if the head has not moved since it was loaded. -/
theorem Inv.head_eq_mark (h : Inv k T w) {i : ι} {σ : Side} (hmark : MarkOk k w.head (w.mark i))
    (hwrap : ∃ σ, w.head σ < w.mark i σ + 2 ^ 31)
    (heq : (w.rb.lane σ).head = UInt32.ofNat (w.mark i σ)) : w.head σ = w.mark i σ := by
  obtain ⟨h₁, h₂, h₃, h₄⟩ := h.chain
  have hpow := h.shape.pow_le
  have hcons := hmark.cons_le
  have hprod := hmark.prod_le
  rw [h.lane] at heq
  refine (ofNat_inj (hmark.le σ) ?_).mp heq
  obtain ⟨σ', hσ'⟩ := hwrap
  cases σ <;> cases σ' <;> omega

/-- The two sides compute the first slot of a burst in the same way. -/
theorem Shape.firstSlot_eq {rb : KtRingbuf} (h : Shape rb k) (oldHead : UInt32) (σ : Side) :
    firstSlot rb oldHead σ = oldHead &&& rb.mask := by
  cases σ with
  | prod => rfl
  | cons => rw [h.mask]; rfl

/-! ## Steps that move no counter -/

/-- What is known about a thread survives the others' progress. -/
theorem ThreadOk.mono {head head' mark : Side → ℕ} {pos : ℕ} {pc : Pc}
    (h : ThreadOk k T head mark pos pc) (hhead : ∀ σ, head σ ≤ head' σ) (hT : ∀ σ, T σ ≤ T' σ) :
    ThreadOk k T' head' mark pos pc := by
  have hlimit : ∀ σ, limit k T σ ≤ limit k T' σ := by
    intro σ
    cases σ with
    | prod => exact Nat.add_le_add_right (hT .cons) _
    | cons => exact hT .prod
  have hmono : MarkOk k head mark → MarkOk k head' mark := fun hm =>
    ⟨fun σ => (hm.le σ).trans (hhead σ), hm.cons_le, hm.prod_le⟩
  cases pc with
  | loadTail c oldHead => exact ⟨hmono h.1, h.2⟩
  | cas c r =>
      obtain ⟨hm, hold, hnew, hpos, hroom⟩ := h
      refine ⟨hmono hm, hold, hnew, hpos, fun heq => ?_⟩
      have hle := hm.le c.side
      have hle' := hhead c.side
      exact (hroom (by omega)).trans (hlimit c.side)
  | copy c r todo => exact h
  | store c r => exact h
  | idle => trivial
  | loadHead c => trivial
  | returned c n rest => trivial

variable [DecidableEq ι]

/-- The reservations after thread `i` has moved. -/
theorem own_eq_update {i : ι} {σ : Side} (hpc : ∀ j ≠ i, w'.pc j = w.pc j)
    (hpos : ∀ j ≠ i, w'.pos j = w.pos j) :
    w'.own σ = Function.update (w.own σ) i ((w'.pc i).holds σ (w'.pos i)) := by
  funext j
  by_cases hj : j = i
  · subst hj
    rw [Function.update_self]
    rfl
  · rw [Function.update_of_ne hj, World.own, hpc j hj, hpos j hj]
    rfl

/-- A step of thread `i` that moves no counter and keeps its reservation. -/
theorem Inv.quiet (h : Inv k T w) {i : ι} (hshape : Shape w'.rb k)
    (hlane : ∀ σ, w'.rb.lane σ = w.rb.lane σ) (hhead : w'.head = w.head)
    (hpc : ∀ j ≠ i, w'.pc j = w.pc j) (hmark : ∀ j ≠ i, w'.mark j = w.mark j)
    (hpos : w'.pos = w.pos) (hholds : ∀ σ p, (w'.pc i).holds σ p = (w.pc i).holds σ p)
    (hthread : ThreadOk k T w.head (w'.mark i) (w.pos i) (w'.pc i))
    (htail : ∀ c r, w'.pc i = .store c r → w.pos i = T c.side) : Inv k T w' where
  shape := hshape
  lane σ := by rw [hlane, hhead, h.lane]
  tiles σ := by
    have hown : w'.own σ = w.own σ := by
      rw [own_eq_update hpc fun j _ => congrFun hpos j, hholds, hpos]
      exact Function.update_eq_self i _
    rw [hown, hhead]
    exact h.tiles σ
  head_le σ := by rw [hhead]; exact h.head_le σ
  thread j := by
    rw [hhead, hpos]
    by_cases hj : j = i
    · subst hj
      exact hthread
    · rw [hpc j hj, hmark j hj]
      exact h.thread j
  at_tail j c r hj := by
    rw [hpos]
    by_cases hji : j = i
    · subst hji
      exact htail c r hj
    · rw [hpc j hji] at hj
      exact h.at_tail j c r hj

/-- Thread `i` only goes on at another `pc`. -/
theorem Inv.goto (h : Inv k T w) (i : ι) (pc : Pc)
    (hholds : ∀ σ p, pc.holds σ p = (w.pc i).holds σ p)
    (hthread : ThreadOk k T w.head (w.mark i) (w.pos i) pc)
    (htail : ∀ c r, pc = .store c r → w.pos i = T c.side) : Inv k T (w.goto i pc) := by
  have hself : (w.goto i pc).pc i = pc := Function.update_self _ _ _
  refine h.quiet (i := i) h.shape (fun _ => rfl) rfl
    (fun j hj => Function.update_of_ne hj _ _) (fun _ _ => rfl) rfl ?_ ?_ ?_
  · intro σ p
    rw [hself, hholds]
  · rw [hself]
    exact hthread
  · intro c r hpc
    rw [hself] at hpc
    exact htail c r hpc

/-- A new call. -/
theorem Inv.call (h : Inv k T w) {i : ι} (c : Call)
    (hpc : w.pc i = .idle ∨ ∃ c n rest, w.pc i = .returned c n rest) :
    Inv k T (w.goto i (.loadHead c)) := by
  refine h.goto _ _ ?_ trivial (fun _ _ hpc' => nomatch hpc')
  intro σ p
  rcases hpc with hpc | ⟨c, n, rest, hpc⟩ <;> rw [hpc] <;> rfl

/-- The load of the own head, at first or by a failed compare-exchange. -/
theorem Inv.loadHead (h : Inv k T w) {i : ι} {c : Call}
    (hpc : w.pc i = .loadHead c ∨ ∃ r, w.pc i = .cas c r) : Inv k T (w.loadHead i c) := by
  obtain ⟨h₁, h₂, h₃, h₄⟩ := h.chain
  have hnone : ∀ σ p, (w.pc i).holds σ p = none := by
    intro σ p
    rcases hpc with hpc | ⟨r, hpc⟩ <;> rw [hpc] <;> rfl
  have hself : (w.loadHead i c).pc i = .loadTail c (w.rb.lane c.side).head :=
    Function.update_self _ _ _
  have hmark : (w.loadHead i c).mark i = w.head := Function.update_self _ _ _
  refine h.quiet (i := i) h.shape (fun _ => rfl) rfl
    (fun j hj => Function.update_of_ne hj _ _) (fun j hj => Function.update_of_ne hj _ _) rfl ?_ ?_ ?_
  · intro σ p
    rw [hself, hnone]
    rfl
  · rw [hself, hmark]
    refine ⟨⟨fun _ => le_rfl, by omega, by omega⟩, ?_⟩
    rw [h.lane]
  · intro c' r hpc
    rw [hself] at hpc
    cases hpc

/-- The load of the other side's tail: the room computed is right if the head has not moved. -/
theorem Inv.loadTail (h : Inv k T w) {i : ι} {c : Call} {oldHead : UInt32}
    (hpc : w.pc i = .loadTail c oldHead) : Inv k T (w.loadTail i c oldHead) := by
  have hthread := h.thread i
  rw [hpc] at hthread
  obtain ⟨hmark, rfl⟩ := hthread
  have hzero : (0 : UInt32).toNat = 0 := rfl
  have hn := reserve_variable c.n (UInt32.ofNat (w.mark i c.side))
    (entriesSeen w.rb (UInt32.ofNat (w.mark i c.side)) c.side)
  unfold World.loadTail
  dsimp only
  split_ifs with h0
  · refine h.goto _ _ ?_ trivial (fun _ _ hpc' => nomatch hpc')
    intro σ p
    rw [hpc]
    rfl
  · refine h.goto _ _ ?_ ⟨hmark, rfl, rfl, ?_, ?_⟩ (fun _ _ hpc' => nomatch hpc')
    · intro σ p
      rw [hpc]
      rfl
    · rw [Nat.pos_iff_ne_zero]
      intro hzero'
      exact h0 (UInt32.toNat_inj.mp (hzero'.trans hzero.symm))
    · intro heq
      have hle := h.head_le c.side
      have hroom := h.entriesSeen_eq c.side
      rw [heq] at hroom hle
      rw [hn, hroom]
      have hmin := min_le_right c.n.toNat (limit k T c.side - w.mark i c.side)
      omega

/-- The copy of one slot. -/
theorem Inv.copyOne (h : Inv k T w) {i : ι} {c : Call} {r : Reservation} {mv : ℕ × ℕ}
    {todo : List (ℕ × ℕ)} (hpc : w.pc i = .copy c r (mv :: todo)) :
    Inv k T (w.copyOne i c r mv todo) := by
  have hthread := h.thread i
  rw [hpc] at hthread
  obtain ⟨side, table, n⟩ := c
  cases side with
  | prod =>
      have hgoto := h.goto i (.copy ⟨.prod, table, n⟩ r todo)
        (fun σ p => by rw [hpc]; rfl) hthread (fun _ _ hpc' => nomatch hpc')
      refine ⟨hgoto.shape.of_eq rfl rfl rfl, ?_, hgoto.tiles, hgoto.head_le, hgoto.thread,
        hgoto.at_tail⟩
      rintro (_ | _)
      · exact hgoto.lane .prod
      · exact hgoto.lane .cons
  | cons =>
      have hgoto := h.goto i
        (.copy ⟨.cons, Function.update table mv.2 (w.rb.slots mv.1), n⟩ r todo)
        (fun σ p => by rw [hpc]; rfl) hthread (fun _ _ hpc' => nomatch hpc')
      exact ⟨hgoto.shape, hgoto.lane, hgoto.tiles, hgoto.head_le, hgoto.thread, hgoto.at_tail⟩

/-- The wait ends: the tail is the thread's own first position. -/
theorem Inv.seeTail (h : Inv k T w) {i : ι} {c : Call} {r : Reservation}
    (hpc : w.pc i = .copy c r []) (heq : (w.rb.lane c.side).tail = r.oldHead) :
    Inv k T (w.goto i (.store c r)) := by
  have hthread := h.thread i
  rw [hpc] at hthread
  refine h.goto _ _ (fun σ p => by rw [hpc]; rfl) hthread ?_
  intro c' r' hpc'
  cases hpc'
  have hown : w.own c.side i = some (w.pos i, r.n.toNat) := by
    rw [World.own, hpc]
    exact if_pos rfl
  obtain ⟨h₁, h₂, h₃, h₄⟩ := h.chain
  have hpow := h.shape.pow_le
  obtain ⟨hn, hlo, hhi⟩ := (h.tiles c.side).inside hown
  rw [h.lane, hthread.1] at heq
  refine (ofNat_inj hlo ?_).mp heq.symm
  cases hside : c.side <;> rw [hside] at hlo hhi <;> omega

/-! ## Steps that move a counter -/

theorem lane_setHead (rb : KtRingbuf) (x : UInt32) (σ σ' : Side) :
    (rb.setHead x σ).lane σ' =
      if σ' = σ then ⟨x, (rb.lane σ').tail⟩ else rb.lane σ' := by
  cases σ <;> cases σ' <;> rfl

theorem lane_setTail (rb : KtRingbuf) (x : UInt32) (σ σ' : Side) :
    (rb.setTail x σ).lane σ' =
      if σ' = σ then ⟨(rb.lane σ').head, x⟩ else rb.lane σ' := by
  cases σ <;> cases σ' <;> rfl

theorem Shape.setHead {rb : KtRingbuf} (h : Shape rb k) (x : UInt32) (σ : Side) :
    Shape (rb.setHead x σ) k := by
  cases σ <;> exact h.of_eq rfl rfl rfl

theorem Shape.setTail {rb : KtRingbuf} (h : Shape rb k) (x : UInt32) (σ : Side) :
    Shape (rb.setTail x σ) k := by
  cases σ <;> exact h.of_eq rfl rfl rfl

/-- **A successful compare-exchange** reserves the next positions, and there is room for them. -/
theorem Inv.moveHead (h : Inv k T w) {i : ι} {c : Call} {r : Reservation} (hpc : w.pc i = .cas c r)
    (heq : (w.rb.lane c.side).head = r.oldHead) (hwrap : ∃ σ, w.head σ < w.mark i σ + 2 ^ 31) :
    Inv k T (w.moveHead i c r) := by
  have hthread := h.thread i
  rw [hpc] at hthread
  obtain ⟨hmark, hold, hnew, hn, hroom⟩ := hthread
  have hhead := h.head_eq_mark hmark hwrap (heq.trans hold)
  have hroom' := hroom hhead
  rw [← hhead] at hroom' hold
  have hself : (w.moveHead i c r).pc i = .copy c r (ktRingbufElemMoves w.rb.size
      (firstSlot w.rb r.oldHead c.side) r.n) := Function.update_self _ _ _
  have hpos : (w.moveHead i c r).pos i = w.head c.side := Function.update_self _ _ _
  have hne : ∀ j ≠ i, (w.moveHead i c r).pc j = w.pc j := fun j hj => Function.update_of_ne hj _ _
  have hne' : ∀ j ≠ i, (w.moveHead i c r).pos j = w.pos j := fun j hj => Function.update_of_ne hj _ _
  have hheads : ∀ σ, (w.moveHead i c r).head σ =
      if σ = c.side then w.head σ + r.n.toNat else w.head σ := by
    intro σ
    simp only [World.moveHead, Function.update_apply]
    split_ifs with hσ
    · rw [hσ]
    · rfl
  refine ⟨h.shape.setHead _ _, ?_, ?_, ?_, ?_, ?_⟩
  · intro σ
    rw [hheads, World.moveHead]
    dsimp only
    rw [lane_setHead, h.lane, hnew, hold, ofNat_add_eq]
    split_ifs with hσ
    · rw [hσ]
    · rfl
  · intro σ
    have hown : w.own σ i = none := by
      rw [World.own, hpc]
      rfl
    rw [own_eq_update hne hne', hself, hpos, hheads]
    by_cases hσ : c.side = σ
    · subst hσ
      simp only [Pc.holds, if_true]
      exact (h.tiles c.side).reserve hown hn
    · have hself' : (Pc.copy c r (ktRingbufElemMoves w.rb.size (firstSlot w.rb r.oldHead c.side)
          r.n)).holds σ (w.head c.side) = w.own σ i := by
        rw [hown]
        exact if_neg hσ
      rw [hself', Function.update_eq_self, if_neg (Ne.symm hσ)]
      exact h.tiles σ
  · intro σ
    rw [hheads]
    split_ifs with hσ
    · rw [hσ]
      exact hroom'
    · exact h.head_le σ
  · intro j
    by_cases hj : j = i
    · subst hj
      rw [hself, hpos]
      exact ⟨hold, hnew⟩
    · rw [hne j hj, hne' j hj]
      refine (h.thread j).mono (fun σ => ?_) (fun _ => le_rfl)
      rw [hheads]
      split_ifs
      · exact Nat.le_add_right _ _
      · exact le_rfl
  · intro j c' r' hj
    by_cases hji : j = i
    · subst hji
      rw [hself] at hj
      cases hj
    · rw [hne j hji] at hj
      rw [hne' j hji]
      exact h.at_tail j c' r' hj

/-- **The store of the tail** gives back the positions at the lower end. -/
theorem Inv.storeTail (h : Inv k T w) {i : ι} {c : Call} {r : Reservation}
    (hpc : w.pc i = .store c r) :
    Inv k (Function.update T c.side (T c.side + r.n.toNat)) (w.storeTail i c r) := by
  have hthread := h.thread i
  rw [hpc] at hthread
  obtain ⟨hold, hnew⟩ := hthread
  have hpos := h.at_tail i c r hpc
  have hown : w.own c.side i = some (T c.side, r.n.toNat) := by
    rw [World.own, hpc, hpos]
    exact if_pos rfl
  have hself : (w.storeTail i c r).pc i = .returned c r.n (r.entries - r.n) :=
    Function.update_self _ _ _
  have hne : ∀ j ≠ i, (w.storeTail i c r).pc j = w.pc j := fun j hj => Function.update_of_ne hj _ _
  have hT : ∀ σ, T σ ≤ Function.update T c.side (T c.side + r.n.toNat) σ := by
    intro σ
    rw [Function.update_apply]
    split_ifs with hσ
    · rw [hσ]
      exact Nat.le_add_right _ _
    · exact le_rfl
  refine ⟨h.shape.setTail _ _, ?_, ?_, ?_, ?_, ?_⟩
  · intro σ
    rw [World.storeTail]
    dsimp only
    rw [lane_setTail, h.lane, hnew, hold, hpos, ofNat_add_eq, Function.update_apply]
    split_ifs <;> rfl
  · intro σ
    rw [own_eq_update hne fun _ _ => rfl, hself]
    by_cases hσ : c.side = σ
    · subst hσ
      rw [Function.update_self]
      exact (h.tiles c.side).release hown
    · have hnone : (Pc.returned c r.n (r.entries - r.n)).holds σ ((w.storeTail i c r).pos i) =
          w.own σ i := by
        rw [World.own, hpc]
        exact (if_neg hσ).symm
      rw [hnone, Function.update_eq_self, Function.update_of_ne (Ne.symm hσ)]
      exact h.tiles σ
  · intro σ
    refine (h.head_le σ).trans ?_
    cases σ with
    | prod => exact Nat.add_le_add_right (hT .cons) _
    | cons => exact hT .prod
  · intro j
    by_cases hj : j = i
    · subst hj
      rw [hself]
      trivial
    · rw [hne j hj]
      exact (h.thread j).mono (fun _ => le_rfl) hT
  · intro j c' r' hj
    by_cases hji : j = i
    · subst hji
      rw [hself] at hj
      cases hj
    · rw [hne j hji] at hj
      have hpos' := h.at_tail j c' r' hj
      rw [Function.update_apply]
      split_ifs with hσ
      · -- two threads of one side cannot both stand at the tail
        have hown' : w.own c.side j = some (T c.side, r'.n.toNat) := by
          rw [World.own, hj, hpos', hσ]
          exact if_pos hσ
        have hn := ((h.tiles c.side).inside hown).1
        have hn' := ((h.tiles c.side).inside hown').1
        exact absurd ((h.tiles c.side).owner_unique (x := T c.side) hown' hown
          ⟨le_rfl, by omega⟩ ⟨le_rfl, by omega⟩) hji
      · exact hpos'

/-! ## Runs -/

/-- **Every atomic step keeps the invariant.** -/
theorem inv_step (h : Inv k T w) (hwrap : NoWrap w a) (hs : threadStep w a = some w') :
    ∃ T', Inv k T' w' := by
  obtain ⟨i, heff⟩ := threadStep_effect hs
  cases heff with
  | call c hpc => exact ⟨T, h.call c hpc⟩
  | loadHead _ c hpc => exact ⟨T, h.loadHead hpc⟩
  | loadTail c oldHead hpc => exact ⟨T, h.loadTail hpc⟩
  | moveHead c r hpc heq => exact ⟨T, h.moveHead hpc heq (hwrap i c r rfl hpc)⟩
  | copyOne c r mv todo hpc => exact ⟨T, h.copyOne hpc⟩
  | wait c r hpc => exact ⟨T, h⟩
  | seeTail c r hpc heq => exact ⟨T, h.seeTail hpc heq⟩
  | storeTail c r hpc => exact ⟨_, h.storeTail hpc⟩

omit [DecidableEq ι] in
/-- The invariant holds at the start. -/
theorem inv_init {rb : KtRingbuf} (h : RingAt rb k 0 0) :
    Inv k (fun _ => 0) (World.init rb : World ι) where
  shape := h.shape
  lane
    | .prod => h.prod
    | .cons => h.cons
  tiles _ := .empty 0
  head_le _ := Nat.zero_le _
  thread _ := trivial
  at_tail _ _ _ hpc := nomatch hpc

/-- The invariant holds all along a run. -/
theorem inv_run {rb : KtRingbuf} (h₀ : RingAt rb k 0 0) {tr : List (World ι × Act ι)}
    (hrun : Run threadStep (World.init rb) tr w) (hwrap : ∀ p ∈ tr, NoWrap p.1 p.2) :
    ∃ T, Inv k T w := by
  refine hrun.invariant (I := fun w => ∃ T, Inv k T w) ⟨_, inv_init h₀⟩ ?_ hwrap
  rintro w a w' ⟨T, h⟩ hok hs
  exact inv_step h hok hs

/-! ## The stored counters -/

/-- Thread `i` has reserved, and not yet published, the stored position `x` on side `σ`. -/
def Owns (w : World ι) (σ : Side) (i : ι) (x : UInt32) : Prop :=
  match w.pc i with
  | .copy c r _ => c.side = σ ∧ (x - r.oldHead).toNat < (r.newHead - r.oldHead).toNat
  | .store c r => c.side = σ ∧ (x - r.oldHead).toNat < (r.newHead - r.oldHead).toNat
  | _ => False

omit [DecidableEq ι] in
/-- The stored positions of a thread are those of its interval. -/
theorem Inv.owns_iff (h : Inv k T w) {σ : Side} {i : ι} {x : UInt32} :
    Owns w σ i x ↔
      ∃ a n, w.own σ i = some (a, n) ∧ ∃ p, a ≤ p ∧ p < a + n ∧ x = UInt32.ofNat p := by
  have key : ∀ (c : Call) (r : Reservation), (∀ σ p, (w.pc i).holds σ p =
      if c.side = σ then some (p, r.n.toNat) else none) →
      r.oldHead = UInt32.ofNat (w.pos i) ∧ r.newHead = r.oldHead + r.n →
      (c.side = σ ∧ (x - r.oldHead).toNat < (r.newHead - r.oldHead).toNat ↔
        ∃ a n, w.own σ i = some (a, n) ∧ ∃ p, a ≤ p ∧ p < a + n ∧ x = UInt32.ofNat p) := by
    rintro c r hholds ⟨hold, hnew⟩
    have hn := r.n.toNat_lt
    rw [hnew, hold, ofNat_add_eq, sub_lt_sub_iff (Nat.le_add_right _ _) (by omega), World.own, hholds]
    constructor
    · rintro ⟨rfl, hp⟩
      exact ⟨_, _, if_pos rfl, hp⟩
    · rintro ⟨a, n, hown, hp⟩
      split_ifs at hown with hσ
      cases hown
      exact ⟨hσ, hp⟩
  have hthread := h.thread i
  rw [Owns]
  cases hpc : w.pc i with
  | copy c r todo =>
      rw [hpc] at hthread key
      exact key c r (fun _ _ => rfl) hthread
  | store c r =>
      rw [hpc] at hthread key
      exact key c r (fun _ _ => rfl) hthread
  | idle => simp [World.own, hpc, Pc.holds]
  | loadHead c => simp [World.own, hpc, Pc.holds]
  | loadTail c oldHead => simp [World.own, hpc, Pc.holds]
  | cas c r => simp [World.own, hpc, Pc.holds]
  | returned c n rest => simp [World.own, hpc, Pc.holds]

omit [DecidableEq ι] in
/-- Positions that are reserved lie between the consumers' tail and the producers' head, those of
the consumers below those of the producers. -/
theorem Inv.inside (h : Inv k T w) {σ : Side} {i : ι} {a n p : ℕ} (hown : w.own σ i = some (a, n))
    (hp : a ≤ p ∧ p < a + n) : T σ ≤ p ∧ p < w.head σ := by
  obtain ⟨-, hlo, hhi⟩ := (h.tiles σ).inside hown
  omega

omit [DecidableEq ι] in
/-- Two reserved positions in one slot are one position of one thread. -/
theorem Inv.slot_injective (h : Inv k T w) {σ σ' : Side} {i j : ι} {x y : UInt32}
    (hx : Owns w σ i x) (hy : Owns w σ' j y) (hslot : x &&& w.rb.mask = y &&& w.rb.mask) :
    σ = σ' ∧ i = j ∧ x = y := by
  obtain ⟨h₁, h₂, h₃, h₄⟩ := h.chain
  have hpos := Nat.two_pow_pos k
  have hk := h.shape.le.trans (show 31 ≤ 32 by decide)
  obtain ⟨a, n, hown, p, hap, hpn, rfl⟩ := h.owns_iff.mp hx
  obtain ⟨b, m, hown', q, hbq, hqm, rfl⟩ := h.owns_iff.mp hy
  have hin := h.inside hown ⟨hap, hpn⟩
  have hin' := h.inside hown' ⟨hbq, hqm⟩
  have hmod : p % 2 ^ k = q % 2 ^ k := by
    rw [← toNat_ofNat_and_mask hk h.shape.toNat_mask, hslot,
      toNat_ofNat_and_mask hk h.shape.toNat_mask]
  have hpq : p = q := by
    rcases lt_trichotomy p q with hlt | heq | hgt
    · exact absurd hmod (mod_ne_of_lt hlt (by cases σ <;> cases σ' <;> omega))
    · exact heq
    · exact absurd hmod.symm (mod_ne_of_lt hgt (by cases σ <;> cases σ' <;> omega))
  subst hpq
  have hσ : σ = σ' := by
    cases σ <;> cases σ' <;> first | rfl | omega
  subst hσ
  exact ⟨rfl, (h.tiles σ).owner_unique hown hown' ⟨hap, hpn⟩ ⟨hbq, hqm⟩, rfl⟩

omit [DecidableEq ι] in
/-- The stored positions between the tail and the head of a side are those that are reserved. -/
theorem Inv.window_iff (h : Inv k T w) (σ : Side) (x : UInt32) :
    (x - (w.rb.lane σ).tail).toNat < ((w.rb.lane σ).head - (w.rb.lane σ).tail).toNat ↔
      ∃ i, Owns w σ i x := by
  obtain ⟨h₁, h₂, h₃, h₄⟩ := h.chain
  have hpow := h.shape.pow_le
  have hrange : w.head σ < T σ + 2 ^ 32 := by cases σ <;> omega
  rw [h.lane, sub_lt_sub_iff (h.tiles σ).le hrange]
  constructor
  · rintro ⟨p, hlo, hhi, rfl⟩
    obtain ⟨i, a, n, hown, hap, hpn⟩ := (h.tiles σ).cover hlo hhi
    exact ⟨i, h.owns_iff.mpr ⟨a, n, hown, p, hap, hpn, rfl⟩⟩
  · rintro ⟨i, hx⟩
    obtain ⟨a, n, hown, p, hap, hpn, rfl⟩ := h.owns_iff.mp hx
    obtain ⟨hlo, hhi⟩ := h.inside hown ⟨hap, hpn⟩
    exact ⟨p, hlo, hhi, rfl⟩

/-- **The reservations of concurrent bursts.** For a ring of any power-of-two size made by
`kt_ringbuf_create`, any number of threads and bursts of any length, in every state reached by
interleaved atomic steps in which no compare-exchange meets a head that has wrapped (`NoWrap`):

* counted from `cons.tail`, the counters satisfy `cons.head ≤ prod.tail ≤ prod.head ≤ capacity`;
* the positions from the tail to the head of a side are exactly those in `[old_head, new_head)` of
  some call of this side that has reserved and not yet published, and of only one such call;
* two reserved positions that fall into one slot are the same position of the same call. -/
theorem reservations_partition (alloc : UInt32 → Option (ℕ → UInt64)) (count esize : UInt32)
    (rb : KtRingbuf) (k : ℕ) (hcount : count.toNat = 2 ^ k)
    (hcreate : ktRingbufCreate alloc count esize = some rb) (tr : List (World ι × Act ι))
    (w : World ι) (hrun : Run threadStep (World.init rb) tr w) (hwrap : ∀ p ∈ tr, NoWrap p.1 p.2) :
    (w.rb.cons.head - w.rb.cons.tail).toNat ≤ (w.rb.prod.tail - w.rb.cons.tail).toNat ∧
    (w.rb.prod.tail - w.rb.cons.tail).toNat ≤ (w.rb.prod.head - w.rb.cons.tail).toNat ∧
    (w.rb.prod.head - w.rb.cons.tail).toNat ≤ w.rb.capacity.toNat ∧
    w.rb.capacity.toNat = count.toNat - 1 ∧
    (∀ σ x, (x - (w.rb.lane σ).tail).toNat < ((w.rb.lane σ).head - (w.rb.lane σ).tail).toNat ↔
      ∃ i, Owns w σ i x) ∧
    (∀ σ i j x, Owns w σ i x → Owns w σ j x → i = j) ∧
    (∀ σ σ' i j x y, Owns w σ i x → Owns w σ' j y → x &&& w.rb.mask = y &&& w.rb.mask →
      σ = σ' ∧ i = j ∧ x = y) := by
  have hk : k < 32 := (Nat.pow_lt_pow_iff_right Nat.one_lt_two).mp (hcount ▸ count.toNat_lt)
  obtain ⟨T, h⟩ := inv_run (ringAt_create (Nat.le_of_lt_succ hk) hcount hcreate) hrun hwrap
  obtain ⟨h₁, h₂, h₃, h₄⟩ := h.chain
  have hpow := h.shape.pow_le
  have hcap := h.shape.toNat_capacity
  have hprod : w.rb.prod = _ := h.lane .prod
  have hcons : w.rb.cons = _ := h.lane .cons
  have hdist : ∀ {p}, T .cons ≤ p → p ≤ w.head .prod →
      (UInt32.ofNat p - UInt32.ofNat (T .cons)).toNat = p - T .cons :=
    fun hlo hhi => toNat_ofNat_sub hlo (by omega)
  rw [hprod, hcons]
  dsimp only
  rw [hdist h₁ (by omega), hdist (h₁.trans h₂) h₃, hdist (by omega) le_rfl, hcap, hcount]
  refine ⟨by omega, by omega, by omega, rfl, h.window_iff, ?_, ?_⟩
  · intro σ i j x hi hj
    exact (h.slot_injective hi hj rfl).2.1
  · intro σ σ' i j x y hx hy hslot
    exact h.slot_injective hx hy hslot

/-- The result in a state where one of two threads has reserved two positions of a ring of four
slots, and the other one the third position. -/
theorem reservations_partition_two :
    ∃ (tr : List (World Bool × Act Bool)) (w : World Bool),
      Run threadStep (World.init ⟨4, 8, 3, 3, ⟨0, 0⟩, ⟨0, 0⟩, fun _ => 0⟩) tr w ∧
      Owns w .prod true 0 ∧ Owns w .prod true 1 ∧ Owns w .prod false 2 ∧
      (∀ x, (x - w.rb.prod.tail).toNat < (w.rb.prod.head - w.rb.prod.tail).toNat ↔
        ∃ i, Owns w .prod i x) ∧
      ∀ x, Owns w .prod true x → ¬ Owns w .prod false x := by
  let rb : KtRingbuf := ⟨4, 8, 3, 3, ⟨0, 0⟩, ⟨0, 0⟩, fun _ => 0⟩
  let put : UInt32 → Call := fun n => ⟨.prod, fun _ => 7, n⟩
  let ok : World Bool → Act Bool → Bool := fun w _ => decide (w.head .prod < 2 ^ 31)
  -- the second thread loads the head before the first one moves it, and has to load it again
  have hexec : (exec (fun w a => if ok w a then threadStep w a else none) (World.init rb)
      [.call true (put 2), .step true, .step true, .call false (put 1), .step false, .step false,
        .step true, .step false, .step false, .step false]).map
        (fun w => (w.own .prod true, w.own .prod false)) = some (some (0, 2), some (2, 1)) := by
    decide +kernel
  obtain ⟨w, hw, hown⟩ := Option.map_eq_some_iff.mp hexec
  obtain ⟨htrue, hfalse⟩ := Prod.mk.inj hown
  obtain ⟨tr, hguarded, -⟩ := Run.of_exec hw
  obtain ⟨hrun, hok⟩ := hguarded.of_guarded
  have hwrap : ∀ p ∈ tr, NoWrap p.1 p.2 := by
    intro p hp i c r _ _
    exact ⟨.prod, Nat.lt_add_left _ (of_decide_eq_true (hok p hp))⟩
  have hcreate : ktRingbufCreate (fun _ => some fun _ => 0) 4 8 = some rb := rfl
  have hring : RingAt rb 2 0 0 := ringAt_create (k := 2) (by decide) rfl hcreate
  obtain ⟨T, h⟩ := inv_run hring hrun hwrap
  obtain ⟨-, -, -, -, hwindow, hunique, -⟩ := reservations_partition (fun _ => some fun _ => 0) 4 8
    rb 2 rfl hcreate tr w hrun hwrap
  refine ⟨tr, w, hrun, ?_, ?_, ?_, hwindow .prod, fun x hx hx' => ?_⟩
  · exact h.owns_iff.mpr ⟨0, 2, htrue, 0, by decide, by decide, rfl⟩
  · exact h.owns_iff.mpr ⟨0, 2, htrue, 1, by decide, by decide, rfl⟩
  · exact h.owns_iff.mpr ⟨2, 1, hfalse, 2, by decide, by decide, rfl⟩
  · exact Bool.noConfusion (hunique .prod true false x hx hx')

end KuberneTSN.Ring
