import KuberneTSN.Ring.Basic
import KuberneTSN.Lib.SlotLog

/-!
# The ring buffer with many threads, one atomic step at a time

Any number of threads run `kt_ringbuf_enqueue_burst` and `kt_ringbuf_dequeue_burst` (with elements
of 8 bytes) on one ring. Memory is sequentially consistent; `Pc` is where a thread stands in its
call, and `threadStep` its next atomic step: the load of its own head, the load of the other side's
tail, the weak compare-exchange of the head, the copy of one slot, a look at its own tail, the
store of the tail. `Act.casFail` is the spurious failure of the compare-exchange.

The two routines differ only in the side they work on, so a call carries its `Side`. The fields
`head`, `mark`, `pos` and `log` of a `World` record what has happened and are never read by a step:
the numbers of positions reserved so far (the heads, without wrap), these numbers at a thread's last
load of its head, the first position a thread reserved last, and the accesses to the slots.
-/

namespace KuberneTSN.Ring

open Lib

/-- The two sides of a ring. -/
inductive Side where
  | prod
  | cons
  deriving DecidableEq, Repr

/-- `rb->prod` or `rb->cons`. -/
def KtRingbuf.lane (rb : KtRingbuf) : Side → KtHeadtail
  | .prod => rb.prod
  | .cons => rb.cons

/-- Store the head of a side. -/
def KtRingbuf.setHead (rb : KtRingbuf) (h : UInt32) : Side → KtRingbuf
  | .prod => { rb with prod := { rb.prod with head := h } }
  | .cons => { rb with cons := { rb.cons with head := h } }

/-- Store the tail of a side. -/
def KtRingbuf.setTail (rb : KtRingbuf) (t : UInt32) : Side → KtRingbuf
  | .prod => { rb with prod := { rb.prod with tail := t } }
  | .cons => { rb with cons := { rb.cons with tail := t } }

/-- `*free_entries` or `*entries`, computed from the own head loaded before and the other side's
tail as it is now.
Source: `kt_ringbuf.c` lines 76–78 and 194–196. -/
def entriesSeen (rb : KtRingbuf) (oldHead : UInt32) : Side → UInt32
  | .prod => rb.capacity - (oldHead - rb.cons.tail)
  | .cons => rb.prod.tail - oldHead

/-- The first slot of a burst.
Source: `kt_ringbuf.c` `__kt_ringbuf_enqueue_elems` and `__kt_ringbuf_dequeue_elems`. -/
def firstSlot (rb : KtRingbuf) (oldHead : UInt32) : Side → UInt32
  | .prod => oldHead &&& rb.mask
  | .cons => oldHead &&& (rb.size - 1)

/-- A call and its arguments. A dequeue writes to its table. -/
structure Call where
  side : Side
  table : ℕ → UInt64
  n : UInt32

/-- Where a thread stands. `copy c r []` is the wait for the tail. -/
inductive Pc where
  | idle
  | loadHead (c : Call)
  | loadTail (c : Call) (oldHead : UInt32)
  | cas (c : Call) (r : Reservation)
  | copy (c : Call) (r : Reservation) (todo : List (ℕ × ℕ))
  | store (c : Call) (r : Reservation)
  /-- The call has returned `n`, with `*free_space` or `*available`. -/
  | returned (c : Call) (n rest : UInt32)

/-- The ring, the threads, and the record of what has happened. -/
structure World (ι : Type*) where
  rb : KtRingbuf
  pc : ι → Pc
  head : Side → ℕ
  mark : ι → Side → ℕ
  pos : ι → ℕ
  log : List (Access ι UInt64)

/-- What happens next: a thread that is between calls starts one, a thread takes its next step, or
its compare-exchange fails spuriously. -/
inductive Act (ι : Type*) where
  | call (i : ι) (c : Call)
  | step (i : ι)
  | casFail (i : ι)

/-- All threads are idle and nothing has happened. -/
def World.init {ι : Type*} (rb : KtRingbuf) : World ι where
  rb := rb
  pc _ := .idle
  head _ := 0
  mark _ _ := 0
  pos _ := 0
  log := []

variable {ι : Type*} [DecidableEq ι]

/-- Thread `i` goes on at `pc`. -/
def World.goto (w : World ι) (i : ι) (pc : Pc) : World ι :=
  { w with pc := Function.update w.pc i pc }

/-- The load of the own head, which a failed compare-exchange does as well. -/
def World.loadHead (w : World ι) (i : ι) (c : Call) : World ι :=
  { w.goto i (.loadTail c (w.rb.lane c.side).head) with mark := Function.update w.mark i w.head }

/-- The load of the other side's tail: return if there is nothing to do. -/
def World.loadTail (w : World ι) (i : ι) (c : Call) (oldHead : UInt32) : World ι :=
  let r := reserve .variable c.n oldHead (entriesSeen w.rb oldHead c.side)
  w.goto i (if r.n = 0 then .returned c 0 (r.entries - 0) else .cas c r)

/-- The compare-exchange of the head succeeds. -/
def World.moveHead (w : World ι) (i : ι) (c : Call) (r : Reservation) : World ι :=
  let moves := ktRingbufElemMoves w.rb.size (firstSlot w.rb r.oldHead c.side) r.n
  { w.goto i (.copy c r moves) with
    rb := w.rb.setHead r.newHead c.side
    head := Function.update w.head c.side (w.head c.side + r.n.toNat)
    pos := Function.update w.pos i (w.head c.side) }

/-- The copy between slot `mv.1` and table entry `mv.2`. -/
def World.copyOne (w : World ι) (i : ι) (c : Call) (r : Reservation) (mv : ℕ × ℕ)
    (todo : List (ℕ × ℕ)) : World ι :=
  match c.side with
  | .prod =>
      { w.goto i (.copy c r todo) with
        rb := { w.rb with slots := Function.update w.rb.slots mv.1 (c.table mv.2) }
        log := w.log ++ [.write i (w.pos i + mv.2) mv.1 (c.table mv.2)] }
  | .cons =>
      { w.goto i (.copy { c with table := Function.update c.table mv.2 (w.rb.slots mv.1) } r todo) with
        log := w.log ++ [.read i (w.pos i + mv.2) mv.1 (w.rb.slots mv.1)] }

/-- The store of the tail, and the return. -/
def World.storeTail (w : World ι) (i : ι) (c : Call) (r : Reservation) : World ι :=
  { w.goto i (.returned c r.n (r.entries - r.n)) with rb := w.rb.setTail r.newHead c.side }

/-- One atomic step.
Source: `kt_ringbuf.c` `__kt_ringbuf_move_prod_head`, `__kt_ringbuf_do_enqueue_elems`,
`__kt_ringbuf_move_cons_head`, `__kt_ringbuf_do_dequeue_elems`. -/
def threadStep (w : World ι) : Act ι → Option (World ι)
  | .call i c =>
      match w.pc i with
      | .idle | .returned _ _ _ => some (w.goto i (.loadHead c))
      | _ => none
  | .step i =>
      match w.pc i with
      | .idle | .returned _ _ _ => none
      | .loadHead c => some (w.loadHead i c)
      | .loadTail c oldHead => some (w.loadTail i c oldHead)
      | .cas c r =>
          if (w.rb.lane c.side).head = r.oldHead then some (w.moveHead i c r)
          else some (w.loadHead i c)
      | .copy c r (mv :: todo) => some (w.copyOne i c r mv todo)
      | .copy c r [] =>
          if (w.rb.lane c.side).tail = r.oldHead then some (w.goto i (.store c r)) else some w
      | .store c r => some (w.storeTail i c r)
  | .casFail i =>
      match w.pc i with
      | .cas c _ => some (w.loadHead i c)
      | _ => none

/-! ## What a step can do -/

/-- The steps of thread `i`, each with what is known when it is taken. -/
inductive Effect (w : World ι) (i : ι) : Act ι → World ι → Prop
  | call (c : Call) (hpc : w.pc i = .idle ∨ ∃ c n rest, w.pc i = .returned c n rest) :
      Effect w i (.call i c) (w.goto i (.loadHead c))
  | loadHead (a : Act ι) (c : Call) (hpc : w.pc i = .loadHead c ∨ ∃ r, w.pc i = .cas c r) :
      Effect w i a (w.loadHead i c)
  | loadTail (c : Call) (oldHead : UInt32) (hpc : w.pc i = .loadTail c oldHead) :
      Effect w i (.step i) (w.loadTail i c oldHead)
  | moveHead (c : Call) (r : Reservation) (hpc : w.pc i = .cas c r)
      (heq : (w.rb.lane c.side).head = r.oldHead) : Effect w i (.step i) (w.moveHead i c r)
  | copyOne (c : Call) (r : Reservation) (mv : ℕ × ℕ) (todo : List (ℕ × ℕ))
      (hpc : w.pc i = .copy c r (mv :: todo)) : Effect w i (.step i) (w.copyOne i c r mv todo)
  | wait (c : Call) (r : Reservation) (hpc : w.pc i = .copy c r []) : Effect w i (.step i) w
  | seeTail (c : Call) (r : Reservation) (hpc : w.pc i = .copy c r [])
      (heq : (w.rb.lane c.side).tail = r.oldHead) :
      Effect w i (.step i) (w.goto i (.store c r))
  | storeTail (c : Call) (r : Reservation) (hpc : w.pc i = .store c r) :
      Effect w i (.step i) (w.storeTail i c r)

/-- **Inversion**: these are all the steps there are. -/
theorem threadStep_effect {w w' : World ι} {a : Act ι} (h : threadStep w a = some w') :
    ∃ i, Effect w i a w' := by
  cases a with
  | call i c =>
      refine ⟨i, ?_⟩
      simp only [threadStep] at h
      split at h
      · cases h
        exact .call c (Or.inl ‹_›)
      · cases h
        exact .call c (Or.inr ⟨_, _, _, ‹_›⟩)
      · cases h
  | step i =>
      refine ⟨i, ?_⟩
      simp only [threadStep] at h
      split at h
      · cases h
      · cases h
      · cases h
        exact .loadHead _ _ (Or.inl ‹_›)
      · cases h
        exact .loadTail _ _ ‹_›
      · split_ifs at h with heq
        · cases h
          exact .moveHead _ _ ‹_› heq
        · cases h
          exact .loadHead _ _ (Or.inr ⟨_, ‹_›⟩)
      · cases h
        exact .copyOne _ _ _ _ ‹_›
      · split_ifs at h with heq
        · cases h
          exact .seeTail _ _ ‹_› heq
        · cases h
          exact .wait _ _ ‹_›
      · cases h
        exact .storeTail _ _ ‹_›
  | casFail i =>
      refine ⟨i, ?_⟩
      simp only [threadStep] at h
      split at h
      · cases h
        exact .loadHead _ _ (Or.inr ⟨_, ‹_›⟩)
      · cases h

end KuberneTSN.Ring
