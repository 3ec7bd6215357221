import Mathlib

/-!
# The ring buffer of `kt_ringbuf.c`, one call at a time

Counters and sizes are `UInt32` as in the source, elements are `u64`. `slots k` is the 8-byte cell
`((u64 *)(rb + 1))[k]`, for every `k`: the cells at and beyond `size` are the memory behind the
ring.

The routines `__kt_ringbuf_enqueue_elems` and `__kt_ringbuf_dequeue_elems` walk the same way over
slots and table entries, four at a time with a fall-through `switch` for the rest, or one at a time
in two loops when the burst crosses the end of the array; `ktRingbufElemMoves` is that walk, as the
list of (slot, table index) pairs in the order of the copies. Every call also reports the slots it
`touched`.

This is the sequential reading: a call runs from start to end without another one in between, so a
compare-exchange that fails spuriously is retried on the same values, and a wait for the tail either
passes at once or spins for ever (`Halt.spin`).
-/

namespace KuberneTSN.Ring

/-- Source: `kt_ringbuf.h` `struct kt_headtail`. -/
structure KtHeadtail where
  head : UInt32
  tail : UInt32
  deriving DecidableEq, Repr

/-- Source: `kt_ringbuf.h` `struct kt_ringbuf`. The fields `name` and `data` are left out: no
routine reads them. -/
structure KtRingbuf where
  size : UInt32
  esize : UInt32
  mask : UInt32
  capacity : UInt32
  prod : KtHeadtail
  cons : KtHeadtail
  /-- The 8-byte cells behind the header. -/
  slots : ℕ → UInt64

/-- Source: `kt_ringbuf.h` `enum kt_ringbuf_behavior`. -/
inductive KtRingbufBehavior where
  | fixed
  | variable
  deriving DecidableEq, Repr

/-- The ways in which a call does not return. -/
inductive Halt where
  /-- `assert("not implemented" == 0)`, for an element size other than `8`. -/
  | notImplemented
  /-- The wait for the tail never ends. -/
  | spin
  deriving DecidableEq, Repr

/-- Source: `kt_ringbuf.c` `kt_ringbuf_create`, with `sizeof(struct kt_ringbuf) = 128`. `alloc` is
`al->alloc`: it answers the cells behind the header of the new block, or `none` for `NULL`. -/
def ktRingbufCreate (alloc : UInt32 → Option (ℕ → UInt64)) (count esize : UInt32) :
    Option KtRingbuf := do
  let qsize := 128 + count * esize
  let slots ← alloc qsize
  some
    { size := count
      esize := esize
      mask := count - 1
      capacity := count - 1
      prod := ⟨0, 0⟩
      cons := ⟨0, 0⟩
      slots := slots }

/-- Source: `kt_ringbuf.c` `kt_ringbuf_get_capacity`. -/
def ktRingbufGetCapacity (rb : KtRingbuf) : UInt32 := rb.capacity

/-- Source: `kt_ringbuf.c` `kt_ringbuf_count`. -/
def ktRingbufCount (rb : KtRingbuf) : UInt32 :=
  let count := (rb.prod.tail - rb.cons.tail) &&& rb.mask
  if count > rb.capacity then rb.capacity else count

/-! ## Reserving -/

/-- What a move of a head answers: the number of elements, the head before and after, and the
entries that were free (for a producer) or filled (for a consumer). -/
structure Reservation where
  n : UInt32
  oldHead : UInt32
  newHead : UInt32
  entries : UInt32

/-- The part that the two head moves share: cut the request `n` down to the `entries` there are.
With `n = 0` the source returns before it sets `new_head`, which no caller then reads. -/
def reserve (behavior : KtRingbufBehavior) (n oldHead entries : UInt32) : Reservation :=
  let m :=
    if n > entries then
      match behavior with
      | .fixed => 0
      | .variable => entries
    else n
  { n := m, oldHead := oldHead, newHead := oldHead + m, entries := entries }

/-- Source: `kt_ringbuf.c` `__kt_ringbuf_move_prod_head`. -/
def ktRingbufMoveProdHead (rb : KtRingbuf) (n : UInt32) (behavior : KtRingbufBehavior) :
    Reservation × KtRingbuf :=
  let oldHead := rb.prod.head
  let freeEntries := rb.capacity - (oldHead - rb.cons.tail)
  let r := reserve behavior n oldHead freeEntries
  (r, if r.n = 0 then rb else { rb with prod := { rb.prod with head := r.newHead } })

/-- Source: `kt_ringbuf.c` `__kt_ringbuf_move_cons_head`. -/
def ktRingbufMoveConsHead (rb : KtRingbuf) (n : UInt32) (behavior : KtRingbufBehavior) :
    Reservation × KtRingbuf :=
  let oldHead := rb.cons.head
  let entries := rb.prod.tail - oldHead
  let r := reserve behavior n oldHead entries
  (r, if r.n = 0 then rb else { rb with cons := { rb.cons with head := r.newHead } })

/-! ## Copying -/

/-- The running indices of the copy loops and the copies made so far. -/
structure CopyState where
  idx : UInt32
  i : UInt32
  moves : List (ℕ × ℕ)

/-- `ring[idx++] = src[i++]`, or the same between `dst` and `ring`. -/
def CopyState.one (s : CopyState) : CopyState where
  idx := s.idx + 1
  i := s.i + 1
  moves := s.moves ++ [(s.idx.toNat, s.i.toNat)]

/-- The body of the unrolled loop with its increments. -/
def CopyState.four (s : CopyState) : CopyState where
  idx := s.idx + 4
  i := s.i + 4
  moves := s.moves ++
    [(s.idx.toNat, s.i.toNat), ((s.idx + 1).toNat, (s.i + 1).toNat),
      ((s.idx + 2).toNat, (s.i + 2).toNat), ((s.idx + 3).toNat, (s.i + 3).toNat)]

/-- `for (; i < bound; …)`, where `body` includes the increments. -/
def copyWhile (body : CopyState → CopyState) (bound : UInt32) : ℕ → CopyState → CopyState
  | 0, s => s
  | fuel + 1, s => if s.i < bound then copyWhile body bound fuel (body s) else s

/-- `for (; i < bound; i += 4, idx += 4)`. -/
def copyFours (bound : UInt32) : ℕ → CopyState → CopyState := copyWhile CopyState.four bound

/-- `for (; i < bound; i++, idx++)`. -/
def copyOnes (bound : UInt32) : ℕ → CopyState → CopyState := copyWhile CopyState.one bound

/-- `switch (rest)` with its fall-through cases. -/
def copyRest (rest : UInt32) (s : CopyState) : CopyState :=
  if rest = 3 then s.one.one.one
  else if rest = 2 then s.one.one
  else if rest = 1 then s.one
  else s

/-- The copies of `__kt_ringbuf_enqueue_elems` and `__kt_ringbuf_dequeue_elems`, as pairs of a slot
and a table index. Both loops of the wrap-around branch run while `i < n`.
Source: `kt_ringbuf.c` lines 106–135 and 224–253. -/
def ktRingbufElemMoves (size idx n : UInt32) : List (ℕ × ℕ) :=
  if idx + n ≤ size then
    (copyRest (n &&& 3) (copyFours (n &&& ~~~3) n.toNat ⟨idx, 0, []⟩)).moves
  else
    let s := copyOnes n n.toNat ⟨idx, 0, []⟩
    (copyOnes n n.toNat { s with idx := 0 }).moves

/-- Source: `kt_ringbuf.c` `__kt_ringbuf_enqueue_elems`; the ring and the slots written. -/
def ktRingbufEnqueueElems (rb : KtRingbuf) (prodHead : UInt32) (objTable : ℕ → UInt64)
    (esize n : UInt32) : Except Halt (KtRingbuf × List ℕ) :=
  if esize = 8 then
    let moves := ktRingbufElemMoves rb.size (prodHead &&& rb.mask) n
    let ring := moves.foldl (fun ring mv => Function.update ring mv.1 (objTable mv.2)) rb.slots
    .ok ({ rb with slots := ring }, moves.map Prod.fst)
  else .error .notImplemented

/-- Source: `kt_ringbuf.c` `__kt_ringbuf_dequeue_elems`; the table and the slots read. -/
def ktRingbufDequeueElems (rb : KtRingbuf) (consHead : UInt32) (objTable : ℕ → UInt64)
    (esize n : UInt32) : Except Halt ((ℕ → UInt64) × List ℕ) :=
  if esize = 8 then
    let moves := ktRingbufElemMoves rb.size (consHead &&& (rb.size - 1)) n
    let dst := moves.foldl (fun dst mv => Function.update dst mv.2 (rb.slots mv.1)) objTable
    .ok (dst, moves.map Prod.fst)
  else .error .notImplemented

/-! ## The calls -/

/-- The outcome of an enqueue call: the ring, the number of elements accepted, `*free_space`, and
the slots it touched. -/
structure Enqueued where
  rb : KtRingbuf
  n : UInt32
  freeSpace : UInt32
  touched : List ℕ

/-- Source: `kt_ringbuf.c` `__kt_ringbuf_do_enqueue_elems`. -/
def ktRingbufDoEnqueueElems (rb : KtRingbuf) (objTable : ℕ → UInt64) (esize n : UInt32)
    (behavior : KtRingbufBehavior) : Except Halt Enqueued :=
  let (r, rb) := ktRingbufMoveProdHead rb n behavior
  if r.n = 0 then
    .ok { rb := rb, n := 0, freeSpace := r.entries - 0, touched := [] }
  else do
    let (rb, touched) ← ktRingbufEnqueueElems rb r.oldHead objTable esize r.n
    if rb.prod.tail ≠ r.oldHead then
      .error .spin
    else
      .ok
        { rb := { rb with prod := { rb.prod with tail := r.newHead } }
          n := r.n
          freeSpace := r.entries - r.n
          touched := touched }

/-- Source: `kt_ringbuf.c` `kt_ringbuf_enqueue_burst`. -/
def ktRingbufEnqueueBurst (rb : KtRingbuf) (objTable : ℕ → UInt64) (esize n : UInt32) :
    Except Halt Enqueued :=
  ktRingbufDoEnqueueElems rb objTable esize n .variable

/-- The outcome of a dequeue call: the ring, the caller's table, the number of elements handed out,
`*available`, and the slots it touched. -/
structure Dequeued where
  rb : KtRingbuf
  table : ℕ → UInt64
  n : UInt32
  available : UInt32
  touched : List ℕ

/-- Source: `kt_ringbuf.c` `__kt_ringbuf_do_dequeue_elems`. -/
def ktRingbufDoDequeueElems (rb : KtRingbuf) (objTable : ℕ → UInt64) (esize n : UInt32)
    (behavior : KtRingbufBehavior) : Except Halt Dequeued :=
  let (r, rb) := ktRingbufMoveConsHead rb n behavior
  if r.n = 0 then
    .ok { rb := rb, table := objTable, n := 0, available := r.entries - 0, touched := [] }
  else do
    let (table, touched) ← ktRingbufDequeueElems rb r.oldHead objTable esize r.n
    if rb.cons.tail ≠ r.oldHead then
      .error .spin
    else
      .ok
        { rb := { rb with cons := { rb.cons with tail := r.newHead } }
          table := table
          n := r.n
          available := r.entries - r.n
          touched := touched }

/-- Source: `kt_ringbuf.c` `kt_ringbuf_dequeue_burst`. -/
def ktRingbufDequeueBurst (rb : KtRingbuf) (objTable : ℕ → UInt64) (esize n : UInt32) :
    Except Halt Dequeued :=
  ktRingbufDoDequeueElems rb objTable esize n .variable

end KuberneTSN.Ring
