import KuberneTSN.Lib.CInt
import KuberneTSN.Lib.Heap

/-!
# The priority queue of `kt_queue.c`

The model keeps the array as a function on positions: `elems k` is the node at `q->elems[k]`, for
every `k`, also beyond `size`. Positions travel through `int` as in the source
(`_kt_prio_queue_parent(int i)` and its siblings), so they are converted with `wrapInt` and `sizeT`.

Every access of the two sift loops goes through `KtPrioQueue.at?`, which answers `none` for a
position at or beyond `size`; a result `some _` therefore says that no such position was touched.
The loops carry a fuel argument, and running out of it is `none` as well.
-/

namespace KuberneTSN.Queue

open Lib

/-- Source: `kt_queue.h` `struct kt_pq_node`. The `void *data` is its 64-bit value. -/
structure KtPqNode where
  prio : Int64
  data : UInt64
  deriving DecidableEq, Repr

/-- Source: `kt_queue.h` `struct kt_prio_queue`. -/
structure KtPrioQueue where
  /-- The allocated array; only positions below `size` hold elements. -/
  elems : ℕ → KtPqNode
  /-- The capacity, a `size_t`. -/
  cap : ℕ
  /-- The number of elements, a `size_t`. -/
  size : ℕ

/-- Source: `kt_queue.c` `kt_prio_queue_init`. The array comes from `malloc`, so its contents
`junk` are arbitrary. -/
def ktPrioQueueInit (junk : ℕ → KtPqNode) (cap : ℕ) : KtPrioQueue where
  elems := junk
  cap := cap
  size := 0

/-- Source: `kt_queue.c` `kt_prio_queue_is_empty`. -/
def ktPrioQueueIsEmpty (q : KtPrioQueue) : Bool := q.size == 0

/-- The node at a position below `size`. -/
def KtPrioQueue.at? (q : KtPrioQueue) (i : ℕ) : Option KtPqNode :=
  if i < q.size then some (q.elems i) else none

/-- Source: `kt_queue.c` `_kt_prio_queue_swap`, applied to `&q->elems[x]` and `&q->elems[y]`. -/
def ktPrioQueueSwap (q : KtPrioQueue) (x y : ℕ) : KtPrioQueue :=
  let tmp := q.elems x
  { q with elems := Function.update (Function.update q.elems x (q.elems y)) y tmp }

/-- Source: `kt_queue.c` `_kt_prio_queue_parent`. The division of C truncates, so `parent 0 = 0`. -/
def ktPrioQueueParent (i : ℤ) : ℕ := sizeT ((wrapInt (i - 1)).tdiv 2)

/-- Source: `kt_queue.c` `_kt_prio_queue_left`. -/
def ktPrioQueueLeft (i : ℤ) : ℕ := sizeT (wrapInt (2 * i + 1))

/-- Source: `kt_queue.c` `_kt_prio_queue_right`. -/
def ktPrioQueueRight (i : ℤ) : ℕ := sizeT (wrapInt (2 * i + 2))

/-- Source: `kt_queue.c` `kt_prio_queue_getmin`. -/
def ktPrioQueueGetmin (q : KtPrioQueue) : Int64 := (q.elems 0).prio

/-- Source: `kt_queue.c` `_kt_prio_queue_reorder`, the sift-up loop. -/
def ktPrioQueueReorder : ℕ → KtPrioQueue → ℤ → Option KtPrioQueue
  | 0, _, _ => none
  | fuel + 1, q, i =>
      if 0 < i then do
        let node ← q.at? (sizeT i)
        let parent ← q.at? (ktPrioQueueParent i)
        if node.prio < parent.prio then
          ktPrioQueueReorder fuel (ktPrioQueueSwap q (sizeT i) (ktPrioQueueParent i))
            (wrapInt (ktPrioQueueParent i))
        else some q
      else some q

/-- Source: `kt_queue.c` `kt_prio_queue_decrease_key`. -/
def ktPrioQueueDecreaseKey (q : KtPrioQueue) (i : ℕ) (newVal : Int64) : Option KtPrioQueue := do
  let node ← q.at? i
  if newVal > node.prio then
    some q
  else
    ktPrioQueueReorder (q.size + 1)
      { q with elems := Function.update q.elems i { node with prio := newVal } } (wrapInt i)

/-- Source: `kt_queue.c` `kt_prio_queue_insert`; the returned code and the queue. -/
def ktPrioQueueInsert (q : KtPrioQueue) (prio : Int64) (data : UInt64) :
    Option (ℤ × KtPrioQueue) :=
  if q.size = q.cap then
    some (-1, q)
  else do
    let grown : KtPrioQueue :=
      { q with
        elems := Function.update q.elems q.size { prio := Int64.maxValue, data := data }
        size := q.size + 1 }
    let q' ← ktPrioQueueDecreaseKey grown (grown.size - 1) prio
    some (0, q')

/-- One of the two `if`/`else` statements of `_kt_prio_queue_heapify`: `child` when it is an
element smaller than the one at `minIdx`, and otherwise `i` — *not* `minIdx`.
Source: `kt_queue.c` `_kt_prio_queue_heapify`, lines 97–104 (`minIdx = i`) and 106–113. -/
def ktPrioQueueHeapifyPick (q : KtPrioQueue) (i minIdx child : ℕ) : Option ℕ :=
  if child < q.size then do
    let c ← q.at? child
    let m ← q.at? minIdx
    some (if c.prio < m.prio then child else i)
  else some i

/-- The position `min_idx` that `_kt_prio_queue_heapify` computes at `i`.
Source: `kt_queue.c` `_kt_prio_queue_heapify`, lines 92–113. -/
def ktPrioQueueHeapifyMinIdx (q : KtPrioQueue) (i : ℕ) : Option ℕ := do
  let left := ktPrioQueueLeft (wrapInt i)
  let right := ktPrioQueueRight (wrapInt i)
  let minIdx ← ktPrioQueueHeapifyPick q i i left
  ktPrioQueueHeapifyPick q i minIdx right

/-- Source: `kt_queue.c` `_kt_prio_queue_heapify`, the recursive sift-down. -/
def ktPrioQueueHeapify : ℕ → KtPrioQueue → ℕ → Option KtPrioQueue
  | 0, _, _ => none
  | fuel + 1, q, i => do
      let minIdx ← ktPrioQueueHeapifyMinIdx q i
      if minIdx ≠ i then
        ktPrioQueueHeapify fuel (ktPrioQueueSwap q i minIdx) minIdx
      else some q

/-- Source: `kt_queue.c` `kt_prio_queue_extract_min`. The argument `data` is the cell the caller
points at, `none` for `NULL`; the result is the returned code, that cell and the queue. -/
def ktPrioQueueExtractMin (q : KtPrioQueue) (data : Option UInt64) :
    Option (ℤ × Option UInt64 × KtPrioQueue) :=
  if q.size = 0 then
    some (-1, data, q)
  else do
    let min ← q.at? 0
    let last ← q.at? (q.size - 1)
    let shrunk : KtPrioQueue :=
      { q with elems := Function.update q.elems 0 last, size := q.size - 1 }
    let q' ← ktPrioQueueHeapify (shrunk.size + 1) shrunk 0
    some (0, data.map fun _ => min.data, q')

/-- Source: `kt_queue.c` `kt_prio_queue_delete_key`. -/
def ktPrioQueueDeleteKey (q : KtPrioQueue) (i : ℕ) : Option KtPrioQueue := do
  let q ← ktPrioQueueDecreaseKey q i Int32.minValue.toInt64
  let (_, _, q) ← ktPrioQueueExtractMin q (some 0)
  some q

end KuberneTSN.Queue
