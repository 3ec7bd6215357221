import KuberneTSN.Lib.Run

/-!
# A bounded first-in-first-out queue

The abstract queue that a ring buffer implements. `offer` appends as much of a list as there is room
for and `poll` removes from the front; the queue also remembers everything it ever `accepted` and
everything it ever `delivered`.

`Fifo.Valid` — what was delivered, followed by what is queued, is what was accepted — holds of the
empty queue and is kept by both operations, so that what is delivered is always a prefix of what was
accepted (`Fifo.Valid.isPrefix_accepted`).

`queueStep` is the same queue as a machine, whose events append or remove a list of elements at
once; `queue_order` says that what a run removed, followed by what is left, is what it appended.
-/

namespace KuberneTSN.Lib

variable {α : Type*}

/-- A queue with its history. -/
structure Fifo (α : Type*) where
  queue : List α
  accepted : List α
  delivered : List α

variable {cap : ℕ} {f : Fifo α}

/-- Append the part of `xs` for which there is room. -/
def Fifo.offer (cap : ℕ) (f : Fifo α) (xs : List α) : Fifo α where
  queue := f.queue ++ xs.take (cap - f.queue.length)
  accepted := f.accepted ++ xs.take (cap - f.queue.length)
  delivered := f.delivered

/-- Remove up to `n` elements from the front. -/
def Fifo.poll (f : Fifo α) (n : ℕ) : Fifo α where
  queue := f.queue.drop n
  accepted := f.accepted
  delivered := f.delivered ++ f.queue.take n

/-- The history accounts for every element, and the bound is kept. -/
structure Fifo.Valid (cap : ℕ) (f : Fifo α) : Prop where
  accepted_eq : f.accepted = f.delivered ++ f.queue
  length_le : f.queue.length ≤ cap

/-- The empty queue. -/
theorem Fifo.Valid.empty (cap : ℕ) : Fifo.Valid cap (⟨[], [], []⟩ : Fifo α) :=
  ⟨rfl, Nat.zero_le cap⟩

/-- Offering keeps the account. -/
theorem Fifo.Valid.offer (h : f.Valid cap) (xs : List α) : (f.offer cap xs).Valid cap := by
  refine ⟨?_, ?_⟩
  · simp only [Fifo.offer, h.accepted_eq, List.append_assoc]
  · have hle := h.length_le
    simp only [Fifo.offer, List.length_append, List.length_take]
    omega

/-- Polling keeps the account. -/
theorem Fifo.Valid.poll (h : f.Valid cap) (n : ℕ) : (f.poll n).Valid cap := by
  refine ⟨?_, ?_⟩
  · simp only [Fifo.poll, h.accepted_eq, List.append_assoc, List.take_append_drop]
  · have hle := h.length_le
    simp only [Fifo.poll, List.length_drop]
    omega

/-- **First in, first out.** -/
theorem Fifo.Valid.isPrefix_accepted (h : f.Valid cap) : f.delivered <+: f.accepted :=
  ⟨f.queue, h.accepted_eq.symm⟩

/-! ## The queue as a machine -/

/-- What happens to a queue: elements are appended, or removed from the front. -/
inductive QueueEvent (α : Type*) where
  | push (xs : List α)
  | pop (xs : List α)

/-- The elements that an event appends. -/
def QueueEvent.pushed : QueueEvent α → List α
  | .push xs => xs
  | .pop _ => []

/-- The elements that an event removes. -/
def QueueEvent.popped : QueueEvent α → List α
  | .push _ => []
  | .pop xs => xs

variable [DecidableEq α]

/-- One event of a queue for `cap` elements. -/
def queueStep (cap : ℕ) (q : List α) : QueueEvent α → Option (List α)
  | .push xs => if q.length + xs.length ≤ cap then some (q ++ xs) else none
  | .pop xs => if xs <+: q then some (q.drop xs.length) else none

/-- **What is removed, followed by what is left, is what was appended.** -/
theorem queue_order {tr : List (List α × QueueEvent α)} {q : List α}
    (h : Run (queueStep cap) [] tr q) :
    (tr.map Prod.snd).flatMap QueueEvent.pushed =
      (tr.map Prod.snd).flatMap QueueEvent.popped ++ q := by
  induction h with
  | nil => rfl
  | @snoc tr q q' e _ hs ih =>
      rw [List.map_append, List.flatMap_append, List.flatMap_append, ih]
      cases e with
      | push xs =>
          obtain ⟨-, hq⟩ := Option.ite_none_right_eq_some.mp hs
          rw [Option.some.injEq] at hq
          simp [QueueEvent.pushed, QueueEvent.popped, ← hq]
      | pop xs =>
          obtain ⟨⟨rest, rfl⟩, hq⟩ := Option.ite_none_right_eq_some.mp hs
          rw [List.drop_left, Option.some.injEq] at hq
          simp [QueueEvent.pushed, QueueEvent.popped, hq]

end KuberneTSN.Lib
