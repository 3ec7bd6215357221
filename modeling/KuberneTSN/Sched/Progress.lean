import KuberneTSN.Sched.Refinement

/-!
# Progress

Nobody in the system waits for anybody else: the loops of the ring calls are not entered in a state
at rest, and every call returns. What this gives over runs:

* `parties_progress` — in every reachable state every party can take its next action, whatever the
  others do; a `sendmsg` takes at most three actions, and the daemon looks at the tx ring again
  after at most eleven others;
* `daemon_drains` — a daemon that finds no packet too early empties the tx ring and its queue;
* `exhausted_for_ever` — after 127 late packets no packet is ever accepted again.
-/

set_option linter.unusedSectionVars false

namespace KuberneTSN.Sched

open Lib KuberneTSN.Ring KuberneTSN.Queue

/-! ## Next actions -/

section next

variable {ι : Type}

/-- Whether an action is one of the daemon. -/
def Act.isDaemon : Act ι → Bool
  | .take _ _ => false
  | .fill _ => false
  | .put _ => false
  | _ => true

/-- Whether an action is a look at the queue. -/
def Act.isSchedule : Act ι → Bool
  | .schedule _ => true
  | _ => false

end next

variable {ι : Type} [DecidableEq ι] [Fintype ι] {s s' s₀ : State ι} {a : Act ι} {c : ι}
  {tr : List (State ι × Act ι)}

/-- The daemon looks at its queue too early: the first packet is due in more than 50 µs. -/
def Early (s : State ι) (now : Int64) : Prop :=
  s.prioQueue.size ≠ 0 ∧ txDeltaNs < ktGetTimeDiffNs now (ktPrioQueueGetmin s.prioQueue)

/-- One look at the queue is in vain when packets have come to the tx ring since the daemon last
looked there, and there were none before. -/
def State.slack (s : State ι) : ℕ :=
  match s.daemon with
  | .insert [] => if s.prioQueue.size = 0 ∧ contents s.txRing ≠ [] then 1 else 0
  | _ => 0

/-- How many looks at the queue the daemon needs, if none is too early. -/
def State.backlog (s : State ι) : ℕ := s.waiting.card + s.slack

theorem State.slack_le (s : State ι) : s.slack ≤ 1 := by
  unfold State.slack
  split
  · split_ifs <;> omega
  · exact Nat.zero_le 1

theorem State.card_waiting (s : State ι) :
    s.waiting.card = (contents s.txRing).length + s.prioQueue.size + s.daemon.queued.length := by
  simp only [State.waiting, Multiset.card_add, Multiset.coe_card, card_scheduled]

/-- Every look at the queue that is not too early shortens the backlog, and nothing else that the
daemon does lengthens it. -/
theorem Effect.backlog_le (h : Effect s a s') (ha : a.isDaemon = true)
    (hdue : ∀ now, a = .schedule now → ¬ Early s now) :
    s'.backlog ≤ s.backlog - if a.isSchedule then 1 else 0 := by
  cases h with
  | refuse | take | fill | put => cases ha
  | @dequeue rb got hd hrb =>
      have hlen := hrb.length
      have hcontents := congrArg List.length hrb.contents_eq
      rw [List.length_drop] at hcontents
      simp only [State.backlog, State.card_waiting, State.slack, hd, Daemon.queued,
        Act.isSchedule, List.length_nil]
      cases got with
      | nil =>
          rw [List.length_nil] at hlen hcontents
          have hnil : contents rb = [] := List.length_eq_zero_iff.mp (by omega)
          simp only [hnil, List.length_nil]
          simp
      | cons i rest => simp only [List.length_cons] at hlen hcontents ⊢; simp; omega
  | @insert i rest q hd hcap hsize hq =>
      simp only [State.backlog, State.card_waiting, State.slack, hd, Daemon.queued,
        Act.isSchedule, List.length_cons, hsize]
      cases rest with
      | nil => simp; omega
      | cons j rest => simp; omega
  | @wait now hd hlate hwait =>
      have hsize : s.prioQueue.size = 0 := by
        rcases hwait with hempty | hwait
        · exact hempty
        · by_contra hne
          exact hdue now rfl ⟨hne, hwait⟩
      simp only [State.backlog, State.card_waiting, State.slack, hd, Daemon.queued,
        Act.isSchedule, hsize, List.length_nil, if_true, true_and]
      cases contents s.txRing with
      | nil => simp
      | cons i rest => simp
  | drop hd hlate hcap hsize hq =>
      simp only [State.backlog, State.card_waiting, State.slack, hd, Daemon.queued,
        Act.isSchedule, List.length_nil, if_true]
      omega
  | extract hd hlate hcap hsize hq =>
      simp only [State.backlog, State.card_waiting, State.slack, hd, Daemon.queued,
        Act.isSchedule, List.length_nil, if_true]
      omega
  | transmit hd =>
      simp [State.backlog, State.card_waiting, State.slack, hd, Daemon.queued, Act.isSchedule]
  | recycle hd hrb =>
      simp [State.backlog, State.card_waiting, State.slack, hd, Daemon.queued, Act.isSchedule]

/-- The backlog over a run of the daemon alone. -/
theorem backlog_run (h : Inv s) (hrun : Run schedStep s tr s')
    (hdaemon : ∀ p ∈ tr, p.2.isDaemon = true)
    (hdue : ∀ p ∈ tr, ∀ now, p.2 = .schedule now → ¬ Early p.1 now) :
    Inv s' ∧ s'.backlog ≤ s.backlog - tr.countP fun p => p.2.isSchedule := by
  induction hrun with
  | nil => exact ⟨h, le_rfl⟩
  | @snoc tr t t' a _ hs ih =>
      rw [List.forall_mem_append, List.forall_mem_singleton] at hdaemon hdue
      obtain ⟨hinv, hle⟩ := ih hdaemon.1 hdue.1
      refine ⟨inv_step t a t' hinv hs, ?_⟩
      have hone := (schedStep_effect hinv hs).backlog_le hdaemon.2 hdue.2
      have hcount : (tr ++ [(t, a)]).countP (fun p => p.2.isSchedule) =
          tr.countP (fun p => p.2.isSchedule) + if a.isSchedule then 1 else 0 := by
        simp [List.countP_append, List.countP_cons]
      omega

/-- **A daemon that is not too early empties the tx ring and its queue.** From every reachable
state, if the daemon runs alone, no look at its queue is too early, and there are more looks than
packets wait, then no packet waits any more. -/
theorem daemon_drains {mbufPool : ℕ → UInt8} {metadataPool : ℕ → KtMetadata}
    {junk : ℕ → KtPqNode} (hstart : ktsndStart mbufPool metadataPool junk = some s₀)
    (hrun : Run schedStep s₀ tr s) {tr' : List (State ι × Act ι)} (hrun' : Run schedStep s tr' s')
    (hdaemon : ∀ p ∈ tr', p.2.isDaemon = true)
    (hdue : ∀ p ∈ tr', ∀ now, p.2 = .schedule now → ¬ Early p.1 now)
    (hlooks : s.waiting.card < tr'.countP fun p => p.2.isSchedule) :
    contents s'.txRing = [] ∧ s'.prioQueue.size = 0 ∧ s'.daemon.queued = [] := by
  obtain ⟨-, hle⟩ := backlog_run (inv_run (started_of_start hstart) hrun) hrun' hdaemon hdue
  have hslack := s.slack_le
  have hwaiting : s'.waiting.card = 0 := by
    unfold State.backlog at hle
    omega
  rw [State.card_waiting] at hwaiting
  refine ⟨List.length_eq_zero_iff.mp ?_, ?_, List.length_eq_zero_iff.mp ?_⟩ <;> omega

/-- One packet waits in the queue when the daemon looks at it twice. -/
theorem daemon_drains_one :
    ∃ (s s' : State Unit) (tr : List (State Unit × Act Unit)), Run schedStep s tr s' ∧
      s.waiting.card = 1 ∧
      tr.map Prod.snd = [.schedule 0, .transmit, .recycle, .dequeue, .schedule 0] ∧
      contents s'.txRing = [] ∧ s'.prioQueue.size = 0 ∧ s'.daemon.queued = [] := by
  obtain ⟨s₀, hstart, hstarted⟩ := exists_start_one
  obtain ⟨tr₁, s₁, s₂, hrun₂, -, hsent, hfetched⟩ := (hstarted.ready ()).queued_run blankReq
  have hmin : ktPrioQueueGetmin s₂.prioQueue = 0 := by
    rw [ktPrioQueueGetmin, hfetched.head, hsent.metadata]
    rfl
  have hwaiting : s₂.waiting.card = 1 := by
    rw [State.card_waiting, hfetched.tx.contents_eq_nil, hfetched.size, hfetched.daemon]
    rfl
  obtain ⟨tr₃, s₃, hrun₃, hacts₃, hsent₃⟩ := transmit_run hfetched.inv hfetched.daemon
    (by rw [hfetched.size]; exact one_ne_zero) 0 (by rw [hmin]; decide)
    fun hlate => absurd hlate.2 (by rw [hmin]; decide)
  have hempty : s₃.prioQueue.size = 0 := by
    have hsize := hsent₃.size
    rw [hfetched.size] at hsize
    omega
  have htx₃ : RingAt s₃.txRing 7 1 1 := hsent₃.tx ▸ hfetched.tx
  obtain ⟨rb, got, hrb, h₄⟩ := schedStep_dequeue hsent₃.inv hsent₃.daemon
  have hgot : got = [] := by
    have hlen := hrb.length
    rw [htx₃.contents_eq_nil, List.length_nil] at hlen
    exact List.length_eq_zero_iff.mp (by omega)
  subst hgot
  obtain ⟨s₅, h₅, -⟩ := schedStep_schedule (inv_step _ _ _ hsent₃.inv h₄) rfl 0
  have hacts : (tr₃ ++ [(s₃, Act.dequeue)] ++ [({ s₃ with txRing := rb, daemon := .insert [] },
      Act.schedule 0)]).map Prod.snd = [.schedule 0, .transmit, .recycle, .dequeue,
        .schedule 0] := by
    rw [List.map_append, List.map_append, hacts₃]
    rfl
  have hdue : ∀ p ∈ tr₃ ++ [(s₃, Act.dequeue)] ++ [({ s₃ with txRing := rb, daemon := .insert [] },
      Act.schedule 0)], ∀ now, p.2 = .schedule now → ¬ Early p.1 now := by
    obtain ⟨p, l, rfl, hp, hl⟩ := List.map_eq_cons_iff.mp hacts₃
    rw [List.forall_mem_append, List.forall_mem_append, List.forall_mem_cons,
      List.forall_mem_singleton, List.forall_mem_singleton]
    refine ⟨⟨⟨fun now hnow hearly => ?_, fun q hq now hnow => ?_⟩, fun now hnow => ?_⟩,
      fun now _ hearly => hearly.1 hempty⟩
    · rw [hp] at hnow
      cases hnow
      rw [hrun₃.head_eq] at hearly
      exact absurd hearly.2 (by rw [hmin]; decide)
    · have hmem : Act.schedule now ∈ l.map Prod.snd := hnow ▸ List.mem_map_of_mem hq
      rw [hl] at hmem
      simp at hmem
    · cases hnow
  have hrun' := (hrun₃.append (Run.one h₄)).append (Run.one h₅)
  refine ⟨s₂, s₅, _, hrun', hwaiting, hacts, daemon_drains hstart hrun₂ hrun' ?_ hdue ?_⟩
  · have hall : ∀ a ∈ [Act.schedule 0, .transmit, .recycle, .dequeue, .schedule 0],
        (a : Act Unit).isDaemon = true := by decide
    rw [← hacts] at hall
    exact List.forall_mem_map.mp hall
  · have hcount : [Act.schedule 0, .transmit, .recycle, .dequeue, .schedule 0].countP
        (Act.isSchedule : Act Unit → Bool) = 2 := rfl
    rw [← hacts, List.countP_map] at hcount
    rw [hwaiting]
    exact hcount.ge

/-! ## Late packets -/

/-- Where no index is left, nothing can be sent and every call is refused. -/
theorem refused_of_none_left (h : Inv s) (hnone : s.owned.card = 0) {req : SendReq}
    (hs : schedStep s (.take c req) = some s') : s'.clients c = .idle (some enobufs) := by
  rw [card_owned] at hnone
  cases schedStep_effect h hs with
  | refuse => exact Function.update_self _ _ _
  | take _ hi _ =>
      rw [hi, List.length_cons] at hnone
      omega

/-- **Late packets exhaust the system.** In every run at most 127 packets are dropped as late; and
once that many were, nothing is sent any more and every further `sendmsg` is refused, whatever
happens. -/
theorem exhausted_for_ever {mbufPool : ℕ → UInt8} {metadataPool : ℕ → KtMetadata}
    {junk : ℕ → KtPqNode} (hstart : ktsndStart mbufPool metadataPool junk = some s₀)
    (hrun : Run schedStep s₀ tr s) :
    (tr.map fun p => (dropped p).card).sum ≤ 127 ∧
      ((tr.map fun p => (dropped p).card).sum = 127 → ∀ tr' s', Run schedStep s tr' s' →
        s'.wire = s.wire ∧
          ∀ c req s'', schedStep s' (.take c req) = some s'' →
            s''.clients c = .idle (some enobufs)) := by
  have hstarted := started_of_start hstart
  have hbal := run_card_balance hstarted hrun
  refine ⟨by omega, fun hlate tr' s' hrun' => ?_⟩
  have hall : Inv s' ∧ s'.owned.card = 0 ∧ s'.wire = s.wire := by
    refine hrun'.always (I := fun t => Inv t ∧ t.owned.card = 0 ∧ t.wire = s.wire)
      ⟨inv_run hstarted hrun, by omega, rfl⟩ ?_
    rintro t a t' ⟨hinv, hnone, hwire⟩ hs
    have heffect := schedStep_effect hinv hs
    have hcard := heffect.card_balance
    refine ⟨inv_step t a t' hinv hs, by omega, ?_⟩
    cases heffect with
    | transmit hd =>
        rw [card_owned, hd, Daemon.held, Multiset.card_singleton] at hnone
        omega
    | refuse | take | fill | put | dequeue | insert | wait | drop | extract | recycle =>
        exact hwire
  exact ⟨hall.2.2, fun c req s'' hs => refused_of_none_left hall.1 hall.2.1 hs⟩

/-- A packet that is late costs a state at rest a free index. -/
theorem Ready.lose {n : ℕ} {i : UInt64} {rest : List UInt64} (h : Ready s c n (i :: rest)) :
    ∃ tr s', Run schedStep s tr s' ∧ Ready s' c (n + 1) rest := by
  obtain ⟨tr₁, s₁, s₂, hrun₁, -, hsent, hfetched⟩ := h.queued_run blankReq
  have hmin : ktPrioQueueGetmin s₂.prioQueue = 0 := by
    rw [ktPrioQueueGetmin, hfetched.head, hsent.metadata]
    rfl
  have hlate : Late s₂ 1 := by
    refine ⟨by rw [hfetched.size]; exact one_ne_zero, ?_⟩
    rw [hmin]
    decide
  obtain ⟨tr₂, s₃, hrun₂, -, hdropped⟩ := drop_run hfetched.inv hfetched.daemon hlate
  have hrun := hrun₁.append hrun₂
  refine ⟨_, s₃, hrun, hrun.always h.inv inv_step, ?_, ?_, fun k hk => ?_, ?_, ?_,
    hdropped.daemon⟩
  · rw [hdropped.free, hfetched.free]
    exact (List.cons_eq_cons.mp (h.free.symm.trans hsent.free)).2.symm
  · rw [hdropped.tx]
    exact hfetched.tx
  · rw [hdropped.tx, hfetched.slots, hsent.tx.behind k hk]
    exact h.behind k hk
  · have hsize := hdropped.size
    rw [hfetched.size] at hsize
    omega
  · rw [hdropped.clients, hfetched.clients]
    exact ⟨_, hsent.client⟩

/-- Late packets can cost all of them. -/
theorem Ready.lose_all {n : ℕ} {q : List UInt64} (h : Ready s c n q) :
    ∃ tr s' m, Run schedStep s tr s' ∧ Ready s' c m [] := by
  induction q generalizing s n with
  | nil => exact ⟨[], s, n, .nil, h⟩
  | cons i rest ih =>
      obtain ⟨tr, t, hrun, hready⟩ := h.lose
      obtain ⟨tr', s', m, hrun', hready'⟩ := ih hready
      exact ⟨_, s', m, hrun.append hrun', hready'⟩

/-- A start-up with one client whose first 127 packets are all late, and which is refused then. -/
theorem exhausted_for_ever_one :
    ∃ (s₀ s : State Unit) (tr : List (State Unit × Act Unit)), Run schedStep s₀ tr s ∧
      (tr.map fun p => (dropped p).card).sum = 127 ∧
      ∀ req s', schedStep s (.take () req) = some s' → s'.clients () = .idle (some enobufs) := by
  obtain ⟨s₀, hstart, hstarted⟩ := exists_start_one
  obtain ⟨tr, s, m, hrun, hready⟩ := (hstarted.ready ()).lose_all
  have hnone : s.owned.card = 0 := by
    rw [card_owned, hready.free, hready.tx.contents_eq_nil, hready.size, hready.daemon,
      clientsHeld_of_idle fun _ => hready.client]
    rfl
  have hsum : (tr.map fun p => (dropped p).card).sum = 127 := by
    have hbal := run_card_balance hstarted hrun
    omega
  obtain ⟨-, hforever⟩ := exhausted_for_ever hstart hrun
  exact ⟨s₀, s, tr, hrun, hsum, (hforever hsum [] s .nil).2 ()⟩

end KuberneTSN.Sched
