import KuberneTSN.Queue.Ops
import KuberneTSN.Ring.Contents
import KuberneTSN.Sched.Basic

/-!
# What the parties can do

`State.owned` collects the buffer indices wherever they are: in the two rings, in the queue, with
the clients and with the daemon. `Inv` says that the rings are at rest and that there are at most
127 indices, so that nothing is ever full.

* `Effect` — everything that one action can do, in terms of the elements of the rings and the
  queue;
* `schedStep_effect` — every action of a state with `Inv` has one of these effects;
* `schedStep_take`, …, `schedStep_recycle` — every call returns: a party that is at one of its
  actions can take it, and this is what it then does.
-/

set_option linter.unusedSectionVars false

namespace KuberneTSN.Sched

open Lib KuberneTSN.Ring KuberneTSN.Queue

/-! ## The decision of the daemon -/

/-- What the daemon does with a queue that is not empty, by the time that is left to its head. -/
inductive Decided {ι : Type} (s : State ι) (now : Int64) : State ι → Prop
  | wait (hdiff : txDeltaNs < ktGetTimeDiffNs now (ktPrioQueueGetmin s.prioQueue)) :
      Decided s now { s with daemon := .top }
  | drop {q : KtPrioQueue} (hdiff : ktGetTimeDiffNs now (ktPrioQueueGetmin s.prioQueue) < 0)
      (hcap : q.cap = s.prioQueue.cap) (hsize : q.size + 1 = s.prioQueue.size)
      (hpairs : s.prioQueue.pairs = s.prioQueue.elems 0 ::ₘ q.pairs) :
      Decided s now { s with prioQueue := q, daemon := .top }
  | send {q : KtPrioQueue}
      (hdue : ¬ txDeltaNs < ktGetTimeDiffNs now (ktPrioQueueGetmin s.prioQueue))
      (hdiff : ¬ ktGetTimeDiffNs now (ktPrioQueueGetmin s.prioQueue) < 0)
      (hcap : q.cap = s.prioQueue.cap) (hsize : q.size + 1 = s.prioQueue.size)
      (hpairs : s.prioQueue.pairs = s.prioQueue.elems 0 ::ₘ q.pairs) :
      Decided s now { s with prioQueue := q, daemon := .transmit (s.prioQueue.elems 0).data }

/-- The three branches of the daemon. -/
theorem daemonSchedule_spec {ι : Type} {s : State ι} (hd : s.daemon = .insert [])
    (hpos : 0 < s.prioQueue.size) (hle : s.prioQueue.size ≤ 2 ^ 63) (now : Int64) :
    ∃ s', daemonSchedule s now = some s' ∧ Decided s now s' := by
  have hisEmpty : ¬ ktPrioQueueIsEmpty s.prioQueue = true := mt beq_iff_eq.mp hpos.ne'
  simp only [daemonSchedule, hd]
  rw [if_neg hisEmpty]
  by_cases hwait : ktGetTimeDiffNs now (ktPrioQueueGetmin s.prioQueue) > txDeltaNs
  · rw [if_pos hwait]
    exact ⟨_, rfl, .wait hwait⟩
  rw [if_neg hwait]
  by_cases hneg : ktGetTimeDiffNs now (ktPrioQueueGetmin s.prioQueue) < 0
  · obtain ⟨q, hq, hsize, hcap, hpairs⟩ :=
      ktPrioQueueExtractMin_removes hpos hle (none : Option UInt64)
    rw [if_pos hneg, hq]
    exact ⟨_, rfl, .drop hneg hcap hsize hpairs⟩
  · obtain ⟨q, hq, hsize, hcap, hpairs⟩ :=
      ktPrioQueueExtractMin_removes hpos hle (some (0 : UInt64))
    rw [if_neg hneg, hq]
    exact ⟨_, rfl, .send hwait hneg hcap hsize hpairs⟩

/-! ## Where the indices are -/

/-- The indices that a client holds. -/
def Client.held : Client → Multiset UInt64
  | .idle _ => 0
  | .taken i _ => {i}
  | .filled i _ => {i}

/-- The indices that the daemon holds. -/
def Daemon.held : Daemon → Multiset UInt64
  | .top => 0
  | .insert pending => pending
  | .transmit i => {i}
  | .recycle i => {i}

/-- The indices in a priority queue. -/
def scheduled (q : KtPrioQueue) : Multiset UInt64 := q.pairs.map KtPqNode.data

variable {ι : Type} [Fintype ι]

/-- The indices that the clients hold. -/
def clientsHeld (clients : ι → Client) : Multiset UInt64 := ∑ c, (clients c).held

/-- All indices in the system, each as often as it occurs. -/
def State.owned (s : State ι) : Multiset UInt64 :=
  contents s.freeRing + contents s.txRing + scheduled s.prioQueue + clientsHeld s.clients +
    s.daemon.held

theorem card_scheduled (q : KtPrioQueue) : (scheduled q).card = q.size := by
  rw [scheduled, Multiset.card_map, KtPrioQueue.pairs, card_entries]

/-- The rings are at rest, and there are at most as many indices as each of them has room for. -/
structure Inv (s : State ι) : Prop where
  free : ∃ P C, RingAt s.freeRing 7 P C
  tx : ∃ P C, RingAt s.txRing 7 P C
  cap : s.prioQueue.cap = 127
  total : s.owned.card ≤ 127

/-- The number of indices, place by place. -/
theorem card_owned (s : State ι) :
    s.owned.card = (contents s.freeRing).length + (contents s.txRing).length + s.prioQueue.size +
      (clientsHeld s.clients).card + s.daemon.held.card := by
  simp only [State.owned, Multiset.card_add, Multiset.coe_card, card_scheduled]

/-- Clients outside of `sendmsg` hold nothing. -/
theorem clientsHeld_of_idle {clients : ι → Client} (h : ∀ c, ∃ ret, clients c = .idle ret) :
    clientsHeld clients = 0 := by
  refine Finset.sum_eq_zero fun c _ => ?_
  obtain ⟨ret, hc⟩ := h c
  rw [hc, Client.held]

variable [DecidableEq ι]

/-- A client that moves on exchanges what it holds. -/
theorem clientsHeld_update (clients : ι → Client) (c : ι) (x : Client) :
    clientsHeld (Function.update clients c x) + (clients c).held =
      clientsHeld clients + x.held := by
  have hrest : ∑ c' ∈ Finset.univ.erase c, (Function.update clients c x c').held =
      ∑ c' ∈ Finset.univ.erase c, (clients c').held := by
    refine Finset.sum_congr rfl fun c' hc' => ?_
    rw [Function.update_of_ne (Finset.ne_of_mem_erase hc')]
  unfold clientsHeld
  rw [← Finset.add_sum_erase _ _ (Finset.mem_univ c), ← Finset.add_sum_erase _ _ (Finset.mem_univ c),
    hrest, Function.update_self]
  abel

/-- What a client holds is among what the clients hold. -/
theorem held_le_clientsHeld (clients : ι → Client) (c : ι) :
    (clients c).held ≤ clientsHeld clients := by
  rw [clientsHeld, ← Finset.add_sum_erase _ _ (Finset.mem_univ c)]
  exact Multiset.le_add_right _ _

/-! ## Effects -/

/-- The daemon finds the head of its queue late: its transmit time is before the clock. -/
def Late (s : State ι) (now : Int64) : Prop :=
  s.prioQueue.size ≠ 0 ∧ ktGetTimeDiffNs now (ktPrioQueueGetmin s.prioQueue) < 0

instance (s : State ι) (now : Int64) : Decidable (Late s now) := inferInstanceAs (Decidable (_ ∧ _))

/-- What an action can do. -/
inductive Effect (s : State ι) : Act ι → State ι → Prop
  /-- No index is free. -/
  | refuse {c : ι} {req : SendReq} {ret : Option ℤ} {rb : KtRingbuf}
      (hc : s.clients c = .idle ret) (hempty : contents s.freeRing = [])
      (hrb : Drained 7 1 s.freeRing rb []) :
      Effect s (.take c req)
        { s with freeRing := rb, clients := Function.update s.clients c (.idle (some enobufs)) }
  | take {c : ι} {req : SendReq} {ret : Option ℤ} {rb : KtRingbuf} {i : UInt64}
      (hc : s.clients c = .idle ret) (hi : contents s.freeRing = i :: contents rb)
      (hrb : Drained 7 1 s.freeRing rb [i]) :
      Effect s (.take c req)
        { s with freeRing := rb, clients := Function.update s.clients c (.taken i req) }
  | fill {c : ι} {req : SendReq} {i : UInt64} (hc : s.clients c = .taken i req) :
      Effect s (.fill c)
        { s with
          mbufPool := memcpy s.mbufPool (mbufAt i) req.iov0
          metadataPool := Function.update s.metadataPool i.toNat
            (req.metadata (s.metadataPool i.toNat))
          clients := Function.update s.clients c (.filled i req) }
  | put {c : ι} {req : SendReq} {i : UInt64} {rb : KtRingbuf}
      (hc : s.clients c = .filled i req) (hrb : Appended 7 s.txRing rb i) :
      Effect s (.put c)
        { s with
          txRing := rb
          clients := Function.update s.clients c (.idle (some req.iov0.length)) }
  | dequeue {rb : KtRingbuf} {got : List UInt64} (hd : s.daemon = .top)
      (hrb : Drained 7 8 s.txRing rb got) :
      Effect s .dequeue { s with txRing := rb, daemon := .insert got }
  | insert {i : UInt64} {rest : List UInt64} {q : KtPrioQueue} (hd : s.daemon = .insert (i :: rest))
      (hcap : q.cap = s.prioQueue.cap) (hsize : q.size = s.prioQueue.size + 1)
      (hq : q.pairs = ⟨(s.metadataPool i.toNat).txtime.toInt64, i⟩ ::ₘ s.prioQueue.pairs) :
      Effect s .insert { s with prioQueue := q, daemon := .insert rest }
  /-- There is no packet, or none that is due. -/
  | wait {now : Int64} (hd : s.daemon = .insert []) (hlate : ¬ Late s now)
      (hwait : s.prioQueue.size = 0 ∨
        txDeltaNs < ktGetTimeDiffNs now (ktPrioQueueGetmin s.prioQueue)) :
      Effect s (.schedule now) { s with daemon := .top }
  | drop {now : Int64} {q : KtPrioQueue} (hd : s.daemon = .insert []) (hlate : Late s now)
      (hcap : q.cap = s.prioQueue.cap) (hsize : q.size + 1 = s.prioQueue.size)
      (hq : s.prioQueue.pairs = s.prioQueue.elems 0 ::ₘ q.pairs) :
      Effect s (.schedule now) { s with prioQueue := q, daemon := .top }
  | extract {now : Int64} {q : KtPrioQueue} (hd : s.daemon = .insert []) (hlate : ¬ Late s now)
      (hcap : q.cap = s.prioQueue.cap) (hsize : q.size + 1 = s.prioQueue.size)
      (hq : s.prioQueue.pairs = s.prioQueue.elems 0 ::ₘ q.pairs) :
      Effect s (.schedule now)
        { s with prioQueue := q, daemon := .transmit (s.prioQueue.elems 0).data }
  | transmit {i : UInt64} (hd : s.daemon = .transmit i) :
      Effect s .transmit { s with wire := s.wire ++ [s.packet i], daemon := .recycle i }
  | recycle {i : UInt64} {rb : KtRingbuf} (hd : s.daemon = .recycle i)
      (hrb : Appended 7 s.freeRing rb i) :
      Effect s .recycle { s with freeRing := rb, daemon := .top }

/-! ## Every call returns -/

variable {s s' : State ι}

/-- A client outside `sendmsg` can call it. -/
theorem schedStep_take (h : Inv s) {c : ι} {ret : Option ℤ} (hc : s.clients c = .idle ret)
    (req : SendReq) : ∃ s', schedStep s (.take c req) = some s' ∧ Effect s (.take c req) s' := by
  obtain ⟨P, C, hat⟩ := h.free
  obtain ⟨r, hr, hone⟩ := hat.dequeue_one fun _ => 0
  simp only [schedStep, clientTake, hc, hr]
  refine ⟨_, rfl, ?_⟩
  rcases hone with ⟨hempty, hn, hdrained⟩ | ⟨hi, hn, hdrained⟩
  · rw [if_pos hn]
    exact .refuse hc hempty hdrained
  · rw [if_neg (by rw [hn]; decide)]
    exact .take hc hi hdrained

/-- A client that holds an index can fill its buffer. -/
theorem schedStep_fill {c : ι} {i : UInt64} {req : SendReq} (hc : s.clients c = .taken i req) :
    schedStep s (.fill c) = some
      { s with
        mbufPool := memcpy s.mbufPool (mbufAt i) req.iov0
        metadataPool := Function.update s.metadataPool i.toNat
          (req.metadata (s.metadataPool i.toNat))
        clients := Function.update s.clients c (.filled i req) } := by
  simp only [schedStep, clientFill, hc]

/-- There is room on the tx ring for the index of a client. -/
theorem Inv.tx_room (h : Inv s) {c : ι} {i : UInt64} {req : SendReq}
    (hc : s.clients c = .filled i req) : (contents s.txRing).length < 127 := by
  have hheld := Multiset.card_le_card (held_le_clientsHeld s.clients c)
  rw [hc, Client.held, Multiset.card_singleton] at hheld
  have htotal := h.total
  rw [card_owned] at htotal
  omega

/-- A client that has filled its buffer can put its index on the tx ring, which accepts it. -/
theorem schedStep_put (h : Inv s) {c : ι} {i : UInt64} {req : SendReq}
    (hc : s.clients c = .filled i req) :
    ∃ rb, Appended 7 s.txRing rb i ∧ schedStep s (.put c) = some
      { s with
        txRing := rb
        clients := Function.update s.clients c (.idle (some req.iov0.length)) } := by
  obtain ⟨P, C, hat⟩ := h.tx
  obtain ⟨r, hr, hn, happ⟩ := hat.enqueue_one (h.tx_room hc) i
  refine ⟨r.rb, happ, ?_⟩
  simp only [schedStep, clientPut, hc, hr, if_neg (not_not.mpr hn)]

/-- The daemon can dequeue. -/
theorem schedStep_dequeue (h : Inv s) (hd : s.daemon = .top) :
    ∃ rb got, Drained 7 8 s.txRing rb got ∧
      schedStep s .dequeue = some { s with txRing := rb, daemon := .insert got } := by
  obtain ⟨P, C, hat⟩ := h.tx
  obtain ⟨r, hr, hdrained⟩ := hat.dequeue_burst (fun _ => 0) 8
  refine ⟨r.rb, _, hdrained, ?_⟩
  simp only [schedStep, daemonDequeue, hd, hr]

/-- There is room in the queue for the indices that the daemon has dequeued. -/
theorem Inv.queue_room (h : Inv s) {i : UInt64} {rest : List UInt64}
    (hd : s.daemon = .insert (i :: rest)) : s.prioQueue.size < 127 := by
  have htotal := h.total
  rw [card_owned, hd, Daemon.held, Multiset.coe_card, List.length_cons] at htotal
  omega

/-- The daemon can insert an index that it has dequeued. -/
theorem schedStep_insert (h : Inv s) {i : UInt64} {rest : List UInt64}
    (hd : s.daemon = .insert (i :: rest)) :
    ∃ q : KtPrioQueue, q.cap = s.prioQueue.cap ∧ q.size = s.prioQueue.size + 1 ∧
      q.pairs = ⟨(s.metadataPool i.toNat).txtime.toInt64, i⟩ ::ₘ s.prioQueue.pairs ∧
      schedStep s .insert = some { s with prioQueue := q, daemon := .insert rest } := by
  have hroom := h.queue_room hd
  have hcap := h.cap
  obtain ⟨q, hq, hsize, hqcap, hpairs, -⟩ := ktPrioQueueInsert_spec (q := s.prioQueue) (by omega)
    (by omega) (s.metadataPool i.toNat).txtime.toInt64 i
  refine ⟨q, hqcap, hsize, hpairs, ?_⟩
  simp only [schedStep, daemonInsert, hd, hq, Option.bind_eq_bind, Option.bind_some]

/-- The queue never holds more than its capacity. -/
theorem Inv.queue_le (h : Inv s) : s.prioQueue.size ≤ 127 := by
  have htotal := h.total
  rw [card_owned] at htotal
  omega

/-- The daemon can decide, whatever the clock shows. -/
theorem schedStep_schedule (h : Inv s) (hd : s.daemon = .insert []) (now : Int64) :
    ∃ s', schedStep s (.schedule now) = some s' ∧ Effect s (.schedule now) s' := by
  by_cases hempty : s.prioQueue.size = 0
  · have hisEmpty : ktPrioQueueIsEmpty s.prioQueue = true := beq_iff_eq.mpr hempty
    simp only [schedStep, daemonSchedule, hd]
    rw [if_pos hisEmpty]
    exact ⟨_, rfl, .wait hd (fun hlate => hlate.1 hempty) (Or.inl hempty)⟩
  have hle := h.queue_le
  obtain ⟨s', hs', hdecided⟩ := daemonSchedule_spec hd (Nat.pos_of_ne_zero hempty) (by omega) now
  refine ⟨s', hs', ?_⟩
  cases hdecided with
  | wait hdiff =>
      refine .wait hd (fun hlate => ?_) (Or.inr hdiff)
      exact absurd (Int64.lt_trans hdiff hlate.2) (by decide)
  | drop hdiff hcap hsize hpairs => exact .drop hd ⟨hempty, hdiff⟩ hcap hsize hpairs
  | send _ hdiff hcap hsize hpairs =>
      exact .extract hd (fun hlate => hdiff hlate.2) hcap hsize hpairs

/-- The daemon can send a packet that it has extracted. -/
theorem schedStep_transmit {i : UInt64} (hd : s.daemon = .transmit i) :
    schedStep s .transmit =
      some { s with wire := s.wire ++ [s.packet i], daemon := .recycle i } := by
  simp only [schedStep, daemonTransmit, hd]

/-- There is room on the free ring for the index that the daemon has sent. -/
theorem Inv.free_room (h : Inv s) {i : UInt64} (hd : s.daemon = .recycle i) :
    (contents s.freeRing).length < 127 := by
  have htotal := h.total
  rw [card_owned, hd, Daemon.held, Multiset.card_singleton] at htotal
  omega

/-- The daemon can put its index on the free ring, which accepts it. -/
theorem schedStep_recycle (h : Inv s) {i : UInt64} (hd : s.daemon = .recycle i) :
    ∃ rb, Appended 7 s.freeRing rb i ∧
      schedStep s .recycle = some { s with freeRing := rb, daemon := .top } := by
  obtain ⟨P, C, hat⟩ := h.free
  obtain ⟨r, hr, -, happ⟩ := hat.enqueue_one (h.free_room hd) i
  refine ⟨r.rb, happ, ?_⟩
  simp only [schedStep, daemonRecycle, hd, hr]

/-- **Every action has one of the effects.** -/
theorem schedStep_effect (h : Inv s) {a : Act ι} (hs : schedStep s a = some s') :
    Effect s a s' := by
  cases a with
  | take c req =>
      cases hc : s.clients c with
      | idle ret =>
          obtain ⟨t, ht, heffect⟩ := schedStep_take h hc req
          exact Option.some.inj (ht.symm.trans hs) ▸ heffect
      | taken i req | filled i req => simp [schedStep, clientTake, hc] at hs
  | fill c =>
      cases hc : s.clients c with
      | taken i req => exact Option.some.inj ((schedStep_fill hc).symm.trans hs) ▸ .fill hc
      | idle ret => simp [schedStep, clientFill, hc] at hs
      | filled i req => simp [schedStep, clientFill, hc] at hs
  | put c =>
      cases hc : s.clients c with
      | filled i req =>
          obtain ⟨rb, hrb, ht⟩ := schedStep_put h hc
          exact Option.some.inj (ht.symm.trans hs) ▸ .put hc hrb
      | idle ret => simp [schedStep, clientPut, hc] at hs
      | taken i req => simp [schedStep, clientPut, hc] at hs
  | dequeue =>
      cases hd : s.daemon with
      | top =>
          obtain ⟨rb, got, hrb, ht⟩ := schedStep_dequeue h hd
          exact Option.some.inj (ht.symm.trans hs) ▸ .dequeue hd hrb
      | insert pending => simp [schedStep, daemonDequeue, hd] at hs
      | transmit i | recycle i => simp [schedStep, daemonDequeue, hd] at hs
  | insert =>
      rcases hd : s.daemon with _ | (_ | ⟨i, rest⟩) | i | i
      case insert.cons =>
        obtain ⟨q, hcap, hsize, hq, ht⟩ := schedStep_insert h hd
        exact Option.some.inj (ht.symm.trans hs) ▸ .insert hd hcap hsize hq
      all_goals simp [schedStep, daemonInsert, hd] at hs
  | schedule now =>
      rcases hd : s.daemon with _ | (_ | ⟨i, rest⟩) | i | i
      case insert.nil =>
        obtain ⟨t, ht, heffect⟩ := schedStep_schedule h hd now
        exact Option.some.inj (ht.symm.trans hs) ▸ heffect
      all_goals simp [schedStep, daemonSchedule, hd] at hs
  | transmit =>
      rcases hd : s.daemon with _ | pending | i | i
      case transmit => exact Option.some.inj ((schedStep_transmit hd).symm.trans hs) ▸ .transmit hd
      all_goals simp [schedStep, daemonTransmit, hd] at hs
  | recycle =>
      rcases hd : s.daemon with _ | pending | i | i
      case recycle =>
        obtain ⟨rb, hrb, ht⟩ := schedStep_recycle h hd
        exact Option.some.inj (ht.symm.trans hs) ▸ .recycle hd hrb
      all_goals simp [schedStep, daemonRecycle, hd] at hs

end KuberneTSN.Sched
