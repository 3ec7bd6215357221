import KuberneTSN.Ring.AnySize
import KuberneTSN.Ring.Counts
import KuberneTSN.Sched.Pool

/-!
# The daemon of `ktsnd_socket.c`

The second daemon has no network device: it queues the packets from the tx ring by their transmit
times, and puts the first one back on the free ring when it is due, where the other daemon sends it.
Its rings have 100 elements; positions are masked with 99, which is not a row of ones in binary. It
looks at its queue only after it has found a packet on the tx ring, and drops none.

The clients are those of `KuberneTSN.Sched`, and so are the state and the actions; this daemon has
no action `transmit`.

* `socketStart_eq` — start-up puts 99 indices on the free ring, over each other, so that 15 of them
  are left;
* `SocketEffect`, `socketStep_effect` — what an action can do;
* `SocketEffect.inv` — every action keeps the number of indices, and a property that all of them
  have;
* `socket_shares_buffers` — so in every run 16 of the 100 buffers do all the work;
* `socket_queue_stalls` — without a new packet nothing leaves the queue, whatever the clock shows.
-/

set_option linter.unusedSectionVars false

namespace KuberneTSN.Sched

open Lib KuberneTSN.Ring KuberneTSN.Queue

/-! ## The daemon -/

/-- Source: `ktsnd_socket.c` `main`, lines 58–76, in fresh shared memory. The last of the 100 calls
finds the free ring full. -/
def socketStart {ι : Type} (mbufPool : ℕ → UInt8) (metadataPool : ℕ → KtMetadata)
    (junk : ℕ → KtPqNode) : Option (State ι) := do
  let ringElemCount := 100
  let txRing ← ktRingbufCreate (fun _ => some fun _ => 0) ringElemCount 1
  let freeRing ← ktRingbufCreate (fun _ => some fun _ => 0) ringElemCount 1
  let freeRing ← (fillFreeRing ringElemCount.toNat 0 freeRing).toOption
  some
    { freeRing := freeRing
      txRing := txRing
      mbufPool := mbufPool
      metadataPool := metadataPool
      prioQueue := ktPrioQueueInit junk ringElemCount.toNat
      clients := fun _ => .idle none
      daemon := .top
      wire := [] }

/-- Source: `ktsnd_socket.c` `wakeup_ns`. -/
def wakeupNs : Int64 := 10000

/-- The call at the top of the loop, which starts again if there is nothing.
Source: `ktsnd_socket.c` `main`, lines 83–89. -/
def socketDequeue {ι : Type} (s : State ι) : Option (State ι) :=
  match s.daemon with
  | .top =>
      match ktRingbufDequeueBurst s.txRing (fun _ => 0) 8 8 with
      | .ok r =>
          let daemon := if r.n = 0 then .top else .insert (firstOf r.table r.n.toNat)
          some { s with txRing := r.rb, daemon := daemon }
      | .error _ => none
  | _ => none

/-- The decision when the clock shows `now`. Source: `ktsnd_socket.c` `main`, lines 118–129. -/
def socketSchedule {ι : Type} (s : State ι) (now : Int64) : Option (State ι) :=
  match s.daemon with
  | .insert [] =>
      if s.prioQueue.size > 0 then
        let txtime := ktPrioQueueGetmin s.prioQueue
        if now > txtime - wakeupNs then do
          let (ret, mbufIndex, q) ← ktPrioQueueExtractMin s.prioQueue (some 0)
          if ret < 0 then some { s with prioQueue := q, daemon := .top }
          else some { s with prioQueue := q, daemon := .recycle (mbufIndex.getD 0) }
        else some { s with daemon := .top }
      else some { s with daemon := .top }
  | _ => none

/-- One action. The insertion of a packet (lines 91–116) and the last call of the loop (lines
148–149) are those of the other daemon. Source: `ktsnd_socket.c` `main`, lines 81–152. -/
def socketStep {ι : Type} [DecidableEq ι] (s : State ι) : Act ι → Option (State ι)
  | .take c req => clientTake s c req
  | .fill c => clientFill s c
  | .put c => clientPut s c
  | .dequeue => socketDequeue s
  | .insert => daemonInsert s
  | .schedule now => socketSchedule s now
  | .transmit => none
  | .recycle => daemonRecycle s

/-! ## Start-up -/

/-- The indices that are left in the slots of the free ring at start-up, and the `0` of the slots
that are not written. -/
def socketBuffers : List UInt64 :=
  [0, 28, 29, 30, 31, 60, 61, 62, 63, 92, 93, 94, 95, 96, 97, 98]

/-- The loop that fills the free ring leaves the slots behind the array alone, in a ring of any
size. -/
theorem fillFreeRing_behind {count : UInt32} {rb : KtRingbuf} (h : AtRest count rb) (n i : ℕ) :
    ∃ rb', fillFreeRing n i rb = .ok rb' ∧
      ∀ k, (count - 1).toNat < k → rb'.slots k = rb.slots k := by
  induction n generalizing i rb with
  | zero => exact ⟨rb, rfl, fun _ _ => rfl⟩
  | succ n ih =>
      rcases Nat.lt_or_ge (filled rb) (count - 1).toNat with hroom | hfull
      · obtain ⟨r, hr, -, hpush⟩ := h.push hroom (UInt64.ofNat i)
        obtain ⟨rb', hrb', hslots⟩ := ih hpush.at_rest (i + 1)
        refine ⟨rb', ?_, fun k hk => ?_⟩
        · rw [fillFreeRing, hr]
          exact hrb'
        · have hne : k ≠ nextSlot rb := (h.nextSlot_le.trans_lt hk).ne'
          rw [hslots k hk, hpush.slots, Function.update_of_ne hne]
      · obtain ⟨r, hr, hrb⟩ := h.push_full hfull (UInt64.ofNat i)
        obtain ⟨rb', hrb', hslots⟩ := ih h (i + 1)
        refine ⟨rb', ?_, hslots⟩
        rw [← hrb] at hrb'
        rw [fillFreeRing, hr]
        exact hrb'

/-- What is left in the slots of the free ring: each of the 15 that are written at all keeps the
last index that was put there. -/
def socketSlot (k : ℕ) : UInt64 :=
  if k &&& 99 = k ∧ k < 96 then UInt64.ofNat (k + 28)
  else if 96 ≤ k ∧ k < 99 then UInt64.ofNat k
  else 0

/-- The free ring at the end of start-up. -/
def socketFreeRing : KtRingbuf := ⟨100, 1, 99, 99, ⟨99, 99⟩, ⟨0, 0⟩, socketSlot⟩

/-- Behind the array there is nothing. -/
theorem socketSlot_of_lt {k : ℕ} (hk : 99 < k) : socketSlot k = 0 := by
  rw [socketSlot, if_neg (by omega), if_neg (by omega)]

/-- The loop that fills the free ring. -/
theorem fill_ringOfHundred : fillFreeRing 100 0 ringOfHundred = .ok socketFreeRing := by
  have hcreate : ktRingbufCreate (fun _ => some fun _ => 0) 100 1 = some ringOfHundred := rfl
  obtain ⟨rb, hrb, hbehind⟩ := fillFreeRing_behind (atRest_create hcreate).1 100 0
  have hcomputed : ((fillFreeRing 100 0 ringOfHundred).toOption.map fun rb =>
      ([rb.size, rb.esize, rb.mask, rb.capacity, rb.prod.head, rb.prod.tail, rb.cons.head,
        rb.cons.tail], (List.range 100).map rb.slots)) =
      some ([100, 1, 99, 99, 99, 99, 0, 0], (List.range 100).map socketSlot) := by
    decide +kernel
  rw [hrb, Except.toOption, Option.map_some, Option.some.injEq] at hcomputed
  obtain ⟨size, esize, mask, capacity, ⟨phead, ptail⟩, ⟨chead, ctail⟩, slots⟩ := rb
  simp only [Prod.mk.injEq, List.cons.injEq, and_true, List.map_inj_left,
    List.mem_range] at hcomputed
  obtain ⟨⟨rfl, rfl, rfl, rfl, rfl, rfl, rfl, rfl⟩, harray⟩ := hcomputed
  have hslots : slots = socketSlot := by
    funext k
    rcases Nat.lt_or_ge k 100 with hlt | hge
    · exact harray k hlt
    · rw [socketSlot_of_lt hge]
      exact hbehind k hge
  rw [hrb, hslots]
  rfl

/-- The indices that are in the slots. -/
theorem socketSlot_mem (k : ℕ) : socketSlot k ∈ socketBuffers := by
  have harray : ∀ k < 100, socketSlot k ∈ socketBuffers := by decide +kernel
  rcases Nat.lt_or_ge k 100 with hlt | hge
  · exact harray k hlt
  · rw [socketSlot_of_lt hge]
    exact List.mem_cons_self

/-- The state in which the daemon enters its loop. -/
def socketStarted {ι : Type} (mbufPool : ℕ → UInt8) (metadataPool : ℕ → KtMetadata)
    (junk : ℕ → KtPqNode) : State ι where
  freeRing := socketFreeRing
  txRing := ringOfHundred
  mbufPool := mbufPool
  metadataPool := metadataPool
  prioQueue := ktPrioQueueInit junk 100
  clients := fun _ => .idle none
  daemon := .top
  wire := []

/-- **Start-up succeeds.** -/
theorem socketStart_eq {ι : Type} (mbufPool : ℕ → UInt8) (metadataPool : ℕ → KtMetadata)
    (junk : ℕ → KtPqNode) :
    socketStart mbufPool metadataPool junk =
      some (socketStarted mbufPool metadataPool junk : State ι) := by
  have hcreate : ktRingbufCreate (fun _ => some fun _ => 0) 100 1 = some ringOfHundred := rfl
  have hhundred : (100 : UInt32).toNat = 100 := rfl
  simp only [socketStart, hcreate, Option.bind_eq_bind, Option.bind_some, hhundred,
    fill_ringOfHundred, Except.toOption]
  rfl

/-! ## What the parties can do -/

variable {ι : Type} [DecidableEq ι] [Fintype ι] {s s' : State ι} {a : Act ι}

/-- The indices with the parties and in the queue. -/
def State.inUse (s : State ι) : Multiset UInt64 :=
  clientsHeld s.clients + scheduled s.prioQueue + s.daemon.held

/-- The rings are at rest, there are as many indices as at start-up, and all that any of them ever
was is in `V`. -/
structure SocketInv (V : UInt64 → Prop) (s : State ι) : Prop where
  free : AtRest 100 s.freeRing
  tx : AtRest 100 s.txRing
  free_slots : ∀ k, V (s.freeRing.slots k)
  tx_slots : ∀ k, V (s.txRing.slots k)
  cap : s.prioQueue.cap = 100
  in_use : ∀ i ∈ s.inUse, V i
  total : filled s.freeRing + filled s.txRing + s.inUse.card = 99

/-- The invariant at the end of start-up. -/
theorem socketInv_started (mbufPool : ℕ → UInt8) (metadataPool : ℕ → KtMetadata)
    (junk : ℕ → KtPqNode) :
    SocketInv (· ∈ socketBuffers) (socketStarted mbufPool metadataPool junk : State ι) := by
  have hnone : (socketStarted mbufPool metadataPool junk : State ι).inUse = 0 := by
    have hclients : clientsHeld (fun _ : ι => Client.idle none) = 0 :=
      clientsHeld_of_idle fun _ => ⟨none, rfl⟩
    have hqueue : scheduled (ktPrioQueueInit junk 100) = 0 :=
      Multiset.card_eq_zero.mp (card_scheduled _)
    simp only [State.inUse, socketStarted, hclients, hqueue, Daemon.held, add_zero]
  have hfree : AtRest 100 socketFreeRing := ⟨rfl, rfl, rfl, rfl, rfl, by decide⟩
  have htx : AtRest 100 ringOfHundred := ⟨rfl, rfl, rfl, rfl, rfl, by decide⟩
  have hfilled : filled socketFreeRing + filled ringOfHundred = 99 := by decide
  refine ⟨hfree, htx, socketSlot_mem, fun _ => List.mem_cons_self, rfl, ?_, ?_⟩
  · rw [hnone]
    exact fun i hi => absurd hi (Multiset.notMem_zero i)
  · rw [hnone, Multiset.card_zero, add_zero]
    exact hfilled

/-- What an action can do. -/
inductive SocketEffect (s : State ι) : Act ι → State ι → Prop
  /-- No index is free. -/
  | refuse {c : ι} {req : SendReq} {ret : Option ℤ} {rb : KtRingbuf}
      (hc : s.clients c = .idle ret) (hrb : Pulled 100 1 s.freeRing rb []) :
      SocketEffect s (.take c req)
        { s with freeRing := rb, clients := Function.update s.clients c (.idle (some enobufs)) }
  | take {c : ι} {req : SendReq} {ret : Option ℤ} {rb : KtRingbuf} {i : UInt64}
      (hc : s.clients c = .idle ret) (hrb : Pulled 100 1 s.freeRing rb [i]) :
      SocketEffect s (.take c req)
        { s with freeRing := rb, clients := Function.update s.clients c (.taken i req) }
  | fill {c : ι} {req : SendReq} {i : UInt64} (hc : s.clients c = .taken i req) :
      SocketEffect s (.fill c)
        { s with
          mbufPool := memcpy s.mbufPool (mbufAt i) req.iov0
          metadataPool := Function.update s.metadataPool i.toNat
            (req.metadata (s.metadataPool i.toNat))
          clients := Function.update s.clients c (.filled i req) }
  | put {c : ι} {req : SendReq} {i : UInt64} {rb : KtRingbuf}
      (hc : s.clients c = .filled i req) (hrb : Pushed 100 s.txRing rb i) :
      SocketEffect s (.put c)
        { s with
          txRing := rb
          clients := Function.update s.clients c (.idle (some req.iov0.length)) }
  /-- There is no packet on the tx ring. -/
  | poll {rb : KtRingbuf} (hd : s.daemon = .top) (hrb : Pulled 100 8 s.txRing rb []) :
      SocketEffect s .dequeue { s with txRing := rb }
  | dequeue {rb : KtRingbuf} {i : UInt64} {rest : List UInt64} (hd : s.daemon = .top)
      (hrb : Pulled 100 8 s.txRing rb (i :: rest)) :
      SocketEffect s .dequeue { s with txRing := rb, daemon := .insert (i :: rest) }
  | insert {i : UInt64} {rest : List UInt64} {q : KtPrioQueue} (hd : s.daemon = .insert (i :: rest))
      (hcap : q.cap = s.prioQueue.cap)
      (hq : q.pairs = ⟨(s.metadataPool i.toNat).txtime.toInt64, i⟩ ::ₘ s.prioQueue.pairs) :
      SocketEffect s .insert { s with prioQueue := q, daemon := .insert rest }
  /-- There is no packet, or none that is due. -/
  | wait {now : Int64} (hd : s.daemon = .insert [])
      (hwait : s.prioQueue.size = 0 ∨ ¬ now > ktPrioQueueGetmin s.prioQueue - wakeupNs) :
      SocketEffect s (.schedule now) { s with daemon := .top }
  | extract {now : Int64} {q : KtPrioQueue} (hd : s.daemon = .insert [])
      (hdue : now > ktPrioQueueGetmin s.prioQueue - wakeupNs) (hcap : q.cap = s.prioQueue.cap)
      (hq : s.prioQueue.pairs = s.prioQueue.elems 0 ::ₘ q.pairs) :
      SocketEffect s (.schedule now)
        { s with prioQueue := q, daemon := .recycle (s.prioQueue.elems 0).data }
  | recycle {i : UInt64} {rb : KtRingbuf} (hd : s.daemon = .recycle i)
      (hrb : Pushed 100 s.freeRing rb i) :
      SocketEffect s .recycle { s with freeRing := rb, daemon := .top }

section step

variable {V : UInt64 → Prop}

/-- A client that is about to call `sendmsg`. -/
theorem SocketInv.take_effect (h : SocketInv V s) {c : ι} {ret : Option ℤ}
    (hc : s.clients c = .idle ret) {req : SendReq} (hs : socketStep s (.take c req) = some s') :
    SocketEffect s (.take c req) s' := by
  obtain ⟨r, hr, hpull⟩ := h.free.pull (by decide) (fun _ => 0) 1
  have hlen : r.n.toNat ≤ 1 := by
    have hlength := hpull.length
    rw [length_firstOf] at hlength
    exact hlength.trans_le (min_le_left _ _)
  simp only [socketStep, clientTake, hc, hr, Option.some.injEq] at hs
  subst hs
  by_cases hn : r.n = 0
  · rw [if_pos hn]
    rw [hn] at hpull
    exact .refuse hc hpull
  · have hone : r.n = 1 := by
      have hne : r.n.toNat ≠ 0 := fun hzero => hn (UInt32.toNat_inj.mp hzero)
      exact UInt32.toNat_inj.mp (show r.n.toNat = 1 by omega)
    rw [if_neg hn]
    rw [hone] at hpull
    exact .take hc hpull

/-- There is room on the tx ring for the index of a client. -/
theorem SocketInv.tx_room (h : SocketInv V s) {c : ι} {i : UInt64} {req : SendReq}
    (hc : s.clients c = .filled i req) : filled s.txRing < 99 := by
  have hheld := Multiset.card_le_card (held_le_clientsHeld s.clients c)
  rw [hc, Client.held, Multiset.card_singleton] at hheld
  have htotal := h.total
  rw [State.inUse, Multiset.card_add, Multiset.card_add] at htotal
  omega

/-- There is room in the queue for the indices that the daemon has dequeued. -/
theorem SocketInv.queue_room (h : SocketInv V s) {i : UInt64} {rest : List UInt64}
    (hd : s.daemon = .insert (i :: rest)) : s.prioQueue.size < 99 := by
  have htotal := h.total
  rw [State.inUse, Multiset.card_add, Multiset.card_add, card_scheduled, hd, Daemon.held,
    Multiset.coe_card, List.length_cons] at htotal
  omega

/-- There is room on the free ring for the index that the daemon has extracted. -/
theorem SocketInv.free_room (h : SocketInv V s) {i : UInt64} (hd : s.daemon = .recycle i) :
    filled s.freeRing < 99 := by
  have htotal := h.total
  rw [State.inUse, Multiset.card_add, hd, Daemon.held, Multiset.card_singleton] at htotal
  omega

/-- The daemon at the top of its loop. -/
theorem SocketInv.dequeue_effect (h : SocketInv V s) (hd : s.daemon = .top)
    (hs : socketStep s .dequeue = some s') : SocketEffect s .dequeue s' := by
  obtain ⟨r, hr, hpull⟩ := h.tx.pull (by decide) (fun _ => 0) 8
  simp only [socketStep, socketDequeue, hd, hr, Option.some.injEq] at hs
  subst hs
  by_cases hn : r.n = 0
  · rw [if_pos hn, ← hd]
    rw [hn] at hpull
    exact .poll hd hpull
  · rw [if_neg hn]
    cases hgot : firstOf r.table r.n.toNat with
    | nil =>
        have hzero := length_firstOf r.table r.n.toNat
        rw [hgot] at hzero
        exact absurd (UInt32.toNat_inj.mp hzero.symm) hn
    | cons i rest =>
        rw [hgot] at hpull
        exact .dequeue hd hpull

/-- The daemon before its decision. -/
theorem SocketInv.schedule_effect (h : SocketInv V s) (hd : s.daemon = .insert []) {now : Int64}
    (hs : socketStep s (.schedule now) = some s') : SocketEffect s (.schedule now) s' := by
  simp only [socketStep, socketSchedule, hd] at hs
  by_cases hpos : s.prioQueue.size > 0
  · rw [if_pos hpos] at hs
    by_cases hdue : now > ktPrioQueueGetmin s.prioQueue - wakeupNs
    · have hle : s.prioQueue.size ≤ 99 := by
        have htotal := h.total
        rw [State.inUse, Multiset.card_add, Multiset.card_add, card_scheduled] at htotal
        omega
      obtain ⟨q, hq, -, hcap, hpairs⟩ :=
        ktPrioQueueExtractMin_removes hpos (by omega) (some (0 : UInt64))
      rw [if_pos hdue, hq] at hs
      cases hs
      exact .extract hd hdue hcap hpairs
    · rw [if_neg hdue] at hs
      cases hs
      exact .wait hd (Or.inr hdue)
  · rw [if_neg hpos] at hs
    cases hs
    exact .wait hd (Or.inl (Nat.eq_zero_of_not_pos hpos))

/-- **Every action has one of the effects.** -/
theorem socketStep_effect (h : SocketInv V s) (hs : socketStep s a = some s') :
    SocketEffect s a s' := by
  cases a with
  | take c req =>
      cases hc : s.clients c with
      | idle ret => exact h.take_effect hc hs
      | taken i req | filled i req => simp [socketStep, clientTake, hc] at hs
  | fill c =>
      cases hc : s.clients c with
      | taken i req =>
          simp only [socketStep, clientFill, hc, Option.some.injEq] at hs
          exact hs ▸ .fill hc
      | idle ret => simp [socketStep, clientFill, hc] at hs
      | filled i req => simp [socketStep, clientFill, hc] at hs
  | put c =>
      cases hc : s.clients c with
      | filled i req =>
          obtain ⟨r, hr, hn, hpush⟩ := h.tx.push (h.tx_room hc) i
          simp only [socketStep, clientPut, hc, hr, if_neg (not_not.mpr hn),
            Option.some.injEq] at hs
          exact hs ▸ .put hc hpush
      | idle ret => simp [socketStep, clientPut, hc] at hs
      | taken i req => simp [socketStep, clientPut, hc] at hs
  | dequeue =>
      cases hd : s.daemon with
      | top => exact h.dequeue_effect hd hs
      | insert pending => simp [socketStep, socketDequeue, hd] at hs
      | transmit i | recycle i => simp [socketStep, socketDequeue, hd] at hs
  | insert =>
      rcases hd : s.daemon with _ | (_ | ⟨i, rest⟩) | i | i
      case insert.cons =>
        have hroom := h.queue_room hd
        have hcap := h.cap
        obtain ⟨q, hq, hsize, hqcap, hpairs, -⟩ := ktPrioQueueInsert_spec (q := s.prioQueue)
          (by omega) (by omega) (s.metadataPool i.toNat).txtime.toInt64 i
        simp only [socketStep, daemonInsert, hd, hq, Option.bind_eq_bind, Option.bind_some,
          Option.some.injEq] at hs
        exact hs ▸ .insert hd hqcap hpairs
      all_goals simp [socketStep, daemonInsert, hd] at hs
  | schedule now =>
      rcases hd : s.daemon with _ | (_ | ⟨i, rest⟩) | i | i
      case insert.nil => exact h.schedule_effect hd hs
      all_goals simp [socketStep, socketSchedule, hd] at hs
  | transmit => cases hs
  | recycle =>
      rcases hd : s.daemon with _ | pending | i | i
      case recycle =>
        obtain ⟨r, hr, -, hpush⟩ := h.free.push (h.free_room hd) i
        simp only [socketStep, daemonRecycle, hd, hr, Option.some.injEq] at hs
        exact hs ▸ .recycle hd hpush
      all_goals simp [socketStep, daemonRecycle, hd] at hs

end step

/-! ## Where the indices go -/

/-- What an action does to the indices: `got` come out of the slots of a ring, and `gave` are the
entries that a ring gets for them. -/
structure SocketMoved (s s' : State ι) (got gave : Multiset UInt64) : Prop where
  free : AtRest 100 s.freeRing → AtRest 100 s'.freeRing
  tx : AtRest 100 s.txRing → AtRest 100 s'.txRing
  free_slots : ∀ k, s'.freeRing.slots k = s.freeRing.slots k ∨ s'.freeRing.slots k ∈ s.inUse
  tx_slots : ∀ k, s'.txRing.slots k = s.txRing.slots k ∨ s'.txRing.slots k ∈ s.inUse
  cap : s'.prioQueue.cap = s.prioQueue.cap
  in_use : s'.inUse + gave = s.inUse + got
  entries : filled s'.freeRing + filled s'.txRing + got.card =
    filled s.freeRing + filled s.txRing + gave.card
  read : ∀ i ∈ got, (∃ k, s.freeRing.slots k = i) ∨ ∃ k, s.txRing.slots k = i

/-- What a client holds is in use. -/
theorem mem_inUse_of_client {c : ι} {i : UInt64} (hi : i ∈ (s.clients c).held) : i ∈ s.inUse :=
  Multiset.mem_add.mpr (Or.inl (Multiset.mem_add.mpr (Or.inl
    (Multiset.mem_of_le (held_le_clientsHeld s.clients c) hi))))

/-- An action that leaves the rings alone and does not change what is in use. -/
theorem SocketMoved.of_eq (hfree : s'.freeRing = s.freeRing) (htx : s'.txRing = s.txRing)
    (hcap : s'.prioQueue.cap = s.prioQueue.cap) (huse : s'.inUse = s.inUse) :
    SocketMoved s s' 0 0 := by
  refine ⟨?_, ?_, ?_, ?_, hcap, ?_, ?_, fun i hi => absurd hi (Multiset.notMem_zero i)⟩
  · rw [hfree]
    exact id
  · rw [htx]
    exact id
  · rw [hfree]
    exact fun _ => Or.inl rfl
  · rw [htx]
    exact fun _ => Or.inl rfl
  · rw [huse]
  · rw [hfree, htx]

/-- An action that takes indices off the free ring. -/
theorem SocketMoved.of_pull_free {n : ℕ} {got : List UInt64}
    (hpull : Pulled 100 n s.freeRing s'.freeRing got) (htx : s'.txRing = s.txRing)
    (hcap : s'.prioQueue.cap = s.prioQueue.cap) (huse : s'.inUse = s.inUse + got) :
    SocketMoved s s' got 0 := by
  refine ⟨fun _ => hpull.at_rest, ?_, ?_, ?_, hcap, ?_, ?_, fun i hi => Or.inl (hpull.read i hi)⟩
  · rw [htx]
    exact id
  · exact fun k => Or.inl (congrFun hpull.slots k)
  · rw [htx]
    exact fun _ => Or.inl rfl
  · rw [huse, add_zero]
  · have hfilled := hpull.filled
    rw [htx, Multiset.coe_card, Multiset.card_zero]
    omega

/-- An action that takes indices off the tx ring. -/
theorem SocketMoved.of_pull_tx {n : ℕ} {got : List UInt64}
    (hfree : s'.freeRing = s.freeRing) (hpull : Pulled 100 n s.txRing s'.txRing got)
    (hcap : s'.prioQueue.cap = s.prioQueue.cap) (huse : s'.inUse = s.inUse + got) :
    SocketMoved s s' got 0 := by
  refine ⟨?_, fun _ => hpull.at_rest, ?_, ?_, hcap, ?_, ?_, fun i hi => Or.inr (hpull.read i hi)⟩
  · rw [hfree]
    exact id
  · rw [hfree]
    exact fun _ => Or.inl rfl
  · exact fun k => Or.inl (congrFun hpull.slots k)
  · rw [huse, add_zero]
  · have hfilled := hpull.filled
    rw [hfree, Multiset.coe_card, Multiset.card_zero]
    omega

/-- **Every action only moves indices** between the parties, the queue and the rings. -/
theorem SocketEffect.moved (h : SocketEffect s a s') :
    ∃ got gave, SocketMoved s s' got gave := by
  cases h with
  | @refuse c req ret rb hc hrb =>
      have hcl := clientsHeld_update s.clients c (.idle (some enobufs))
      rw [hc] at hcl
      simp only [Client.held, add_zero] at hcl
      refine ⟨_, _, .of_pull_free hrb rfl rfl ?_⟩
      simp only [State.inUse, hcl, Multiset.coe_nil, add_zero]
  | @take c req ret rb i hc hrb =>
      have hcl := clientsHeld_update s.clients c (.taken i req)
      rw [hc] at hcl
      simp only [Client.held, add_zero] at hcl
      refine ⟨_, _, .of_pull_free hrb rfl rfl ?_⟩
      simp only [State.inUse, hcl, Multiset.coe_singleton]
      abel
  | @fill c req i hc =>
      have hcl := clientsHeld_update s.clients c (.filled i req)
      rw [hc] at hcl
      simp only [Client.held, add_left_inj] at hcl
      refine ⟨_, _, .of_eq rfl rfl rfl ?_⟩
      simp only [State.inUse, hcl]
  | @put c req i rb hc hrb =>
      have hcl := clientsHeld_update s.clients c (.idle (some (req.iov0.length : ℤ)))
      rw [hc] at hcl
      simp only [Client.held, add_zero] at hcl
      have hi : i ∈ s.inUse := mem_inUse_of_client (c := c) (by
        rw [hc]
        exact Multiset.mem_singleton_self i)
      refine ⟨0, {i}, id, fun _ => hrb.at_rest, fun _ => .inl rfl, fun k => ?_, rfl, ?_, ?_,
        fun i hi => absurd hi (Multiset.notMem_zero i)⟩
      · refine (hrb.slots_eq_or k).imp_right fun hk => ?_
        rw [hk]
        exact hi
      · simp only [State.inUse, ← hcl]
        abel
      · have hfilled := hrb.filled
        dsimp only
        rw [hfilled, Multiset.card_singleton, Multiset.card_zero]
        omega
  | @poll rb hd hrb =>
      refine ⟨_, _, .of_pull_tx rfl hrb rfl ?_⟩
      rw [Multiset.coe_nil, add_zero]
      rfl
  | @dequeue rb i rest hd hrb =>
      refine ⟨_, _, .of_pull_tx rfl hrb rfl ?_⟩
      simp only [State.inUse, hd, Daemon.held, add_zero]
  | @insert i rest q hd hcap hq =>
      refine ⟨_, _, .of_eq rfl rfl hcap ?_⟩
      simp only [State.inUse, hd, Daemon.held, scheduled_cons hq, coe_cons_eq]
      abel
  | @wait now hd hwait =>
      refine ⟨_, _, .of_eq rfl rfl rfl ?_⟩
      simp only [State.inUse, hd, Daemon.held, Multiset.coe_nil]
  | @extract now q hd hdue hcap hq =>
      refine ⟨_, _, .of_eq rfl rfl hcap ?_⟩
      simp only [State.inUse, hd, Daemon.held, scheduled_cons hq, Multiset.coe_nil]
      abel
  | @recycle i rb hd hrb =>
      have hi : i ∈ s.inUse := by
        refine Multiset.mem_add.mpr (Or.inr ?_)
        rw [hd]
        exact Multiset.mem_singleton_self i
      refine ⟨0, {i}, fun _ => hrb.at_rest, id, fun k => ?_, fun _ => .inl rfl, rfl, ?_, ?_,
        fun i hi => absurd hi (Multiset.notMem_zero i)⟩
      · refine (hrb.slots_eq_or k).imp_right fun hk => ?_
        rw [hk]
        exact hi
      · simp only [State.inUse, hd, Daemon.held, add_zero]
      · have hfilled := hrb.filled
        dsimp only
        rw [hfilled, Multiset.card_singleton, Multiset.card_zero]
        omega

/-- Every action keeps the number of indices, and a property that all of them have. -/
theorem SocketInv.step {V : UInt64 → Prop} (s : State ι) (a : Act ι) (s' : State ι)
    (h : SocketInv V s) (hs : socketStep s a = some s') : SocketInv V s' := by
  obtain ⟨got, gave, hmoved⟩ := (socketStep_effect h hs).moved
  have hslots : ∀ {x y : UInt64}, V y → x = y ∨ x ∈ s.inUse → V x := by
    rintro x y hy (rfl | hx)
    · exact hy
    · exact h.in_use x hx
  refine ⟨hmoved.free h.free, hmoved.tx h.tx, fun k => ?_, fun k => ?_, ?_, fun i hi => ?_, ?_⟩
  · exact hslots (h.free_slots k) (hmoved.free_slots k)
  · exact hslots (h.tx_slots k) (hmoved.tx_slots k)
  · exact hmoved.cap.trans h.cap
  · have hmem : i ∈ s.inUse + got := hmoved.in_use ▸ Multiset.mem_add.mpr (Or.inl hi)
    rcases Multiset.mem_add.mp hmem with hold | hnew
    · exact h.in_use i hold
    · rcases hmoved.read i hnew with ⟨k, rfl⟩ | ⟨k, rfl⟩
      · exact h.free_slots k
      · exact h.tx_slots k
  · have hcard := congrArg Multiset.card hmoved.in_use
    rw [Multiset.card_add, Multiset.card_add] at hcard
    have hentries := hmoved.entries
    have htotal := h.total
    omega

/-! ## Runs -/

variable {s₀ : State ι} {tr tr' : List (State ι × Act ι)} {mbufPool : ℕ → UInt8}
  {metadataPool : ℕ → KtMetadata} {junk : ℕ → KtPqNode}

/-- The invariant in every reachable state. -/
theorem socketInv_run (hstart : socketStart mbufPool metadataPool junk = some s₀)
    (hrun : Run socketStep s₀ tr s) : SocketInv (· ∈ socketBuffers) s := by
  rw [socketStart_eq, Option.some.injEq] at hstart
  subst hstart
  exact hrun.always (socketInv_started mbufPool metadataPool junk) SocketInv.step

/-- **Sixteen of the 100 buffers do all the work.** In every reachable state of the clients and the
daemon of `ktsnd_socket.c` there are 99 indices on the two rings, with the parties and in the queue;
those with the parties and in the queue are among 16, so that when there are more than 16 of them
one buffer is in use twice. -/
theorem socket_shares_buffers (hstart : socketStart mbufPool metadataPool junk = some s₀)
    (hrun : Run socketStep s₀ tr s) :
    filled s.freeRing + filled s.txRing + s.inUse.card = 99 ∧
      (∀ i ∈ s.inUse, i ∈ socketBuffers) ∧ (16 < s.inUse.card → ∃ i, 1 < s.inUse.count i) := by
  have hinv := socketInv_run hstart hrun
  refine ⟨hinv.total, hinv.in_use, fun hmany => ?_⟩
  by_contra hnone
  have hnodup : s.inUse.Nodup := by
    refine Multiset.nodup_iff_count_le_one.mpr fun i => ?_
    exact Nat.le_of_not_lt fun hlt => hnone ⟨i, hlt⟩
  have hsub : s.inUse.toFinset ⊆ socketBuffers.toFinset := by
    intro i hi
    exact List.mem_toFinset.mpr (hinv.in_use i (Multiset.mem_toFinset.mp hi))
  have hle := Finset.card_le_card hsub
  rw [Multiset.toFinset_card_of_nodup hnodup] at hle
  exact absurd (hmany.trans_le hle) (by decide)

/-- Five clients that call `sendmsg` one after the other: the first one and the last one write into
the same buffer, the one with index 28. -/
theorem socket_shares_buffers_five :
    ∃ (s₀ s : State (Fin 5)) (tr : List (State (Fin 5) × Act (Fin 5))),
      socketStart (fun _ => 0) (fun _ => blankMetadata) (fun _ => ⟨0, 0⟩) = some s₀ ∧
        Run socketStep s₀ tr s ∧ s.clients 0 = .taken 28 blankReq ∧
        s.clients 4 = .taken 28 blankReq ∧ ∀ i ∈ s.inUse, i ∈ socketBuffers := by
  have hexec : (exec socketStep (socketStarted (fun _ => 0) (fun _ => blankMetadata) fun _ => ⟨0, 0⟩)
      ((List.finRange 5).map (.take · blankReq))).map (fun s => (s.clients 0, s.clients 4)) =
      some (.taken 28 blankReq, .taken 28 blankReq) := by
    decide +kernel
  obtain ⟨s, hs, hclients⟩ := Option.map_eq_some_iff.mp hexec
  obtain ⟨hfirst, hlast⟩ := Prod.mk.inj hclients
  obtain ⟨tr, hrun, -⟩ := Run.of_exec hs
  have hstart := @socketStart_eq (Fin 5) (fun _ => 0) (fun _ => blankMetadata) fun _ => ⟨0, 0⟩
  exact ⟨_, s, tr, hstart, hrun, hfirst, hlast, (socket_shares_buffers hstart hrun).2.1⟩

/-! ## The queue of the daemon -/

/-- The queue holds `n` packets, and one more between a dequeue that got something and the decision
that follows it. -/
def KeepsQueued (n : ℕ) (s : State ι) : Prop :=
  match s.daemon with
  | .insert pending => n + 1 ≤ s.prioQueue.size + pending.length
  | _ => n ≤ s.prioQueue.size

/-- The size of a queue with one packet more. -/
theorem size_of_cons {q q' : KtPrioQueue} {nd : KtPqNode} (h : q'.pairs = nd ::ₘ q.pairs) :
    q'.size = q.size + 1 := by
  rw [← card_scheduled, ← card_scheduled, scheduled_cons h, Multiset.card_add,
    Multiset.card_singleton, Nat.add_comm]

/-- An iteration takes no more packets off the queue than it adds. -/
theorem SocketEffect.keepsQueued (h : SocketEffect s a s') {n : ℕ} (hn : KeepsQueued n s) :
    KeepsQueued n s' := by
  unfold KeepsQueued at hn ⊢
  cases h with
  | refuse | take | fill | put | poll => exact hn
  | @dequeue rb i rest hd hrb =>
      rw [hd] at hn
      dsimp only at hn ⊢
      rw [List.length_cons]
      omega
  | @insert i rest q hd hcap hq =>
      rw [hd] at hn
      dsimp only at hn ⊢
      rw [List.length_cons] at hn
      rw [size_of_cons hq]
      omega
  | wait hd hwait =>
      rw [hd] at hn
      exact (Nat.le_succ n).trans hn
  | extract hd hdue hcap hq =>
      rw [hd] at hn
      rw [size_of_cons hq] at hn
      exact Nat.le_of_succ_le_succ hn
  | recycle hd hrb =>
      rw [hd] at hn
      exact hn

/-- **The queue never gets shorter.** From one start of the loop of the daemon to any later one, in
any run, the number of packets in the queue does not drop: an iteration that releases one has added
at least one before. So the buffers that are left for the clients never get more. -/
theorem socket_queue_never_shrinks (hstart : socketStart mbufPool metadataPool junk = some s₀)
    (hrun : Run socketStep s₀ tr s) (hd : s.daemon = .top) (hrun' : Run socketStep s tr' s')
    (hd' : s'.daemon = .top) :
    s.prioQueue.size ≤ s'.prioQueue.size ∧
      filled s'.freeRing + filled s'.txRing + (clientsHeld s'.clients).card ≤
        filled s.freeRing + filled s.txRing + (clientsHeld s.clients).card := by
  have hinv := socketInv_run hstart hrun
  have hinit : KeepsQueued s.prioQueue.size s := by
    unfold KeepsQueued
    rw [hd]
  have hend : SocketInv (· ∈ socketBuffers) s' ∧ KeepsQueued s.prioQueue.size s' := by
    refine hrun'.always (I := fun t => SocketInv (· ∈ socketBuffers) t ∧
      KeepsQueued s.prioQueue.size t) ⟨hinv, hinit⟩ ?_
    rintro t a t' ⟨ht, hkeeps⟩ hstep
    exact ⟨SocketInv.step t a t' ht hstep, (socketStep_effect ht hstep).keepsQueued hkeeps⟩
  have hsize : s.prioQueue.size ≤ s'.prioQueue.size := by
    have hkeeps := hend.2
    unfold KeepsQueued at hkeeps
    rw [hd'] at hkeeps
    exact hkeeps
  refine ⟨hsize, ?_⟩
  have htotal := hinv.total
  have htotal' := hend.1.total
  simp only [State.inUse, hd, hd', Daemon.held, Multiset.card_add, Multiset.card_zero,
    card_scheduled] at htotal htotal'
  omega

/-- A client sends a packet for time `0`, and the daemon looks at it when the clock shows `now`. -/
def socketRound (now : Int64) : List (Act Unit) :=
  [.take () blankReq, .fill (), .put (), .dequeue, .insert, .schedule now]

/-- A packet that is not due at the clock `-10000` is queued, and the daemon polls. -/
theorem exists_socket_queued :
    ∃ (s₀ s : State Unit) (tr : List (State Unit × Act Unit)),
      socketStart (fun _ => 0) (fun _ => blankMetadata) (fun _ => ⟨0, 0⟩) = some s₀ ∧
        Run socketStep s₀ tr s ∧ s.daemon = .top ∧ filled s.txRing = 0 ∧ s.prioQueue.size = 1 ∧
        (∃ t, exec socketStep s (socketRound 1 ++ [.recycle]) = some t ∧ t.daemon = .top) ∧
        ∃ t, exec socketStep s [.dequeue, .dequeue] = some t := by
  have hexec : (exec socketStep (socketStarted (fun _ => 0) (fun _ => blankMetadata) fun _ => ⟨0, 0⟩)
      (socketRound (-10000))).map (fun s => (s.daemon, filled s.txRing, s.prioQueue.size,
        (exec socketStep s (socketRound 1 ++ [.recycle])).map State.daemon,
        (exec socketStep s [.dequeue, .dequeue]).map State.daemon)) =
      some (.top, 0, 1, some .top, some .top) := by
    decide +kernel
  obtain ⟨s, hs, hobs⟩ := Option.map_eq_some_iff.mp hexec
  simp only [Prod.mk.injEq, Option.map_eq_some_iff] at hobs
  obtain ⟨hd, htx, hsize, hround, t, ht, -⟩ := hobs
  obtain ⟨tr, hrun, -⟩ := Run.of_exec hs
  exact ⟨_, s, tr, socketStart_eq _ _ _, hrun, hd, htx, hsize, hround, t, ht⟩

/-- A second packet, which is due, takes the place of the first one. -/
theorem socket_queue_never_shrinks_round :
    ∃ (s s' : State Unit) (tr : List (State Unit × Act Unit)),
      s.prioQueue.size = 1 ∧ Run socketStep s tr s' ∧
        tr.map Prod.snd = socketRound 1 ++ [.recycle] ∧ 1 ≤ s'.prioQueue.size := by
  obtain ⟨s₀, s, tr, hstart, hrun, hd, -, hsize, ⟨t, ht, hd'⟩, -⟩ := exists_socket_queued
  obtain ⟨tr', hrun', hacts⟩ := Run.of_exec ht
  have hle := (socket_queue_never_shrinks hstart hrun hd hrun' hd').1
  rw [hsize] at hle
  exact ⟨s, t, tr', hsize, hrun', hacts, hle⟩

/-- The daemon at the top of its loop with nothing on the tx ring. -/
structure Polling (q : KtPrioQueue) (s : State ι) : Prop where
  daemon : s.daemon = .top
  tx : filled s.txRing = 0
  queue : s.prioQueue = q

/-- Only the `put` of a client ends this. -/
theorem SocketEffect.polling (h : SocketEffect s a s') {q : KtPrioQueue} (hp : Polling q s)
    (hput : ∀ c, a ≠ .put c) : Polling q s' := by
  have hd := hp.daemon
  cases h with
  | refuse | take | fill => exact ⟨hd, hp.tx, hp.queue⟩
  | put => exact absurd rfl (hput _)
  | poll _ hrb => exact ⟨hd, hrb.filled.trans hp.tx, hp.queue⟩
  | dequeue _ hrb =>
      have hlength := hrb.length
      rw [hp.tx, Nat.min_zero, List.length_cons] at hlength
      exact absurd hlength (Nat.succ_ne_zero _)
  | insert hd' | wait hd' | extract hd' | recycle hd' =>
      rw [hd] at hd'
      cases hd'

/-- **A packet waits for the next one.** From any reachable state in which the daemon is at the top
of its loop and the tx ring is empty, as long as no client puts a new packet on the tx ring the
queue stays as it is, whatever the clock shows and whatever is due. -/
theorem socket_queue_stalls (hstart : socketStart mbufPool metadataPool junk = some s₀)
    (hrun : Run socketStep s₀ tr s) (hd : s.daemon = .top) (htx : filled s.txRing = 0)
    (hrun' : Run socketStep s tr' s') (hput : ∀ p ∈ tr', ∀ c, p.2 ≠ .put c) :
    s'.prioQueue = s.prioQueue ∧ s'.daemon = .top := by
  have hinv := socketInv_run hstart hrun
  have hstep : ∀ (t : State ι) (a : Act ι) (t' : State ι),
      SocketInv (· ∈ socketBuffers) t ∧ Polling s.prioQueue t → (∀ c, a ≠ .put c) →
        socketStep t a = some t' → SocketInv (· ∈ socketBuffers) t' ∧ Polling s.prioQueue t' := by
    rintro t a t' ⟨ht, hp⟩ hnot hs
    exact ⟨SocketInv.step t a t' ht hs, (socketStep_effect ht hs).polling hp hnot⟩
  have hend := hrun'.invariant (I := fun t => SocketInv (· ∈ socketBuffers) t ∧
    Polling s.prioQueue t) ⟨hinv, ⟨hd, htx, rfl⟩⟩ hstep hput
  exact ⟨hend.2.queue, hend.2.daemon⟩

/-- Two polls leave a queued packet where it is. -/
theorem socket_queue_stalls_two :
    ∃ (s s' : State Unit) (tr : List (State Unit × Act Unit)),
      Run socketStep s tr s' ∧ tr.map Prod.snd = [.dequeue, .dequeue] ∧ s'.prioQueue.size = 1 := by
  obtain ⟨s₀, s, tr, hstart, hrun, hd, htx, hsize, -, t, ht⟩ := exists_socket_queued
  obtain ⟨tr', hrun', hacts⟩ := Run.of_exec ht
  have hput : ∀ p ∈ tr', ∀ c, p.2 ≠ .put c := by
    intro p hp c
    have hmem : p.2 ∈ [.dequeue, .dequeue] := hacts ▸ List.mem_map_of_mem hp
    intro heq
    simp [heq] at hmem
  have hqueue := (socket_queue_stalls hstart hrun hd htx hrun' hput).1
  exact ⟨s, t, tr', hrun', hacts, by rw [hqueue, hsize]⟩

end KuberneTSN.Sched
