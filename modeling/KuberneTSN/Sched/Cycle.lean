import KuberneTSN.Sched.Tokens

/-!
# One packet, from `sendmsg` to the wire

* `send_run` — a client that finds a free buffer can run its `sendmsg` to the end;
* `fetch_run` — a daemon at the top of its loop, with one index on the tx ring and nothing in its
  queue, can move the packet into the queue;
* `transmit_run`, `drop_run` — a packet that is due is sent, and its buffer is free again; one that
  is late is dropped, and its buffer is not;
* `Ready.queued_run` — the first two, from a state at rest;
* `Ready.cycle` — so, from a state at rest, a packet that is due makes the whole way and leaves a
  state at rest, with its buffer at the end of the free ring.
-/

set_option linter.unusedSectionVars false

namespace KuberneTSN.Sched

open Lib KuberneTSN.Ring KuberneTSN.Queue

variable {ι : Type} [DecidableEq ι] [Fintype ι] {s s' : State ι} {c : ι} {i : UInt64} {req : SendReq}

/-- What a complete `sendmsg` of client `c`, with the buffer `i`, leaves. -/
structure SentBy (s s' : State ι) (c : ι) (req : SendReq) (i : UInt64) : Prop where
  inv : Inv s'
  free : contents s.freeRing = i :: contents s'.freeRing
  tx : Appended 7 s.txRing s'.txRing i
  queue : s'.prioQueue = s.prioQueue
  metadata : s'.metadataPool i.toNat = req.metadata (s.metadataPool i.toNat)
  client : s'.clients c = .idle (some req.iov0.length)
  daemon : s'.daemon = s.daemon

/-- A client that finds a free buffer can run its `sendmsg` to the end. -/
theorem send_run (hinv : Inv s) {ret : Option ℤ} (hc : s.clients c = .idle ret)
    (hfree : contents s.freeRing ≠ []) (req : SendReq) :
    ∃ tr s' i, Run schedStep s tr s' ∧
      tr.map Prod.snd = [.take c req, .fill c, .put c] ∧ SentBy s s' c req i := by
  obtain ⟨s₁, h₁, heffect₁⟩ := schedStep_take hinv hc req
  have hinv₁ := inv_step _ _ _ hinv h₁
  cases heffect₁ with
  | refuse _ hempty _ => exact absurd hempty hfree
  | @take _ _ _ rb i _ hi hrb =>
      have h₂ := schedStep_fill (s := { s with
        freeRing := rb
        clients := Function.update s.clients c (.taken i req) }) (Function.update_self c _ _)
      have hinv₂ := inv_step _ _ _ hinv₁ h₂
      have hc₂ : Function.update (Function.update s.clients c (.taken i req)) c (.filled i req) c =
          .filled i req := Function.update_self _ _ _
      obtain ⟨rb₃, hrb₃, h₃⟩ := schedStep_put hinv₂ hc₂
      refine ⟨_, _, i, ((Run.one h₁).append (Run.one h₂)).append (Run.one h₃), rfl, ?_⟩
      exact ⟨inv_step _ _ _ hinv₂ h₃, hi, hrb₃, rfl, Function.update_self _ _ _,
        Function.update_self _ _ _, rfl⟩

/-- What the daemon leaves when it has moved the only index `i` on the tx ring into its queue. -/
structure Fetched (s s' : State ι) (n : ℕ) (i : UInt64) : Prop where
  inv : Inv s'
  free : s'.freeRing = s.freeRing
  tx : RingAt s'.txRing 7 (n + 1) (n + 1)
  slots : s'.txRing.slots = s.txRing.slots
  size : s'.prioQueue.size = 1
  head : s'.prioQueue.elems 0 = ⟨(s.metadataPool i.toNat).txtime.toInt64, i⟩
  clients : s'.clients = s.clients
  daemon : s'.daemon = .insert []

/-- The head of a queue of one element. -/
theorem elems_zero_of_pairs {q : KtPrioQueue} {nd : KtPqNode} (hsize : q.size = 1)
    (hq : q.pairs = {nd}) : q.elems 0 = nd := by
  rw [KtPrioQueue.pairs, hsize] at hq
  exact Multiset.singleton_inj.mp hq

/-- A daemon at the top of its loop, with one index on the tx ring and nothing in its queue, can
move the packet into the queue. -/
theorem fetch_run (hinv : Inv s) (hd : s.daemon = .top) {n : ℕ} (htx : RingAt s.txRing 7 (n + 1) n)
    (hi : contents s.txRing = [i]) (hsize : s.prioQueue.size = 0) :
    ∃ tr s', Run schedStep s tr s' ∧ tr.map Prod.snd = [.dequeue, .insert] ∧ Fetched s s' n i := by
  obtain ⟨rb, got, hrb, h₁⟩ := schedStep_dequeue hinv hd
  have hinv₁ := inv_step _ _ _ hinv h₁
  have hone : got.length = 1 := hrb.length.trans (by rw [hi]; rfl)
  have hslot : n % 2 ^ 7 < 2 ^ 7 := Nat.mod_lt _ (by decide)
  have hgot : got = [i] := by
    rw [hrb.eq_take htx (by rw [hone]; exact hslot), hi, hone]
    rfl
  subst hgot
  obtain ⟨q, -, hqsize, hq, h₂⟩ := schedStep_insert hinv₁
    (show Daemon.insert [i] = .insert [i] from rfl)
  have hpairs : s.prioQueue.pairs = 0 := by
    rw [KtPrioQueue.pairs, hsize]
    rfl
  refine ⟨_, _, (Run.one h₁).append (Run.one h₂), rfl, ?_⟩
  refine ⟨inv_step _ _ _ hinv₁ h₂, rfl, hrb.at_rest _ _ htx, hrb.slots, ?_, ?_, rfl, rfl⟩
  · exact hqsize.trans (by rw [hsize])
  · refine elems_zero_of_pairs (hqsize.trans (by rw [hsize])) (hq.trans ?_)
    rw [hpairs]
    rfl

/-- What the daemon leaves when it has sent the packet at the head of its queue. -/
structure Transmitted (s s' : State ι) : Prop where
  inv : Inv s'
  free : Appended 7 s.freeRing s'.freeRing (s.prioQueue.elems 0).data
  tx : s'.txRing = s.txRing
  size : s'.prioQueue.size + 1 = s.prioQueue.size
  clients : s'.clients = s.clients
  daemon : s'.daemon = .top
  wire : s'.wire = s.wire ++ [s.packet (s.prioQueue.elems 0).data]

/-- A packet that is due is sent, and its buffer is free again. -/
theorem transmit_run (hinv : Inv s) (hd : s.daemon = .insert []) (hsize : s.prioQueue.size ≠ 0)
    (now : Int64) (hwait : ¬ txDeltaNs < ktGetTimeDiffNs now (ktPrioQueueGetmin s.prioQueue))
    (hlate : ¬ Late s now) :
    ∃ tr s', Run schedStep s tr s' ∧ tr.map Prod.snd = [.schedule now, .transmit, .recycle] ∧
      Transmitted s s' := by
  obtain ⟨s₁, h₁, heffect₁⟩ := schedStep_schedule hinv hd now
  have hinv₁ := inv_step _ _ _ hinv h₁
  cases heffect₁ with
  | wait _ _ hnone => exact absurd hnone (not_or.mpr ⟨hsize, hwait⟩)
  | drop _ hlate' => exact absurd hlate' hlate
  | @extract _ q _ _ _ hqsize _ =>
      have h₂ := schedStep_transmit (s := { s with
        prioQueue := q
        daemon := .transmit (s.prioQueue.elems 0).data }) rfl
      have hinv₂ := inv_step _ _ _ hinv₁ h₂
      obtain ⟨rb, hrb, h₃⟩ := schedStep_recycle hinv₂ rfl
      refine ⟨_, _, ((Run.one h₁).append (Run.one h₂)).append (Run.one h₃), rfl, ?_⟩
      exact ⟨inv_step _ _ _ hinv₂ h₃, hrb, rfl, hqsize, rfl, rfl, rfl⟩

/-- What the daemon leaves when it has dropped the packet at the head of its queue. -/
structure Dropped (s s' : State ι) : Prop where
  free : s'.freeRing = s.freeRing
  tx : s'.txRing = s.txRing
  size : s'.prioQueue.size + 1 = s.prioQueue.size
  clients : s'.clients = s.clients
  daemon : s'.daemon = .top

/-- A packet that is late is dropped, and its buffer goes nowhere. -/
theorem drop_run (hinv : Inv s) (hd : s.daemon = .insert []) {now : Int64} (hlate : Late s now) :
    ∃ tr s', Run schedStep s tr s' ∧ tr.map Prod.snd = [.schedule now] ∧ Dropped s s' := by
  obtain ⟨s₁, h₁, heffect⟩ := schedStep_schedule hinv hd now
  refine ⟨_, s₁, Run.one h₁, rfl, ?_⟩
  cases heffect with
  | wait _ hnot _ => exact absurd hlate hnot
  | drop _ _ _ hqsize _ => exact ⟨rfl, rfl, hqsize, rfl, rfl⟩
  | extract _ hnot => exact absurd hlate hnot

/-- A state at rest: `n` packets have passed through the tx ring, and nothing was ever written
behind its array; the queue is empty, client `c` is outside `sendmsg`, and the daemon at the top of
its loop. -/
structure Ready (s : State ι) (c : ι) (n : ℕ) (q : List UInt64) : Prop where
  inv : Inv s
  free : contents s.freeRing = q
  tx : RingAt s.txRing 7 n n
  behind : ∀ k, 2 ^ 7 ≤ k → s.txRing.slots k = 0
  size : s.prioQueue.size = 0
  client : ∃ ret, s.clients c = .idle ret
  daemon : s.daemon = .top

/-- Start-up leaves a state at rest. -/
theorem Started.ready (h : Started s) (c : ι) :
    Ready s c 0 ((List.range 127).map UInt64.ofNat) :=
  ⟨h.inv, h.free_contents, h.tx, fun k _ => h.tx_slots k, h.size, ⟨none, h.clients c⟩, h.daemon⟩

/-- From a state at rest, a packet gets into the queue of the daemon. -/
theorem Ready.queued_run {n : ℕ} {rest : List UInt64} (h : Ready s c n (i :: rest)) (req : SendReq) :
    ∃ tr s₁ s₂, Run schedStep s tr s₂ ∧
      tr.map Prod.snd = [.take c req, .fill c, .put c, .dequeue, .insert] ∧
      SentBy s s₁ c req i ∧ Fetched s₁ s₂ n i := by
  obtain ⟨ret, hc⟩ := h.client
  obtain ⟨tr₁, s₁, j, hrun₁, hacts₁, hsent⟩ := send_run h.inv hc (by rw [h.free]; exact nofun) req
  obtain rfl : i = j := (List.cons_eq_cons.mp (h.free.symm.trans hsent.free)).1
  have htx₁ : contents s₁.txRing = [i] := by
    rw [hsent.tx.contents_eq, h.tx.contents_eq_nil]
    rfl
  obtain ⟨tr₂, s₂, hrun₂, hacts₂, hfetched⟩ := fetch_run hsent.inv (hsent.daemon.trans h.daemon)
    (hsent.tx.at_rest _ _ h.tx) htx₁ (by rw [hsent.queue]; exact h.size)
  refine ⟨_, s₁, s₂, hrun₁.append hrun₂, ?_, hsent, hfetched⟩
  rw [List.map_append, hacts₁, hacts₂]
  rfl

/-- **A packet makes its way** from `sendmsg` to the wire, if the daemon looks at its queue when the
packet is due. -/
theorem Ready.cycle {n : ℕ} {rest : List UInt64} (h : Ready s c n (i :: rest)) (req : SendReq) :
    ∃ tr s', Run schedStep s tr s' ∧
      tr.map Prod.snd = [.take c req, .fill c, .put c, .dequeue, .insert,
        .schedule req.txtime.toInt64, .transmit, .recycle] ∧
      Ready s' c (n + 1) (rest ++ [i]) := by
  obtain ⟨tr₂, s₁, s₂, hrun₂, hacts₂, hsent, hfetched⟩ := h.queued_run req
  have hrest : rest = contents s₁.freeRing := (List.cons_eq_cons.mp (h.free.symm.trans hsent.free)).2
  -- the clock shows the transmit time, so that the difference is zero
  have hdiff : ktGetTimeDiffNs req.txtime.toInt64 (ktPrioQueueGetmin s₂.prioQueue) = 0 := by
    rw [ktPrioQueueGetmin, hfetched.head, hsent.metadata, req.metadata_txtime]
    exact Int64.sub_self _
  obtain ⟨tr₃, s₃, hrun₃, hacts₃, htransmitted⟩ := transmit_run hfetched.inv hfetched.daemon
    (by rw [hfetched.size]; exact one_ne_zero) req.txtime.toInt64
    (by rw [hdiff]; decide) (fun hlate => absurd hlate.2 (by rw [hdiff]; decide))
  refine ⟨_, s₃, hrun₂.append hrun₃, by rw [List.map_append, hacts₂, hacts₃]; rfl, ?_⟩
  refine ⟨htransmitted.inv, ?_, ?_, fun k hk => ?_, ?_, ?_, htransmitted.daemon⟩
  · rw [htransmitted.free.contents_eq, hfetched.free, hfetched.head, ← hrest]
  · rw [htransmitted.tx]
    exact hfetched.tx
  · rw [htransmitted.tx, hfetched.slots, hsent.tx.behind k hk]
    exact h.behind k hk
  · have hsize := htransmitted.size
    rw [hfetched.size] at hsize
    omega
  · rw [htransmitted.clients, hfetched.clients]
    exact ⟨_, hsent.client⟩

/-- Any number of packets makes its way, one after the other; the buffers rotate. -/
theorem Ready.cycles {n : ℕ} {q : List UInt64} (h : Ready s c n q) (hq : q ≠ []) (req : SendReq)
    (m : ℕ) :
    ∃ tr s', Run schedStep s tr s' ∧ Ready s' c (n + m) (q.rotate m) := by
  induction m with
  | zero => exact ⟨[], s, .nil, by rwa [List.rotate_zero]⟩
  | succ m ih =>
      obtain ⟨tr, s', hrun, hready⟩ := ih
      cases hrot : q.rotate m with
      | nil => exact absurd (List.rotate_eq_nil_iff.mp hrot) hq
      | cons i rest =>
          rw [hrot] at hready
          obtain ⟨tr', s'', hrun', -, hready'⟩ := hready.cycle req
          have hnext : q.rotate (m + 1) = rest ++ [i] := by
            rw [← List.rotate_rotate, hrot, List.rotate_cons_succ, List.rotate_zero]
          rw [← hnext] at hready'
          exact ⟨_, s'', hrun.append hrun', hready'⟩

end KuberneTSN.Sched
