import KuberneTSN.Sched.Cycle

/-!
# The pool of buffers

* `ignored_codes_never_fail` — the return codes that the system ignores never signal failure;
* `buffers_conserved_iff_none_late` — the pool is complete between calls exactly when no packet was
  dropped as late;
* `late_packet_leaks_buffer` — one late packet is enough to lose a buffer.
-/

set_option linter.unusedSectionVars false

namespace KuberneTSN.Sched

open Lib KuberneTSN.Ring KuberneTSN.Queue

variable {ι : Type} [DecidableEq ι] [Fintype ι] {s₀ s : State ι} {tr : List (State ι × Act ι)}

/-- The metadata in fresh memory. -/
def blankMetadata : KtMetadata where
  transport := .ethernet
  txtime := 0
  ethSrc := #v[0, 0, 0, 0, 0, 0]
  ethDst := #v[0, 0, 0, 0, 0, 0]
  ipSrc := 0
  ipDst := 0
  udpDport := 0
  size := 0

/-- A packet without payload, to be sent at time `0`. -/
def blankReq : SendReq where
  path := .packet
  interface := ⟨0, #v[0, 0, 0, 0, 0, 0]⟩
  iov0 := []
  txtime := 0

/-- A start-up with one client. -/
theorem exists_start_one : ∃ s₀ : State Unit,
    ktsndStart (fun _ => 0) (fun _ => blankMetadata) (fun _ => ⟨0, 0⟩) = some s₀ ∧ Started s₀ :=
  ktsndStart_spec _ _ _

/-- **The return codes that the system ignores never signal failure.** In every reachable state
there are at most 127 indices in the two rings, in the queue and with the parties; the enqueue of a
client on the tx ring accepts its index, the insertions of the daemon succeed, and its enqueue on
the free ring accepts its index. -/
theorem ignored_codes_never_fail {mbufPool : ℕ → UInt8} {metadataPool : ℕ → KtMetadata}
    {junk : ℕ → KtPqNode} (hstart : ktsndStart mbufPool metadataPool junk = some s₀)
    (hrun : Run schedStep s₀ tr s) :
    (ktRingbufCount s.freeRing).toNat + (ktRingbufCount s.txRing).toNat + s.prioQueue.size +
        (clientsHeld s.clients).card + s.daemon.held.card ≤ 127 ∧
      (∀ c i req, s.clients c = .filled i req →
        ∃ r, ktRingbufEnqueueBurst s.txRing (fun _ => i) 8 1 = .ok r ∧ r.n = 1) ∧
      (∀ i rest, s.daemon = .insert (i :: rest) →
        ∃ q, ktPrioQueueInsert s.prioQueue (s.metadataPool i.toNat).txtime.toInt64 i =
          some (0, q)) ∧
      ∀ i, s.daemon = .recycle i →
        ∃ r, ktRingbufEnqueueBurst s.freeRing (fun _ => i) 8 1 = .ok r ∧ r.n = 1 := by
  have hinv := inv_run (started_of_start hstart) hrun
  refine ⟨?_, ?_, ?_, ?_⟩
  · rw [← length_contents, ← length_contents, ← card_owned]
    exact hinv.total
  · intro c i req hc
    obtain ⟨P, C, hat⟩ := hinv.tx
    obtain ⟨r, hr, hn, -⟩ := hat.enqueue_one (hinv.tx_room hc) i
    exact ⟨r, hr, hn⟩
  · intro i rest hd
    have hroom := hinv.queue_room hd
    have hcap := hinv.cap
    obtain ⟨q, hq, -⟩ := ktPrioQueueInsert_spec (q := s.prioQueue) (by omega) (by omega)
      (s.metadataPool i.toNat).txtime.toInt64 i
    exact ⟨q, hq⟩
  · intro i hd
    obtain ⟨P, C, hat⟩ := hinv.free
    obtain ⟨r, hr, hn, -⟩ := hat.enqueue_one (hinv.free_room hd) i
    exact ⟨r, hr, hn⟩

/-- A start-up with one client, which sends a packet. -/
theorem ignored_codes_never_fail_one :
    ∃ (s₀ s : State Unit) (tr : List (State Unit × Act Unit)),
      ktsndStart (fun _ => 0) (fun _ => blankMetadata) (fun _ => ⟨0, 0⟩) = some s₀ ∧
        Run schedStep s₀ tr s ∧ tr.map Prod.snd = [.take () blankReq, .fill (), .put ()] ∧
        (ktRingbufCount s.freeRing).toNat + (ktRingbufCount s.txRing).toNat + s.prioQueue.size +
          (clientsHeld s.clients).card + s.daemon.held.card ≤ 127 := by
  obtain ⟨s₀, hstart, hstarted⟩ := exists_start_one
  obtain ⟨tr, s, i, hrun, hacts, -⟩ := send_run hstarted.inv (hstarted.clients ())
    (by rw [hstarted.free_contents]; exact nofun) blankReq
  exact ⟨s₀, s, tr, hstart, hrun, hacts, (ignored_codes_never_fail hstart hrun).1⟩

/-- The packets dropped in a run. -/
theorem sum_dropped_eq_zero_iff :
    (tr.map fun p => (dropped p).card).sum = 0 ↔
      ∀ p ∈ tr, ∀ now, p.2 = .schedule now → ¬ Late p.1 now := by
  rw [List.sum_eq_zero_iff, List.forall_mem_map]
  refine forall₂_congr fun p _ => ?_
  obtain ⟨s, a⟩ := p
  constructor
  · rintro hzero now rfl hlate
    simp [dropped, hlate] at hzero
  · intro hnot
    cases a with
    | schedule now => simp [dropped, hnot now rfl]
    | _ => rfl

/-- **The pool is complete between calls exactly when no packet was late.** In every reachable
state in which no client is inside `sendmsg` and the daemon is between two iterations, the free
ring, the tx ring and the queue have the 127 indices of start-up between them if and only if no
action of the run found the head of the queue late. -/
theorem buffers_conserved_iff_none_late {mbufPool : ℕ → UInt8} {metadataPool : ℕ → KtMetadata}
    {junk : ℕ → KtPqNode} (hstart : ktsndStart mbufPool metadataPool junk = some s₀)
    (hrun : Run schedStep s₀ tr s) (hclients : ∀ c, ∃ ret, s.clients c = .idle ret)
    (hdaemon : s.daemon = .top) :
    (ktRingbufCount s.freeRing).toNat + (ktRingbufCount s.txRing).toNat + s.prioQueue.size = 127 ↔
      ∀ p ∈ tr, ∀ now, p.2 = .schedule now → ¬ Late p.1 now := by
  have hheld := clientsHeld_of_idle hclients
  have hbal := run_card_balance (started_of_start hstart) hrun
  rw [card_owned, hheld, hdaemon, Daemon.held, Multiset.card_zero, length_contents,
    length_contents] at hbal
  rw [← sum_dropped_eq_zero_iff]
  omega

/-- One packet that is sent when it is due, and whose index goes back on the free ring: no action
found it late, and the pool is complete. -/
theorem buffers_conserved_iff_none_late_one :
    ∃ (s₀ s : State Unit) (tr : List (State Unit × Act Unit)),
      ktsndStart (fun _ => 0) (fun _ => blankMetadata) (fun _ => ⟨0, 0⟩) = some s₀ ∧
        Run schedStep s₀ tr s ∧
        tr.map Prod.snd = [.take () blankReq, .fill (), .put (), .dequeue, .insert, .schedule 0,
          .transmit, .recycle] ∧
        (ktRingbufCount s.freeRing).toNat + (ktRingbufCount s.txRing).toNat + s.prioQueue.size =
          127 ∧
        ∀ p ∈ tr, ∀ now, p.2 = .schedule now → ¬ Late p.1 now := by
  obtain ⟨s₀, hstart, hstarted⟩ := exists_start_one
  have hready₀ := hstarted.ready ()
  have hlength : ((List.range 127).map UInt64.ofNat).length = 127 := by
    rw [List.length_map, List.length_range]
  obtain ⟨i, rest, hfree⟩ := List.exists_cons_of_length_eq_add_one hlength
  rw [hfree] at hready₀ hlength
  obtain ⟨tr, s, hrun, hacts, hready⟩ := hready₀.cycle blankReq
  have hcount : (ktRingbufCount s.freeRing).toNat + (ktRingbufCount s.txRing).toNat +
      s.prioQueue.size = 127 := by
    rw [← length_contents, ← length_contents, hready.free, hready.tx.contents_eq_nil, hready.size,
      List.length_append, List.length_singleton]
    exact hlength
  refine ⟨s₀, s, tr, hstart, hrun, hacts, hcount, ?_⟩
  exact (buffers_conserved_iff_none_late hstart hrun (fun _ => hready.client) hready.daemon).mp
    hcount

/-- One packet that the daemon looks at after its transmit time, `0`, when the clock shows `1`: the
pool is left with 126 of its 127 buffers. -/
theorem late_packet_leaks_buffer :
    ∃ (s₀ s : State Unit) (tr : List (State Unit × Act Unit)),
      ktsndStart (fun _ => 0) (fun _ => blankMetadata) (fun _ => ⟨0, 0⟩) = some s₀ ∧
        Run schedStep s₀ tr s ∧
        tr.map Prod.snd =
          [.take () blankReq, .fill (), .put (), .dequeue, .insert, .schedule 1] ∧
        (∃ ret, s.clients () = .idle ret) ∧ s.daemon = .top ∧
        (ktRingbufCount s.freeRing).toNat + (ktRingbufCount s.txRing).toNat + s.prioQueue.size =
          126 := by
  obtain ⟨s₀, hstart, hstarted⟩ := exists_start_one
  obtain ⟨tr₂, s₁, s₂, hrun₂, hacts₂, hsent, hfetched⟩ := (hstarted.ready ()).queued_run blankReq
  have hhead : ktPrioQueueGetmin s₂.prioQueue = 0 := by
    rw [ktPrioQueueGetmin, hfetched.head, hsent.metadata]
    rfl
  have hlate : Late s₂ 1 := by
    refine ⟨by rw [hfetched.size]; exact one_ne_zero, ?_⟩
    rw [hhead]
    decide
  obtain ⟨tr₃, s₃, hrun₃, hacts₃, hdropped⟩ := drop_run hfetched.inv hfetched.daemon hlate
  refine ⟨s₀, s₃, _, hstart, hrun₂.append hrun₃, ?_, ?_, hdropped.daemon, ?_⟩
  · rw [List.map_append, hacts₂, hacts₃]
    rfl
  · rw [hdropped.clients, hfetched.clients]
    exact ⟨_, hsent.client⟩
  · have hfree := congrArg List.length hsent.free
    rw [hstarted.free_contents, List.length_map, List.length_range, List.length_cons] at hfree
    have hsize := hdropped.size
    rw [hfetched.size] at hsize
    rw [hdropped.free, hfetched.free, hdropped.tx, ← length_contents, ← length_contents,
      hfetched.tx.contents_eq_nil, List.length_nil]
    omega

end KuberneTSN.Sched
