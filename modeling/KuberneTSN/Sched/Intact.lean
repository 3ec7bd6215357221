import KuberneTSN.Sched.Decision
import KuberneTSN.Sched.Isolation
import KuberneTSN.Sched.Ownership

/-!
# Packets on their way stay as they were put

Exclusive ownership and isolation together: nobody fills a buffer that is on its way, and a message
that fits in its own buffer does not reach another one. So a packet that a client has put on the tx
ring stays as it is until it is sent, and the queue holds it under the transmit time that its
metadata still shows.

* `Intact` — what holds of the packets and of the requests in every state on the way;
* `Intact.step`, `intact_run` — every action keeps it, and so every run does, if the dequeues of the
  daemon fit, the messages fit in a buffer, and transmit times and clock readings are those of an
  `i64` (`SoundStep`);
* `Intact.right_of_taken` — then what the daemon does with a packet is right by its transmit time.
-/

set_option linter.unusedSectionVars false

namespace KuberneTSN.Sched

open Lib KuberneTSN.Ring KuberneTSN.Queue

/-! ## Requests and packets -/

/-- A request that the system can serve: the message fits in a buffer, and the transmit time is not
negative as an `i64`. -/
structure SendReq.Sound (req : SendReq) : Prop where
  length : req.iov0.length ≤ 2048
  txtime : req.txtime.toNat < 2 ^ 63

/-- The transmit time of a sound request is a clock reading that is not negative. -/
theorem SendReq.Sound.toInt64_nonneg {req : SendReq} (h : req.Sound) : 0 ≤ req.txtime.toInt64 := by
  have htxtime := h.txtime
  rw [Int64.le_iff_toInt_le]
  change 0 ≤ req.txtime.toBitVec.toInt
  rw [BitVec.toInt_eq_toNat_of_lt (by rw [UInt64.toNat_toBitVec]; omega)]
  exact Int.natCast_nonneg _

/-- The packet of such a request. -/
structure Packet.Sound (pkt : Packet) : Prop where
  size : pkt.metadata.size.toNat ≤ 2048
  txtime : pkt.metadata.txtime.toNat < 2 ^ 63

/-- The packet that a client makes of its request, over the metadata `m` of an earlier packet. -/
def SendReq.packet (req : SendReq) (m : KtMetadata) : Packet := ⟨req.iov0, req.metadata m⟩

theorem SendReq.Sound.packet {req : SendReq} (h : req.Sound) (m : KtMetadata) :
    (req.packet m).Sound := by
  refine ⟨?_, ?_⟩
  · have hlength := h.length
    rw [SendReq.packet, req.metadata_size, UInt64.toNat_ofNat_of_lt' (lt_of_le_of_lt hlength (by decide))]
    exact hlength
  · rw [SendReq.packet, req.metadata_txtime]
    exact h.txtime

variable {ι : Type} [DecidableEq ι] [Fintype ι] {s s' s₀ : State ι} {a : Act ι} {c : ι} {i : UInt64}
  {req : SendReq} {tr : List (State ι × Act ι)}

/-- The condition on an action, in the state before it: a dequeue of the daemon stays inside the
array of the tx ring, a client has a sound request, and the clock is not negative. -/
structure SoundStep (s : State ι) (a : Act ι) : Prop where
  fits : DequeueFits s a
  req : ∀ c req, a = .take c req → req.Sound
  clock : ∀ now, a = .schedule now → 0 ≤ now

/-! ## The invariant -/

/-- Every buffer has one owner; what is on its way is sound, and in the queue under its own transmit
time; and a client that has filled its buffer finds its own packet there. -/
structure Intact (s : State ι) : Prop where
  inv : Inv s
  nodup : s.owned.Nodup
  flight : ∀ i ∈ s.inFlight, (s.packet i).Sound
  prio : ∀ nd ∈ s.prioQueue.pairs, nd.prio = (s.packet nd.data).metadata.txtime.toInt64
  taken : ∀ c i req, s.clients c = .taken i req → req.Sound
  filled : ∀ c i req, s.clients c = .filled i req → req.Sound ∧ ∃ m, s.packet i = req.packet m

theorem Daemon.unsent_le (d : Daemon) : d.unsent ≤ d.held := by
  cases d with
  | top | insert | transmit => exact le_rfl
  | recycle i => exact Multiset.zero_le _

/-- A buffer that a client holds is not on its way. -/
theorem Intact.not_inFlight (h : Intact s) (hi : i ∈ (s.clients c).held) : i ∉ s.inFlight := by
  obtain ⟨htx, hqueue, hdaemon, -⟩ := not_elsewhere_of_nodup h.nodup hi
  simp only [State.inFlight, Multiset.mem_add, not_or]
  exact ⟨⟨htx, hqueue⟩, fun hmem => hdaemon (Multiset.mem_of_le s.daemon.unsent_le hmem)⟩

theorem mem_inFlight_of_mem_pairs {nd : KtPqNode} (h : nd ∈ s.prioQueue.pairs) :
    nd.data ∈ s.inFlight := by
  simp only [State.inFlight, Multiset.mem_add]
  exact .inl (.inr (Multiset.mem_map_of_mem _ h))

theorem mem_inFlight_of_pending {rest : List UInt64} (h : s.daemon = .insert (i :: rest)) :
    i ∈ s.inFlight := by
  simp only [State.inFlight, Multiset.mem_add, h, Daemon.unsent]
  exact .inr (Multiset.mem_coe.mpr List.mem_cons_self)

/-! ## What an action changes -/

theorem mem_submitted :
    i ∈ submitted (s, a) ↔ ∃ c req, a = .put c ∧ s.clients c = .filled i req := by
  cases a with
  | put c =>
      cases hc : s.clients c with
      | filled j req => simp [submitted, hc, eq_comm]
      | idle | taken => simp [submitted, hc]
  | _ => simp [submitted]

/-- What is on its way after an action was before, or is put by a client now. -/
theorem Effect.mem_inFlight (h : Effect s a s') (hfits : DequeueFits s a) (hinv : Inv s)
    (hi : i ∈ s'.inFlight) :
    i ∈ s.inFlight ∨ ∃ c req, a = .put c ∧ s.clients c = .filled i req := by
  have hbal := h.flight_balance hfits hinv.tx
  have hmem : i ∈ s.inFlight + submitted (s, a) :=
    hbal ▸ Multiset.mem_add.mpr (.inl hi)
  rw [Multiset.mem_add, mem_submitted] at hmem
  exact hmem

/-- A client that holds a buffer after an action did before, or takes it now. -/
theorem Effect.taken_or (h : Effect s a s') (hc : s'.clients c = .taken i req) :
    s.clients c = .taken i req ∨ a = .take c req := by
  cases h with
  | @refuse c' | @take c' | @fill c' | @put c' =>
      dsimp only at hc
      rcases eq_or_ne c c' with rfl | hne
      · rw [Function.update_self] at hc
        cases hc <;> exact .inr rfl
      · rw [Function.update_of_ne hne] at hc
        exact .inl hc
  | dequeue | insert | wait | drop | extract | transmit | recycle => exact .inl hc

/-- A client that has filled its buffer after an action had before, or fills it now. -/
theorem Effect.filled_or (h : Effect s a s') (hc : s'.clients c = .filled i req) :
    s.clients c = .filled i req ∨ a = .fill c ∧ s.clients c = .taken i req := by
  cases h with
  | @refuse c' | @take c' | @put c' =>
      dsimp only at hc
      rcases eq_or_ne c c' with rfl | hne
      · rw [Function.update_self] at hc
        cases hc
      · rw [Function.update_of_ne hne] at hc
        exact .inl hc
  | @fill c' _ _ hold =>
      dsimp only at hc
      rcases eq_or_ne c c' with rfl | hne
      · rw [Function.update_self] at hc
        cases hc
        exact .inr ⟨rfl, hold⟩
      · rw [Function.update_of_ne hne] at hc
        exact .inl hc
  | dequeue | insert | wait | drop | extract | transmit | recycle => exact .inl hc

/-- An action leaves every sound packet as it is, but for that in a buffer that it fills. -/
theorem Intact.packet_eq (h : Intact s) (hs : schedStep s a = some s') {j : UInt64}
    (hsound : (s.packet j).Sound) (hj : ∀ c req, a = .fill c → s.clients c ≠ .taken j req) :
    s'.packet j = s.packet j := by
  refine schedStep_keeps_packet hsound.size ?_ hs
  intro c i req ha hc
  refine ⟨?_, (h.taken c i req hc).length⟩
  rintro rfl
  exact hj c req ha hc

/-- So it does with the packets on their way. -/
theorem Intact.packet_eq_of_flight (h : Intact s) (hs : schedStep s a = some s')
    (hi : i ∈ s.inFlight) : s'.packet i = s.packet i := by
  refine h.packet_eq hs (h.flight i hi) fun c req _ hc => h.not_inFlight (c := c) ?_ hi
  rw [hc]
  exact Multiset.mem_singleton_self i

/-- And with the packet of a client that has filled its buffer. -/
theorem Intact.packet_eq_of_filled (h : Intact s) (hs : schedStep s a = some s')
    (hc : s.clients c = .filled i req) : s'.packet i = s.packet i := by
  obtain ⟨hreq, m, hpacket⟩ := h.filled c i req hc
  refine h.packet_eq hs (hpacket ▸ hreq.packet m) fun c' req' _ hc' => ?_
  have hheld : i ∈ (s.clients c).held := by
    rw [hc]
    exact Multiset.mem_singleton_self i
  have hne : c' ≠ c := by
    rintro rfl
    exact absurd (hc.symm.trans hc') (by simp)
  refine (not_elsewhere_of_nodup h.nodup hheld).2.2.2 c' hne ?_
  rw [hc']
  exact Multiset.mem_singleton_self i

/-- A client that fills its buffer finds its own packet there. -/
theorem packet_of_fill (hreq : req.Sound) (hc : s.clients c = .taken i req)
    (hs : schedStep s (.fill c) = some s') :
    s'.packet i = req.packet (s.metadataPool i.toNat) := by
  obtain rfl := clientFill_eq_some hc hs
  have hlength := hreq.length
  exact packet_of_filled (by omega) rfl (Function.update_self _ _ _)

/-! ## Steps and runs -/

/-- **Every action keeps the packets intact.** -/
theorem Intact.step (h : Intact s) (hok : SoundStep s a) (hs : schedStep s a = some s') :
    Intact s' := by
  have heffect := schedStep_effect h.inv hs
  refine ⟨inv_step s a s' h.inv hs, ?_, ?_, ?_, ?_, ?_⟩
  · have hbal := heffect.owned_balance_of_fits hok.fits h.inv.tx
    exact Multiset.nodup_of_le (hbal ▸ Multiset.le_add_right _ _) h.nodup
  · intro i hi
    rcases heffect.mem_inFlight hok.fits h.inv hi with hold | ⟨c, req, rfl, hc⟩
    · rw [h.packet_eq_of_flight hs hold]
      exact h.flight i hold
    · obtain ⟨hreq, m, hpacket⟩ := h.filled c i req hc
      rw [h.packet_eq_of_filled hs hc, hpacket]
      exact hreq.packet m
  · intro nd hnd
    rcases heffect.mem_pairs hnd with hold | ⟨rest, -, hd, htime⟩
    · rw [h.packet_eq_of_flight hs (mem_inFlight_of_mem_pairs hold)]
      exact h.prio nd hold
    · rw [h.packet_eq_of_flight hs (mem_inFlight_of_pending hd)]
      exact (Int64.toInt64_toUInt64 nd.prio).symm.trans (congrArg UInt64.toInt64 htime)
  · intro c i req hc
    rcases heffect.taken_or hc with hold | rfl
    · exact h.taken c i req hold
    · exact hok.req c req rfl
  · intro c i req hc
    rcases heffect.filled_or hc with hold | ⟨rfl, hold⟩
    · rw [h.packet_eq_of_filled hs hold]
      exact h.filled c i req hold
    · have hreq := h.taken c i req hold
      exact ⟨hreq, _, packet_of_fill hreq hold hs⟩

/-- After start-up nothing is on its way. -/
theorem Started.inFlight_eq (h : Started s₀) : s₀.inFlight = 0 := by
  simp only [State.inFlight, h.tx.contents_eq_nil, h.scheduled_eq, h.daemon, Daemon.unsent,
    Multiset.coe_nil, add_zero]

/-- Start-up establishes the invariant. -/
theorem Started.intact (h : Started s₀) : Intact s₀ := by
  refine ⟨h.inv, ?_, ?_, ?_, ?_, ?_⟩
  · rw [h.owned_eq]
    exact Multiset.coe_nodup.mpr nodup_start
  · intro i hi
    rw [h.inFlight_eq] at hi
    exact absurd hi (Multiset.notMem_zero i)
  · intro nd hnd
    have hflight := mem_inFlight_of_mem_pairs hnd
    rw [h.inFlight_eq] at hflight
    exact absurd hflight (Multiset.notMem_zero _)
  · intro c i req hc
    exact absurd (hc.symm.trans (h.clients c)) (by simp)
  · intro c i req hc
    exact absurd (hc.symm.trans (h.clients c)) (by simp)

/-- **Packets are intact in every reachable state.** -/
theorem intact_run (h : Started s₀) (hrun : Run schedStep s₀ tr s)
    (hok : ∀ p ∈ tr, SoundStep p.1 p.2) : Intact s :=
  hrun.invariant h.intact (fun _ _ _ hintact hstep hs => hintact.step hstep hs) hok

/-! ## Decisions -/

/-- What the daemon does with the first packet is right by the transmit time of that packet. -/
theorem Intact.right_of_taken (h : Intact s) (hd : s.daemon = .insert [])
    (hpos : 0 < s.prioQueue.size) {now : Int64} (hnow : 0 ≤ now)
    (hs : schedStep s (.schedule now) = some s') {d : Decision} (htaken : d.Taken s s') :
    d.Right now.toInt (s.packet (s.prioQueue.elems 0).data).metadata.txtime.toNat := by
  have hhead : s.prioQueue.elems 0 ∈ s.prioQueue.pairs := by
    obtain ⟨q, -, -, -, hpairs⟩ := ktPrioQueueExtractMin_removes hpos
      (h.inv.queue_le.trans (by decide)) none
    rw [hpairs]
    exact Multiset.mem_cons_self _ _
  have htime : txtimeOf (s.prioQueue.elems 0) =
      (s.packet (s.prioQueue.elems 0).data).metadata.txtime := by
    rw [txtimeOf, h.prio _ hhead, UInt64.toUInt64_toInt64]
  have hsound := (h.flight _ (mem_inFlight_of_mem_pairs hhead)).txtime
  have hle := h.inv.queue_le
  have hnat : 0 ≤ now.toInt := Int64.le_iff_toInt_le.mp hnow
  have hexact : ExactDecision s now (txtimeOf (s.prioQueue.elems 0)) := by
    rw [exactDecision_iff hd hpos (by omega) hnow, htime]
    omega
  rw [← htime]
  exact (exactDecision_iff_right hs htaken).mp hexact

end KuberneTSN.Sched
