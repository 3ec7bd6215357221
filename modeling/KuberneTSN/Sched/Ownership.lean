import KuberneTSN.Sched.Pool

/-!
# Exclusive ownership of the buffers

A dequeue of the daemon that crosses the end of the tx ring hands out indices that were never put
there. As long as none does:

* `run_owned_balance` — the indices in the system and those dropped are the 127 of start-up, so
  that none occurs twice;
* `run_flight_balance` — the indices put on the tx ring are those on the way and those sent or
  dropped;
* `exclusive_ownership` — so every buffer has one owner in every reachable state, no client fills a
  buffer that is on its way, and no buffer is sent more often than it was put on the tx ring;
* `Ready.straddle`, `straddling_dequeue_duplicates` — what a dequeue across the end does, and a run
  with one.
-/

set_option linter.unusedSectionVars false

namespace KuberneTSN.Sched

open Lib KuberneTSN.Ring KuberneTSN.Queue

variable {ι : Type} [DecidableEq ι] [Fintype ι] {s₀ s s' : State ι} {a : Act ι}
  {tr : List (State ι × Act ι)}

/-- The condition on an action, in the state before it: a dequeue of the daemon stays inside the
array of the tx ring. -/
def DequeueFits (s : State ι) (a : Act ι) : Prop := a = .dequeue → TxFits s

instance (s : State ι) (a : Act ι) : Decidable (DequeueFits s a) :=
  inferInstanceAs (Decidable (_ → _))

/-! ## Packets on the way -/

/-- The indices with the daemon whose packets are not sent yet. -/
def Daemon.unsent : Daemon → Multiset UInt64
  | .top => 0
  | .insert pending => pending
  | .transmit i => {i}
  | .recycle _ => 0

/-- The indices whose packets wait to be sent. -/
def State.inFlight (s : State ι) : Multiset UInt64 :=
  contents s.txRing + scheduled s.prioQueue + s.daemon.unsent

/-- The index that a client puts on the tx ring. -/
def submitted : State ι × Act ι → Multiset UInt64
  | (s, .put c) =>
      match s.clients c with
      | .filled i _ => {i}
      | _ => 0
  | _ => 0

/-- The index of the packet that the daemon sends. -/
def transmitted : State ι × Act ι → Multiset UInt64
  | (s, .transmit) =>
      match s.daemon with
      | .transmit i => {i}
      | _ => 0
  | _ => 0

/-- What an action does to the packets on the way, if a dequeue fits. -/
theorem Effect.flight_balance (h : Effect s a s') (hfits : DequeueFits s a)
    (hat : ∃ P C, RingAt s.txRing 7 P C) :
    s'.inFlight + (transmitted (s, a) + dropped (s, a)) = s.inFlight + submitted (s, a) := by
  cases h with
  | refuse hc hempty hrb => rfl
  | take hc hi hrb => rfl
  | fill hc => rfl
  | @put c req i rb hc hrb =>
      simp only [State.inFlight, hrb.contents_eq, coe_append_singleton, transmitted, dropped,
        submitted, hc]
      abel
  | @dequeue rb got hd hrb =>
      have htake := (hfits rfl).eq_take hat hrb
      have hsplit : contents s.txRing = got ++ (contents s.txRing).drop got.length := by
        calc contents s.txRing
            = (contents s.txRing).take got.length ++ (contents s.txRing).drop got.length :=
              (List.take_append_drop _ _).symm
          _ = got ++ (contents s.txRing).drop got.length := by rw [← htake]
      simp only [State.inFlight, hd, Daemon.unsent, hrb.contents_eq, transmitted, dropped, submitted]
      nth_rewrite 2 [hsplit]
      rw [← Multiset.coe_add]
      abel
  | @insert i rest q hd hcap hsize hq =>
      simp only [State.inFlight, hd, Daemon.unsent, scheduled_cons hq, coe_cons_eq, transmitted,
        dropped, submitted]
      abel
  | wait hd hlate hwait =>
      simp only [State.inFlight, hd, Daemon.unsent, transmitted, dropped, submitted, if_neg hlate,
        Multiset.coe_nil, add_zero]
  | drop hd hlate hcap hsize hq =>
      simp only [State.inFlight, hd, Daemon.unsent, scheduled_cons hq, transmitted, dropped, submitted,
        if_pos hlate, Multiset.coe_nil]
      abel
  | extract hd hlate hcap hsize hq =>
      simp only [State.inFlight, hd, Daemon.unsent, scheduled_cons hq, transmitted, dropped, submitted,
        if_neg hlate, Multiset.coe_nil]
      abel
  | transmit hd =>
      simp only [State.inFlight, hd, Daemon.unsent, transmitted, dropped, submitted, add_zero]
  | recycle hd hrb =>
      simp only [State.inFlight, hd, Daemon.unsent, transmitted, dropped, submitted, add_zero]

/-- What an action does to the indices in the system, if a dequeue fits. -/
theorem Effect.owned_balance_of_fits (h : Effect s a s') (hfits : DequeueFits s a)
    (hat : ∃ P C, RingAt s.txRing 7 P C) : s'.owned + dropped (s, a) = s.owned := by
  obtain ⟨read, taken, -, hsame, hbal⟩ := h.owned_balance
  rw [hsame hfits hat] at hbal
  have hcancel : s'.owned + dropped (s, a) + taken = s.owned + taken := by
    rw [← hbal]
    abel
  exact add_right_cancel hcancel

/-! ## Runs -/

/-- The actions that meet the condition. -/
def fittingStep (s : State ι) (a : Act ι) : Option (State ι) :=
  if decide (DequeueFits s a) then schedStep s a else none

/-- A run whose dequeues all fit is a run of `fittingStep`. -/
theorem run_fitting (hrun : Run schedStep s₀ tr s) (hfits : ∀ p ∈ tr, DequeueFits p.1 p.2) :
    Run fittingStep s₀ tr s :=
  hrun.guarded fun p hp => decide_eq_true (hfits p hp)

/-- What a step of `fittingStep` is. -/
theorem fittingStep_effect (h : Inv s) (hs : fittingStep s a = some s') :
    Inv s' ∧ DequeueFits s a ∧ Effect s a s' := by
  unfold fittingStep at hs
  split_ifs at hs with hok
  exact ⟨inv_step s a s' h hs, of_decide_eq_true hok, schedStep_effect h hs⟩

/-- **The indices over a run** whose dequeues fit: those in the system and those dropped are the
ones of start-up. -/
theorem run_owned_balance (h : Started s₀) (hrun : Run schedStep s₀ tr s)
    (hfits : ∀ p ∈ tr, DequeueFits p.1 p.2) :
    s.owned + (tr.map dropped).sum = ((List.range 127).map UInt64.ofNat : List UInt64) := by
  have hbal := (run_fitting hrun hfits).balance State.owned (fun _ => 0) dropped h.inv
    fun s a s' hinv hs => ?_
  · rw [h.owned_eq, List.map_const', List.sum_replicate, smul_zero, add_zero] at hbal
    exact hbal
  · obtain ⟨hinv', hok, heffect⟩ := fittingStep_effect hinv hs
    rw [add_zero]
    exact ⟨hinv', heffect.owned_balance_of_fits hok hinv.tx⟩

/-- **The packets over a run** whose dequeues fit: those put on the tx ring are on the way, sent or
dropped. -/
theorem run_flight_balance (h : Started s₀) (hrun : Run schedStep s₀ tr s)
    (hfits : ∀ p ∈ tr, DequeueFits p.1 p.2) :
    s.inFlight + (tr.map fun p => transmitted p + dropped p).sum = (tr.map submitted).sum := by
  have hbal := (run_fitting hrun hfits).balance State.inFlight submitted
    (fun p => transmitted p + dropped p) h.inv fun s a s' hinv hs => ?_
  · have hzero : s₀.inFlight = 0 := by
      simp only [State.inFlight, h.tx.contents_eq_nil, h.scheduled_eq, h.daemon, Daemon.unsent,
        Multiset.coe_nil, add_zero]
    rw [hzero, zero_add] at hbal
    exact hbal
  · obtain ⟨hinv', hok, heffect⟩ := fittingStep_effect hinv hs
    exact ⟨hinv', heffect.flight_balance hok hinv.tx⟩

/-- Two clients together hold no more than all of them. -/
theorem held_add_held_le (clients : ι → Client) {c c' : ι} (hne : c' ≠ c) :
    (clients c).held + (clients c').held ≤ clientsHeld clients := by
  have hmem : c' ∈ Finset.univ.erase c := Finset.mem_erase.mpr ⟨hne, Finset.mem_univ c'⟩
  rw [clientsHeld, ← Finset.add_sum_erase _ _ (Finset.mem_univ c),
    ← Finset.add_sum_erase _ _ hmem, ← add_assoc]
  exact Multiset.le_add_right _ _

/-- Where every index occurs once, the index that a client holds is nowhere else. -/
theorem not_elsewhere_of_nodup (hnodup : s.owned.Nodup) {c : ι} {i : UInt64}
    (hi : i ∈ (s.clients c).held) :
    i ∉ contents s.txRing ∧ i ∉ scheduled s.prioQueue ∧ i ∉ s.daemon.held ∧
      ∀ c' ≠ c, i ∉ (s.clients c').held := by
  have hone := Multiset.nodup_iff_count_le_one.mp hnodup i
  simp only [State.owned, Multiset.count_add] at hone
  have hheld : 1 ≤ (clientsHeld s.clients).count i :=
    Multiset.one_le_count_iff_mem.mpr (Multiset.mem_of_le (held_le_clientsHeld s.clients c) hi)
  refine ⟨fun hmem => ?_, fun hmem => ?_, fun hmem => ?_, fun c' hne hmem => ?_⟩
  · have hcount := Multiset.one_le_count_iff_mem.mpr (Multiset.mem_coe.mpr hmem)
    omega
  · have hcount := Multiset.one_le_count_iff_mem.mpr hmem
    omega
  · have hcount := Multiset.one_le_count_iff_mem.mpr hmem
    omega
  · have hle := Multiset.count_le_of_le i (held_add_held_le s.clients hne)
    have hcount := Multiset.one_le_count_iff_mem.mpr hi
    have hcount' := Multiset.one_le_count_iff_mem.mpr hmem
    rw [Multiset.count_add] at hle
    omega

/-- The indices of start-up are distinct. -/
theorem nodup_start : ((List.range 127).map UInt64.ofNat).Nodup := by
  refine List.nodup_range.map_on fun i hi j hj heq => ?_
  rw [List.mem_range] at hi hj
  have hnat := congrArg UInt64.toNat heq
  rw [UInt64.toNat_ofNat_of_lt' (hi.trans (by decide)),
    UInt64.toNat_ofNat_of_lt' (hj.trans (by decide))] at hnat
  exact hnat

/-- **Exclusive ownership of the buffers.** In every run in which each dequeue of the daemon stays
inside the array of the tx ring, every index occurs at most once in the free ring, the tx ring, the
queue and with the parties, in every state reached. So the buffer that a client is about to fill is
not on its way to be sent and with no other party; and no buffer is sent more often than it was put
on the tx ring. -/
theorem exclusive_ownership {mbufPool : ℕ → UInt8} {metadataPool : ℕ → KtMetadata}
    {junk : ℕ → KtPqNode} (hstart : ktsndStart mbufPool metadataPool junk = some s₀)
    (hrun : Run schedStep s₀ tr s) (hfits : ∀ p ∈ tr, DequeueFits p.1 p.2) :
    s.owned.Nodup ∧
      (∀ c i req, s.clients c = .taken i req →
        i ∉ contents s.txRing ∧ i ∉ scheduled s.prioQueue ∧ i ∉ s.daemon.held ∧
          ∀ c' ≠ c, i ∉ (s.clients c').held) ∧
      ∀ i, (tr.map transmitted).sum.count i ≤ (tr.map submitted).sum.count i := by
  have hstarted := started_of_start hstart
  have hnodup : s.owned.Nodup := by
    have hle : s.owned ≤ ((List.range 127).map UInt64.ofNat : List UInt64) :=
      run_owned_balance hstarted hrun hfits ▸ Multiset.le_add_right _ _
    exact Multiset.nodup_of_le hle (Multiset.coe_nodup.mpr nodup_start)
  refine ⟨hnodup, fun c i req hc => ?_, fun i => ?_⟩
  · refine not_elsewhere_of_nodup hnodup ?_
    rw [hc]
    exact Multiset.mem_singleton_self i
  · have hbal := run_flight_balance hstarted hrun hfits
    rw [List.sum_map_add] at hbal
    have hcount := congrArg (Multiset.count i) hbal
    simp only [Multiset.count_add] at hcount
    omega

/-- A start-up with one client, which sends a packet that the daemon dequeues. -/
theorem exclusive_ownership_one :
    ∃ (s₀ s : State Unit) (tr : List (State Unit × Act Unit)),
      ktsndStart (fun _ => 0) (fun _ => blankMetadata) (fun _ => ⟨0, 0⟩) = some s₀ ∧
        Run schedStep s₀ tr s ∧
        tr.map Prod.snd = [.take () blankReq, .fill (), .put (), .dequeue] ∧ s.owned.Nodup := by
  obtain ⟨s₀, hstart, hstarted⟩ := exists_start_one
  obtain ⟨tr, s₁, i, hrun, hacts, hsent⟩ := send_run hstarted.inv (hstarted.clients ())
    (by rw [hstarted.free_contents]; exact nofun) blankReq
  obtain ⟨rb, got, -, hdequeue⟩ := schedStep_dequeue hsent.inv (hsent.daemon.trans hstarted.daemon)
  have hrun' := hrun.append (Run.one hdequeue)
  refine ⟨s₀, _, _, hstart, hrun', by rw [List.map_append, hacts]; rfl,
    (exclusive_ownership hstart hrun' ?_).1⟩
  rw [List.forall_mem_append, List.forall_mem_singleton]
  refine ⟨fun p hp hp' => ?_, fun _ => ?_⟩
  · have hmem : Act.dequeue ∈ tr.map Prod.snd := hp' ▸ List.mem_map_of_mem hp
    rw [hacts] at hmem
    simp at hmem
  · rw [txFits_iff (hsent.tx.at_rest _ _ hstarted.tx)]
    decide

/-- **A dequeue across the end.** When the next packet goes to the last slot of the tx ring and the
one after it to the first slot, a dequeue of both reads the cell behind the array in place of the
first slot: the index `j` of the second packet is lost, and `0` is handed out in its place. -/
theorem Ready.straddle {c : ι} {n : ℕ} {i j : UInt64} {rest : List UInt64}
    (h : Ready s c n (i :: j :: rest)) (hn : n % 2 ^ 7 = 127) (req : SendReq) :
    ∃ tr s', Run schedStep s tr s' ∧ s'.daemon = .insert [i, 0] ∧
      contents s'.freeRing = rest := by
  obtain ⟨ret, hc⟩ := h.client
  obtain ⟨tr₁, s₁, i', hrun₁, -, hsent₁⟩ := send_run h.inv hc (by rw [h.free]; exact nofun) req
  obtain ⟨rfl, hfree₁⟩ := List.cons_eq_cons.mp (h.free.symm.trans hsent₁.free)
  obtain ⟨tr₂, s₂, j', hrun₂, -, hsent₂⟩ := send_run hsent₁.inv hsent₁.client
    (by rw [← hfree₁]; exact nofun) req
  obtain ⟨rfl, hfree₂⟩ := List.cons_eq_cons.mp (hfree₁.trans hsent₂.free)
  have hat₂ : RingAt s₂.txRing 7 (n + 1 + 1) n :=
    hsent₂.tx.at_rest _ _ (hsent₁.tx.at_rest _ _ h.tx)
  have hcontents : contents s₂.txRing = [i, j] := by
    rw [hsent₂.tx.contents_eq, hsent₁.tx.contents_eq, h.tx.contents_eq_nil]
    rfl
  have hlast : s₂.txRing.slots 127 = i := by
    have hslots := hat₂.contents_eq
    rw [hcontents, show n + 1 + 1 - n = 2 by omega] at hslots
    have hhead : i = s₂.txRing.slots ((n + 0) % 2 ^ 7) := (List.cons_eq_cons.mp hslots).1
    rw [add_zero, hn] at hhead
    exact hhead.symm
  have hbehind : s₂.txRing.slots 128 = 0 := by
    rw [hsent₂.tx.behind 128 (by decide), hsent₁.tx.behind 128 (by decide)]
    exact h.behind 128 (by decide)
  obtain ⟨rb, got, hrb, hdequeue⟩ := schedStep_dequeue hsent₂.inv
    (hsent₂.daemon.trans (hsent₁.daemon.trans h.daemon))
  have hgot : got = [i, 0] := by
    have hread := hrb.read _ _ hat₂
    rw [hrb.length, hcontents, hn] at hread
    exact hread.trans (congrArg₂ (fun x y => [x, y]) hlast hbehind)
  exact ⟨_, _, (hrun₁.append hrun₂).append (Run.one hdequeue), by rw [hgot], hfree₂.symm⟩

/-- After 127 packets, one at a time, the next two stand in the last and in the first slot: the
daemon gets the index `0` twice. -/
theorem straddling_dequeue_duplicates :
    ∃ (s₀ s : State Unit) (tr : List (State Unit × Act Unit)),
      ktsndStart (fun _ => 0) (fun _ => blankMetadata) (fun _ => ⟨0, 0⟩) = some s₀ ∧
        Run schedStep s₀ tr s ∧ s.daemon = .insert [0, 0] ∧ ¬ s.owned.Nodup := by
  obtain ⟨s₀, hstart, hstarted⟩ := exists_start_one
  obtain ⟨tr₁, s₁, hrun₁, hready⟩ := (hstarted.ready ()).cycles nofun blankReq 127
  have hrotate : ((List.range 127).map UInt64.ofNat).rotate 127 = (List.range 127).map UInt64.ofNat :=
    List.rotate_length ((List.range 127).map UInt64.ofNat)
  rw [hrotate] at hready
  obtain ⟨tr₂, s, hrun₂, hdaemon, -⟩ := hready.straddle rfl blankReq
  refine ⟨s₀, s, _, hstart, hrun₁.append hrun₂, hdaemon, fun hnodup => ?_⟩
  have hle : s.daemon.held ≤ s.owned := Multiset.le_add_left _ _
  have hpair := Multiset.nodup_of_le hle hnodup
  rw [hdaemon] at hpair
  exact absurd hpair (by decide)

end KuberneTSN.Sched
