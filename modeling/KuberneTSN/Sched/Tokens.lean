import KuberneTSN.Lib.Run
import KuberneTSN.Sched.Effect

/-!
# Counting the buffers

* `ktsndStart_spec` — start-up succeeds, with the 127 indices in the free ring;
* `Effect.owned_balance` — what an action does to the indices in the system: they only move, except
  that a dequeue from the tx ring may read other ones than those it takes off, and that an index
  whose packet is dropped as late is gone;
* `inv_run` — so the rings are at rest and nothing overflows in every reachable state;
* `run_card_balance` — and over a run as many indices are missing as packets were late.
-/

set_option linter.unusedSectionVars false

namespace KuberneTSN.Sched

open Lib KuberneTSN.Ring KuberneTSN.Queue

/-! ## Start-up -/

/-- The loop that fills the free ring appends the indices in order. -/
theorem fillFreeRing_spec (n i : ℕ) {rb : KtRingbuf} {P C : ℕ} (h : RingAt rb 7 P C)
    (hroom : (contents rb).length + n ≤ 127) :
    ∃ rb', fillFreeRing n i rb = .ok rb' ∧ RingAt rb' 7 (P + n) C ∧
      contents rb' = contents rb ++ (List.range' i n).map UInt64.ofNat := by
  induction n generalizing i rb P with
  | zero => exact ⟨rb, rfl, h, (List.append_nil _).symm⟩
  | succ n ih =>
      obtain ⟨r, hr, -, happ⟩ := h.enqueue_one (show (contents rb).length < 2 ^ 7 - 1 by omega)
        (UInt64.ofNat i)
      have hlen : (contents r.rb).length + n ≤ 127 := by
        rw [happ.contents_eq, List.length_append, List.length_singleton]
        omega
      obtain ⟨rb', hrb', hat, hcontents⟩ := ih (i + 1) (happ.at_rest P C h) hlen
      refine ⟨rb', ?_, ?_, ?_⟩
      · rw [fillFreeRing, hr]
        exact hrb'
      · rw [show P + (n + 1) = P + 1 + n by omega]
        exact hat
      · rw [hcontents, happ.contents_eq, List.range'_succ, List.map_cons, List.append_assoc,
          List.singleton_append]

/-- The state in which `ktsnd` enters its loop. -/
structure Started {ι : Type} (s : State ι) : Prop where
  free : ∃ P C, RingAt s.freeRing 7 P C
  free_contents : contents s.freeRing = (List.range 127).map UInt64.ofNat
  tx : RingAt s.txRing 7 0 0
  tx_slots : ∀ k, s.txRing.slots k = 0
  cap : s.prioQueue.cap = 127
  size : s.prioQueue.size = 0
  clients : ∀ c, s.clients c = .idle none
  daemon : s.daemon = .top

/-- **Start-up succeeds.** -/
theorem ktsndStart_spec {ι : Type} (mbufPool : ℕ → UInt8) (metadataPool : ℕ → KtMetadata)
    (junk : ℕ → KtPqNode) :
    ∃ s : State ι, ktsndStart mbufPool metadataPool junk = some s ∧ Started s := by
  let fresh : KtRingbuf := ⟨128, 1, 127, 127, ⟨0, 0⟩, ⟨0, 0⟩, fun _ => 0⟩
  have hcreate : ktRingbufCreate (fun _ => some fun _ => 0) 128 1 = some fresh := rfl
  have hat : RingAt fresh 7 0 0 := ringAt_create (by decide) rfl hcreate
  have hnil := hat.contents_eq_nil
  obtain ⟨rb, hfill, hrb, hcontents⟩ := fillFreeRing_spec 127 0 hat (by rw [hnil]; decide)
  have hcap : rb.capacity.toNat = 127 := hrb.shape.toNat_capacity
  let start : State ι :=
    { freeRing := rb
      txRing := fresh
      mbufPool := mbufPool
      metadataPool := metadataPool
      prioQueue := ktPrioQueueInit junk rb.capacity.toNat
      clients := fun _ => .idle none
      daemon := .top
      wire := [] }
  refine ⟨start, ?_, ⟨⟨_, _, hrb⟩, ?_, hat, fun _ => rfl, hcap, rfl, fun _ => rfl, rfl⟩⟩
  · have hcapacity : (ktRingbufGetCapacity fresh).toNat = 127 := rfl
    simp only [ktsndStart, hcreate, Option.bind_eq_bind, Option.bind_some, hcapacity, hfill,
      Except.toOption]
    rfl
  · rw [List.range_eq_range']
    exact hcontents.trans (by rw [hnil, List.nil_append])

/-! ## One action -/

variable {ι : Type} [DecidableEq ι] [Fintype ι] {s s' : State ι} {a : Act ι}

/-- The dequeue that the daemon is about to make stays inside the array of the tx ring: the slot of
the consumer head, plus the indices that it will take, is at most the number of slots. -/
def TxFits (s : State ι) : Prop :=
  (s.txRing.cons.head &&& s.txRing.mask).toNat +
    min 8 (s.txRing.prod.tail - s.txRing.cons.head).toNat ≤ s.txRing.size.toNat

instance (s : State ι) : Decidable (TxFits s) := inferInstanceAs (Decidable (_ ≤ _))

/-- The index that an action drops. -/
def dropped : State ι × Act ι → Multiset UInt64
  | (s, .schedule now) => if Late s now then {(s.prioQueue.elems 0).data} else 0
  | _ => 0

/-- `TxFits` in terms of the positions. -/
theorem txFits_iff {P C : ℕ} (hat : RingAt s.txRing 7 P C) :
    TxFits s ↔ C % 2 ^ 7 + min 8 (P - C) ≤ 2 ^ 7 :=
  fits_dequeue (t := ⟨s.txRing, [], [], []⟩) hat (fun _ => 0) 8

/-- A dequeue of the daemon that fits hands out the oldest indices. -/
theorem TxFits.eq_take (hfits : TxFits s) (hat : ∃ P C, RingAt s.txRing 7 P C) {rb : KtRingbuf}
    {got : List UInt64} (h : Drained 7 8 s.txRing rb got) :
    got = (contents s.txRing).take got.length := by
  obtain ⟨P, C, hat⟩ := hat
  refine h.eq_take hat ?_
  rw [h.length, hat.length_contents]
  exact (txFits_iff hat).mp hfits

/-- A list of indices as a multiset, with its head taken off. -/
theorem coe_cons_eq (i : UInt64) (l : List UInt64) :
    ((i :: l : List UInt64) : Multiset UInt64) = {i} + (l : Multiset UInt64) := by
  rw [Multiset.singleton_add, Multiset.cons_coe]

/-- A list of indices as a multiset, with an index appended. -/
theorem coe_append_singleton (l : List UInt64) (i : UInt64) :
    ((l ++ [i] : List UInt64) : Multiset UInt64) = (l : Multiset UInt64) + {i} := by
  rw [← Multiset.coe_add, Multiset.coe_singleton]

theorem scheduled_cons {q q' : KtPrioQueue} {nd : KtPqNode} (h : q'.pairs = nd ::ₘ q.pairs) :
    scheduled q' = {nd.data} + scheduled q := by
  rw [scheduled, h, Multiset.map_cons, Multiset.singleton_add]
  rfl

/-- An action other than a dequeue of the daemon only moves indices, and drops one if it is late. -/
theorem Effect.owned_of_ne_dequeue (h : Effect s a s') (ha : a ≠ .dequeue) :
    s'.owned + dropped (s, a) = s.owned := by
  cases h with
  | @refuse c req ret rb hc hempty hrb =>
      have hcl := clientsHeld_update s.clients c (.idle (some enobufs))
      rw [hc] at hcl
      simp only [Client.held, add_zero] at hcl
      have hcontents := hrb.contents_eq
      rw [List.length_nil, List.drop_zero] at hcontents
      simp only [State.owned, hcl, hcontents, dropped, add_zero]
  | @take c req ret rb i hc hi hrb =>
      have hcl := clientsHeld_update s.clients c (.taken i req)
      rw [hc] at hcl
      simp only [Client.held, add_zero] at hcl
      simp only [State.owned, hcl, hi, coe_cons_eq, dropped]
      abel
  | @fill c req i hc =>
      have hcl := clientsHeld_update s.clients c (.filled i req)
      rw [hc] at hcl
      simp only [Client.held, add_left_inj] at hcl
      simp only [State.owned, hcl, dropped, add_zero]
  | @put c req i rb hc hrb =>
      have hcl := clientsHeld_update s.clients c (.idle (some (req.iov0.length : ℤ)))
      rw [hc] at hcl
      simp only [Client.held, add_zero] at hcl
      simp only [State.owned, ← hcl, hrb.contents_eq, coe_append_singleton, dropped]
      abel
  | dequeue => exact absurd rfl ha
  | @insert i rest q hd hcap hsize hq =>
      simp only [State.owned, hd, Daemon.held, scheduled_cons hq, coe_cons_eq, dropped]
      abel
  | @wait now hd hlate hwait =>
      simp only [State.owned, hd, Daemon.held, dropped, if_neg hlate, Multiset.coe_nil, add_zero]
  | @drop now q hd hlate hcap hsize hq =>
      simp only [State.owned, hd, Daemon.held, scheduled_cons hq, dropped, if_pos hlate,
        Multiset.coe_nil]
      abel
  | @extract now q hd hlate hcap hsize hq =>
      simp only [State.owned, hd, Daemon.held, scheduled_cons hq, dropped, if_neg hlate,
        Multiset.coe_nil]
      abel
  | transmit hd => simp only [State.owned, hd, Daemon.held, dropped, add_zero]
  | @recycle i rb hd hrb =>
      simp only [State.owned, hd, Daemon.held, hrb.contents_eq, coe_append_singleton, dropped]
      abel

/-- **What an action does to the indices in the system**: `taken` are those that a dequeue of the
daemon takes off the tx ring, and `read` those that it hands out in their place. -/
theorem Effect.owned_balance (h : Effect s a s') :
    ∃ read taken : Multiset UInt64, read.card = taken.card ∧
      ((a = .dequeue → TxFits s) → (∃ P C, RingAt s.txRing 7 P C) → read = taken) ∧
      s'.owned + taken + dropped (s, a) = s.owned + read := by
  by_cases ha : a = .dequeue
  · subst ha
    cases h with
    | @dequeue rb got hd hrb =>
        have hsplit : (contents s.txRing : Multiset UInt64) =
            ((contents s.txRing).take got.length : Multiset UInt64) +
              ((contents s.txRing).drop got.length : Multiset UInt64) := by
          rw [Multiset.coe_add, List.take_append_drop]
        refine ⟨got, (contents s.txRing).take got.length, ?_, fun hfits hat => ?_, ?_⟩
        · rw [Multiset.coe_card, Multiset.coe_card, List.length_take, hrb.length]
          omega
        · rw [← (hfits rfl).eq_take hat hrb]
        · simp only [State.owned, hd, Daemon.held, hrb.contents_eq, dropped]
          rw [hsplit]
          abel
  · refine ⟨0, 0, rfl, fun _ _ => rfl, ?_⟩
    rw [add_zero, add_zero]
    exact h.owned_of_ne_dequeue ha

/-- An action leaves as many indices, but for one that is dropped. -/
theorem Effect.card_balance (h : Effect s a s') :
    s'.owned.card + (dropped (s, a)).card = s.owned.card := by
  obtain ⟨read, taken, hcard, -, hbal⟩ := h.owned_balance
  have hbal := congrArg Multiset.card hbal
  simp only [Multiset.card_add] at hbal
  omega

/-- The rings stay at rest, and the capacity of the queue does not change. -/
theorem Effect.at_rest (h : Effect s a s') (hinv : Inv s) :
    (∃ P C, RingAt s'.freeRing 7 P C) ∧ (∃ P C, RingAt s'.txRing 7 P C) ∧
      s'.prioQueue.cap = 127 := by
  obtain ⟨⟨Pf, Cf, hfree⟩, ⟨Pt, Ct, htx⟩, hcap, -⟩ := hinv
  have hfree' : ∃ P C, RingAt s.freeRing 7 P C := ⟨Pf, Cf, hfree⟩
  have htx' : ∃ P C, RingAt s.txRing 7 P C := ⟨Pt, Ct, htx⟩
  cases h with
  | refuse _ _ hrb => exact ⟨⟨_, _, hrb.at_rest Pf Cf hfree⟩, htx', hcap⟩
  | take _ _ hrb => exact ⟨⟨_, _, hrb.at_rest Pf Cf hfree⟩, htx', hcap⟩
  | fill _ => exact ⟨hfree', htx', hcap⟩
  | put _ hrb => exact ⟨hfree', ⟨_, _, hrb.at_rest Pt Ct htx⟩, hcap⟩
  | dequeue _ hrb => exact ⟨hfree', ⟨_, _, hrb.at_rest Pt Ct htx⟩, hcap⟩
  | insert _ hqcap => exact ⟨hfree', htx', hqcap.trans hcap⟩
  | wait => exact ⟨hfree', htx', hcap⟩
  | drop _ _ hqcap => exact ⟨hfree', htx', hqcap.trans hcap⟩
  | extract _ _ hqcap => exact ⟨hfree', htx', hqcap.trans hcap⟩
  | transmit _ => exact ⟨hfree', htx', hcap⟩
  | recycle _ hrb => exact ⟨⟨_, _, hrb.at_rest Pf Cf hfree⟩, htx', hcap⟩

/-- Every action keeps the invariant. -/
theorem inv_step (s : State ι) (a : Act ι) (s' : State ι) (h : Inv s) (hs : schedStep s a = some s') :
    Inv s' := by
  have heffect := schedStep_effect h hs
  obtain ⟨hfree, htx, hcap⟩ := heffect.at_rest h
  have hcard := heffect.card_balance
  have htotal := h.total
  exact ⟨hfree, htx, hcap, by omega⟩

/-! ## Runs -/

variable {s₀ : State ι} {tr : List (State ι × Act ι)}

/-- After start-up no packet is scheduled. -/
theorem Started.scheduled_eq (h : Started s₀) : scheduled s₀.prioQueue = 0 := by
  rw [← Multiset.card_eq_zero, card_scheduled, h.size]

/-- After start-up every index is in the system once. -/
theorem Started.owned_eq (h : Started s₀) :
    s₀.owned = ((List.range 127).map UInt64.ofNat : List UInt64) := by
  have hclients := clientsHeld_of_idle fun c => ⟨none, h.clients c⟩
  simp only [State.owned, h.free_contents, h.tx.contents_eq_nil, h.scheduled_eq, hclients, h.daemon,
    Daemon.held, Multiset.coe_nil, add_zero]

/-- Start-up establishes the invariant. -/
theorem Started.inv (h : Started s₀) : Inv s₀ := by
  refine ⟨h.free, ⟨0, 0, h.tx⟩, h.cap, ?_⟩
  rw [h.owned_eq, Multiset.coe_card, List.length_map, List.length_range]

/-- What `ktsndStart` answers. -/
theorem started_of_start {mbufPool : ℕ → UInt8} {metadataPool : ℕ → KtMetadata}
    {junk : ℕ → KtPqNode} (h : ktsndStart mbufPool metadataPool junk = some s₀) : Started s₀ := by
  obtain ⟨s, hs, hstarted⟩ : ∃ s : State ι,
      ktsndStart mbufPool metadataPool junk = some s ∧ Started s :=
    ktsndStart_spec mbufPool metadataPool junk
  rw [hs] at h
  cases h
  exact hstarted

/-- **Nothing overflows in any reachable state.** -/
theorem inv_run (h : Started s₀) (hrun : Run schedStep s₀ tr s) : Inv s :=
  hrun.always h.inv inv_step

/-- The number of indices over a run: one less for each packet that was late. -/
theorem run_card_balance (h : Started s₀) (hrun : Run schedStep s₀ tr s) :
    s.owned.card + (tr.map fun p => (dropped p).card).sum = 127 := by
  have hbal := hrun.balance (fun s => s.owned.card) (fun _ => 0) (fun p => (dropped p).card) h.inv
    fun s a s' hinv hs => ⟨inv_step s a s' hinv hs, (schedStep_effect hinv hs).card_balance⟩
  rw [h.owned_eq, Multiset.coe_card, List.length_map, List.length_range] at hbal
  simpa using hbal

end KuberneTSN.Sched
