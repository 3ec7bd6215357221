import KuberneTSN.Sched.Pool

/-!
# The DPDK buffers of the daemon

To send a packet, the daemon gets a transmit buffer from its DPDK pool, lets `prepare_packet` write
the frame into it, and gives it to `rte_eth_tx_burst`, which accepts it or not. An accepted buffer
belongs to the driver, which returns it to the pool some time later. `dpdkStep` adds this to the
actions of the parties; the answers of the driver are part of the actions. Which buffer of the pool
the daemon gets is up to DPDK (`RtePktmbufAlloc`), and all results hold whichever it is.

* `dpdk_run_sched` — the rest of the system does not notice;
* `run_buffers` — no buffer appears or disappears;
* `run_held_balance` — the daemon is left with one buffer for each one that the driver did not
  accept;
* `dpdk_buffers_conserved_iff` — so it holds none at the end of an iteration, and never calls
  `prepare_packet` without a buffer, exactly when it always found one in the pool and the driver
  always accepted it;
* `mbufPool_ne_nil` — then it does find one as long as the driver leaves one;
* `refused_burst_leaks_buffer` — one packet that the driver does not accept is enough to lose a
  buffer.
-/

set_option linter.unusedSectionVars false

namespace KuberneTSN.Sched

open Lib KuberneTSN.Ring KuberneTSN.Queue

/-- The system with the DPDK buffers, which are numbered. -/
structure Dpdk (ι : Type) where
  sched : State ι
  /-- The free buffers of `mbuf_pool`. -/
  mbufPool : List ℕ
  /-- The buffers that belong to the driver. -/
  driver : List ℕ
  /-- The buffers that the daemon has allocated, and neither freed nor given to the driver. -/
  held : List ℕ
  /-- `prepare_packet` was called with `NULL`, which the daemon does not survive. -/
  nullPrepared : Bool

/-- The actions of the parties and of the driver. -/
inductive DpdkAct (ι : Type) where
  /-- An action other than the transmission. -/
  | sched (a : Act ι)
  /-- The transmission; `nbTx` says whether `rte_eth_tx_burst` accepts the buffer. -/
  | send (nbTx : Bool)
  /-- The driver returns a buffer. -/
  | reclaim (b : ℕ)

/-- `rte_pktmbuf_alloc`, as far as the daemon can rely on it: it answers `NULL`, here `none`,
exactly when the pool is empty, and otherwise one of its buffers leaves the pool. -/
structure RtePktmbufAlloc where
  /-- The buffer, and the pool without it. -/
  alloc : List ℕ → Option (ℕ × List ℕ)
  eq_none_iff : ∀ pool, alloc pool = none ↔ pool = []
  perm : ∀ pool b rest, alloc pool = some (b, rest) → pool.Perm (b :: rest)

/-- There is an answer as long as there is a buffer. -/
theorem RtePktmbufAlloc.exists_alloc (rte : RtePktmbufAlloc) {pool : List ℕ} (h : pool ≠ []) :
    ∃ b rest, rte.alloc pool = some (b, rest) := by
  have hsome : rte.alloc pool ≠ none := fun hnone => h ((rte.eq_none_iff pool).mp hnone)
  obtain ⟨⟨b, rest⟩, hb⟩ := Option.ne_none_iff_exists'.mp hsome
  exact ⟨b, rest, hb⟩

/-- A pool that a buffer leaves is not empty. -/
theorem ne_nil_of_perm_cons {pool rest : List ℕ} {b : ℕ} (h : pool.Perm (b :: rest)) :
    pool ≠ [] :=
  List.ne_nil_of_mem (h.mem_iff.mpr List.mem_cons_self)

variable {ι : Type} [DecidableEq ι]

/-- The transmission. What `rte_pktmbuf_alloc` answers is tested, but only for a message in the
log, and what `rte_eth_tx_burst` answers is not tested at all. Source: `ktsnd.c` `main`, lines
386–406. -/
def daemonSend (rte : RtePktmbufAlloc) (d : Dpdk ι) (nbTx : Bool) : Option (Dpdk ι) :=
  match daemonTransmit d.sched, rte.alloc d.mbufPool with
  | none, _ => none
  | some _, none => some { d with nullPrepared := true }
  | some s, some (txBuf, pool) => some
      { d with
        sched := s
        mbufPool := pool
        driver := if nbTx then txBuf :: d.driver else d.driver
        held := if nbTx then d.held else txBuf :: d.held }

/-- One action; there is none after a call of `prepare_packet` with `NULL`. -/
def dpdkStep (rte : RtePktmbufAlloc) (d : Dpdk ι) (a : DpdkAct ι) : Option (Dpdk ι) :=
  if d.nullPrepared then none
  else
    match a with
    | .sched .transmit => none
    | .sched a => (schedStep d.sched a).map fun s => { d with sched := s }
    | .send nbTx => daemonSend rte d nbTx
    | .reclaim b =>
        if b ∈ d.driver then
          some { d with mbufPool := d.mbufPool ++ [b], driver := d.driver.erase b }
        else none

/-- What an action does to the buffers. -/
inductive BufferEffect (d : Dpdk ι) : DpdkAct ι → Dpdk ι → Prop
  | sched {a : Act ι} {s : State ι} (hne : a ≠ .transmit) (hs : schedStep d.sched a = some s) :
      BufferEffect d (.sched a) { d with sched := s }
  | null {nbTx : Bool} (hpool : d.mbufPool = []) :
      BufferEffect d (.send nbTx) { d with nullPrepared := true }
  | accepted {s : State ι} {b : ℕ} {pool : List ℕ} (hs : schedStep d.sched .transmit = some s)
      (hpool : d.mbufPool.Perm (b :: pool)) :
      BufferEffect d (.send true) { d with sched := s, mbufPool := pool, driver := b :: d.driver }
  | refused {s : State ι} {b : ℕ} {pool : List ℕ} (hs : schedStep d.sched .transmit = some s)
      (hpool : d.mbufPool.Perm (b :: pool)) :
      BufferEffect d (.send false) { d with sched := s, mbufPool := pool, held := b :: d.held }
  | reclaim {b : ℕ} (hb : b ∈ d.driver) :
      BufferEffect d (.reclaim b)
        { d with mbufPool := d.mbufPool ++ [b], driver := d.driver.erase b }

variable {rte : RtePktmbufAlloc} {d₀ d d' : Dpdk ι} {a : DpdkAct ι}
  {tr : List (Dpdk ι × DpdkAct ι)}

/-- Every action has one of these effects, and none follows a call with `NULL`. -/
theorem dpdkStep_effect (h : dpdkStep rte d a = some d') :
    d.nullPrepared = false ∧ BufferEffect d a d' := by
  unfold dpdkStep at h
  split_ifs at h with hnull
  refine ⟨by simpa using hnull, ?_⟩
  cases a with
  | sched a =>
      by_cases ha : a = .transmit
      · subst ha
        cases h
      · have hsome : (schedStep d.sched a).map (fun s => { d with sched := s }) = some d' := by
          cases a <;> first | exact h | exact absurd rfl ha
        obtain ⟨s, hs, rfl⟩ := Option.map_eq_some_iff.mp hsome
        exact .sched ha hs
  | send nbTx =>
      simp only [daemonSend] at h
      cases hs : daemonTransmit d.sched with
      | none =>
          rw [hs] at h
          cases h
      | some s =>
          cases halloc : rte.alloc d.mbufPool with
          | none =>
              rw [hs, halloc] at h
              cases h
              exact .null ((rte.eq_none_iff _).mp halloc)
          | some answer =>
              obtain ⟨b, pool⟩ := answer
              have hpool := rte.perm _ _ _ halloc
              rw [hs, halloc] at h
              cases h
              cases nbTx with
              | true => exact .accepted hs hpool
              | false => exact .refused hs hpool
  | reclaim b =>
      dsimp only at h
      split_ifs at h with hb
      cases h
      exact .reclaim hb

/-- **The rest of the system does not notice**: it makes a run of its own. -/
theorem dpdk_run_sched (h : Run (dpdkStep rte) d₀ tr d) :
    ∃ tr', Run schedStep d₀.sched tr' d.sched := by
  induction h with
  | nil => exact ⟨[], .nil⟩
  | snoc _ hstep ih =>
      obtain ⟨tr', hrun⟩ := ih
      obtain ⟨-, heffect⟩ := dpdkStep_effect hstep
      cases heffect with
      | sched hne hsched => exact ⟨_, .snoc hrun hsched⟩
      | null hpool => exact ⟨_, hrun⟩
      | accepted hsched hpool => exact ⟨_, .snoc hrun hsched⟩
      | refused hsched hpool => exact ⟨_, .snoc hrun hsched⟩
      | reclaim hb => exact ⟨_, hrun⟩

/-- An action of the parties, with this answer of the driver if it is a transmission. -/
def Act.withDriver (nbTx : Bool) : Act ι → DpdkAct ι
  | .transmit => .send nbTx
  | a => .sched a

/-- An action other than the transmission can be taken as before. -/
theorem dpdkStep_of_sched {s : State ι} {a : Act ι} (nbTx : Bool) (hnull : d.nullPrepared = false)
    (hne : a ≠ .transmit) (hs : schedStep d.sched a = some s) :
    dpdkStep rte d (a.withDriver nbTx) = some { d with sched := s } := by
  cases a <;> first | exact absurd rfl hne | simp [dpdkStep, Act.withDriver, hnull, hs]

/-- The transmission can be taken if there is a buffer. -/
theorem dpdkStep_of_transmit {s : State ι} {b : ℕ} {pool : List ℕ} (nbTx : Bool)
    (hnull : d.nullPrepared = false) (hs : schedStep d.sched .transmit = some s)
    (hb : rte.alloc d.mbufPool = some (b, pool)) :
    dpdkStep rte d (.send nbTx) = some
      { d with
        sched := s
        mbufPool := pool
        driver := if nbTx then b :: d.driver else d.driver
        held := if nbTx then d.held else b :: d.held } := by
  have hs' : daemonTransmit d.sched = some s := hs
  simp [dpdkStep, daemonSend, hnull, hs', hb]

/-- **Any run of the system is possible** if there are buffers for its transmissions, whether the
driver accepts them all or none. -/
theorem exists_dpdk_run {s : State ι} {tr : List (State ι × Act ι)}
    (h : Run schedStep d₀.sched tr s) (nbTx : Bool) (hnull : d₀.nullPrepared = false)
    (hpool : (tr.map Prod.snd).count .transmit ≤ d₀.mbufPool.length) :
    ∃ tr' d, Run (dpdkStep rte) d₀ tr' d ∧
      tr'.map Prod.snd = (tr.map Prod.snd).map (Act.withDriver nbTx) ∧
      d.sched = s ∧ d.nullPrepared = false ∧
      d.mbufPool.length + (tr.map Prod.snd).count .transmit = d₀.mbufPool.length ∧
      d.held.length = d₀.held.length + if nbTx then 0 else (tr.map Prod.snd).count .transmit := by
  induction h with
  | nil => exact ⟨[], d₀, .nil, rfl, rfl, hnull, rfl, by simp⟩
  | @snoc tr s s' a hr hs ih =>
      rw [List.map_append, List.count_append] at hpool ⊢
      obtain ⟨tr', d, hrun, hacts, rfl, hd, hlen, hheld⟩ := ih (by omega)
      by_cases ha : a = .transmit
      · subst ha
        rw [List.map_singleton, List.count_singleton_self] at hpool ⊢
        have hpos : 0 < d.mbufPool.length := by omega
        obtain ⟨b, pool, hb⟩ := rte.exists_alloc (List.ne_nil_of_length_pos hpos)
        rw [(rte.perm _ _ _ hb).length_eq, List.length_cons] at hlen
        refine ⟨_, _, .snoc hrun (dpdkStep_of_transmit nbTx hd hs hb), ?_, rfl, hd, ?_, ?_⟩
        · rw [List.map_append, List.map_append, hacts]
          rfl
        · dsimp only
          omega
        · cases nbTx with
          | true => exact hheld
          | false => exact (congrArg (· + 1) hheld).trans (add_assoc _ _ _)
      · rw [List.map_singleton, List.count_singleton, if_neg (by simpa using ha), add_zero] at hpool ⊢
        refine ⟨_, _, .snoc hrun (dpdkStep_of_sched nbTx hd ha hs), ?_, rfl, hd, hlen, hheld⟩
        rw [List.map_append, List.map_append, hacts]
        rfl

/-- All buffers, wherever they are. -/
def Dpdk.buffers (d : Dpdk ι) : Multiset ℕ := d.mbufPool + d.driver + d.held

/-- **No buffer appears or disappears.** -/
theorem run_buffers (h : Run (dpdkStep rte) d₀ tr d) : d.buffers = d₀.buffers := by
  refine h.always (I := fun d => d.buffers = d₀.buffers) rfl fun d a d' hd hstep => hd ▸ ?_
  obtain ⟨-, heffect⟩ := dpdkStep_effect hstep
  unfold Dpdk.buffers
  cases heffect with
  | sched => rfl
  | null => rfl
  | accepted _ hpool =>
      simp only [Multiset.coe_eq_coe.mpr hpool, ← Multiset.cons_coe, Multiset.cons_add,
        Multiset.add_cons]
  | refused _ hpool =>
      simp only [Multiset.coe_eq_coe.mpr hpool, ← Multiset.cons_coe, Multiset.cons_add,
        Multiset.add_cons]
  | @reclaim b hb =>
      have hcons : (d.driver : Multiset ℕ) = b ::ₘ (d.driver.erase b : List ℕ) :=
        Multiset.coe_eq_coe.mpr (List.perm_cons_erase hb)
      rw [hcons, ← Multiset.coe_add, Multiset.coe_singleton, Multiset.add_cons,
        ← Multiset.singleton_add]
      abel

/-- A buffer that the driver did not accept. -/
def refused : Dpdk ι × DpdkAct ι → ℕ
  | (d, .send false) => if d.mbufPool = [] then 0 else 1
  | _ => 0

/-- **The daemon is left with the buffers that the driver did not accept.** -/
theorem run_held_balance (h : Run (dpdkStep rte) d₀ tr d) :
    d.held.length = d₀.held.length + (tr.map refused).sum := by
  have hbal := h.balance (I := fun _ => True) (fun d => d.held.length) refused (fun _ => 0) trivial
    fun d a d' _ hstep => by
      refine ⟨trivial, ?_⟩
      obtain ⟨-, heffect⟩ := dpdkStep_effect hstep
      cases heffect with
      | sched => rfl
      | @null nbTx hpool => cases nbTx <;> simp [refused, hpool]
      | accepted => rfl
      | refused _ hpool => simp [refused, ne_nil_of_perm_cons hpool]
      | reclaim => rfl
  simpa using hbal

/-- A transmission finds a buffer in the pool, and the driver accepts it. -/
def SendsClean (d : Dpdk ι) : DpdkAct ι → Prop
  | .send nbTx => d.mbufPool ≠ [] ∧ nbTx = true
  | _ => True

/-- Nothing is lost in a run of clean transmissions. -/
theorem clean_run (h : Run (dpdkStep rte) d₀ tr d) (hheld : d₀.held = [])
    (hnull : d₀.nullPrepared = false) (hclean : ∀ p ∈ tr, SendsClean p.1 p.2) :
    d.held = [] ∧ d.nullPrepared = false := by
  refine h.invariant (I := fun d => d.held = [] ∧ d.nullPrepared = false) ⟨hheld, hnull⟩ ?_ hclean
  intro d a d' hd hclean hstep
  obtain ⟨-, heffect⟩ := dpdkStep_effect hstep
  cases heffect with
  | sched => exact hd
  | null hpool => exact absurd hpool hclean.1
  | accepted => exact hd
  | refused => exact absurd hclean.2 (by decide)
  | reclaim => exact hd

/-- No transmission of a run that goes on found the pool empty. -/
theorem mbufPool_ne_nil_of_mem (h : Run (dpdkStep rte) d₀ tr d) (hnull : d.nullPrepared = false) :
    ∀ p ∈ tr, ∀ nbTx, p.2 = .send nbTx → p.1.mbufPool ≠ [] := by
  induction h with
  | nil => exact fun p hp => absurd hp List.not_mem_nil
  | snoc _ hs ih =>
      obtain ⟨hbefore, heffect⟩ := dpdkStep_effect hs
      rw [List.forall_mem_append, List.forall_mem_singleton]
      refine ⟨ih hbefore, ?_⟩
      rintro nbTx rfl
      cases heffect with
      | null => exact absurd hnull (by simp)
      | accepted _ hpool => exact ne_nil_of_perm_cons hpool
      | refused _ hpool => exact ne_nil_of_perm_cons hpool

/-- **When the daemon conserves its DPDK buffers.** For every run of the system, with any answers
of the driver, that ends at the end of an iteration of the daemon or with a call of
`prepare_packet` with `NULL`: the daemon holds no buffer at the end of any iteration, and there is
no such call, if and only if every transmission found a buffer in the pool and the driver accepted
it. -/
theorem dpdk_buffers_conserved_iff (hheld : d₀.held = []) (hnull : d₀.nullPrepared = false)
    (hrun : Run (dpdkStep rte) d₀ tr d) (hend : d.nullPrepared = false → d.sched.daemon = .top) :
    (∀ tr' t, tr' <+: tr → Run (dpdkStep rte) d₀ tr' t →
      (t.sched.daemon = .top → t.held = []) ∧ t.nullPrepared = false) ↔
      ∀ p ∈ tr, SendsClean p.1 p.2 := by
  constructor
  · intro hall
    obtain ⟨hlast, hnone⟩ := hall tr d List.prefix_rfl hrun
    have hbal := run_held_balance hrun
    rw [hlast (hend hnone), hheld, List.length_nil, Nat.zero_add] at hbal
    have hrefused := List.sum_eq_zero_iff.mp hbal.symm
    rintro ⟨d, a⟩ hp
    cases a with
    | send nbTx =>
        have hpool := mbufPool_ne_nil_of_mem hrun hnone _ hp nbTx rfl
        refine ⟨hpool, ?_⟩
        cases nbTx with
        | true => rfl
        | false =>
            have hzero := hrefused _ (List.mem_map_of_mem hp)
            exact absurd hzero (by simp [refused, hpool])
    | _ => trivial
  · intro hclean tr' t hpre hrun'
    have hboth := clean_run hrun' hheld hnull fun p hp => hclean p (hpre.subset hp)
    exact ⟨fun _ => hboth.1, hboth.2⟩

/-- From a start-up with one client and any pool with a buffer, one packet makes its way to the
driver, which accepts it or not. -/
theorem one_packet_run (rte : RtePktmbufAlloc) (nbTx : Bool) (b : ℕ) (pool : List ℕ) :
    ∃ (s₀ : State Unit) (tr : List (Dpdk Unit × DpdkAct Unit)) (d : Dpdk Unit),
      ktsndStart (fun _ => 0) (fun _ => blankMetadata) (fun _ => ⟨0, 0⟩) = some s₀ ∧
        Run (dpdkStep rte) ⟨s₀, b :: pool, [], [], false⟩ tr d ∧
        tr.map Prod.snd = [.sched (.take () blankReq), .sched (.fill ()), .sched (.put ()),
          .sched .dequeue, .sched .insert, .sched (.schedule 0), .send nbTx, .sched .recycle] ∧
        d.sched.daemon = .top ∧ d.nullPrepared = false ∧ d.held.length = if nbTx then 0 else 1 := by
  obtain ⟨s₀, hstart, hstarted⟩ := exists_start_one
  obtain ⟨tr, s, hrun, hacts, hready⟩ := (hstarted.ready ()).cycle blankReq
  have hone : (tr.map Prod.snd).count .transmit = 1 := by
    rw [hacts]
    decide
  let d₀ : Dpdk Unit := ⟨s₀, b :: pool, [], [], false⟩
  have hrun₀ : Run schedStep d₀.sched tr s := hrun
  obtain ⟨tr', d, hrun', hacts', rfl, hnull, -, hheld⟩ :=
    exists_dpdk_run hrun₀ nbTx rfl (by simp [hone, d₀])
  refine ⟨s₀, tr', d, hstart, hrun', ?_, hready.daemon, hnull, ?_⟩
  · rw [hacts', hacts]
    rfl
  · rw [hheld, hone]
    exact Nat.zero_add _

/-- The first buffer of the pool is handed out. -/
def firstFree : RtePktmbufAlloc where
  alloc pool := pool.head?.map fun b => (b, pool.tail)
  eq_none_iff pool := by cases pool <;> simp
  perm pool b rest h := by
    cases pool with
    | nil => cases h
    | cons b' pool =>
        cases h
        exact List.Perm.refl _

/-- A packet that the driver accepts. -/
theorem dpdk_buffers_conserved_iff_one :
    ∃ (s₀ : State Unit) (tr : List (Dpdk Unit × DpdkAct Unit)) (d : Dpdk Unit),
      Run (dpdkStep firstFree) ⟨s₀, [0], [], [], false⟩ tr d ∧ d.sched.daemon = .top ∧
        ∀ tr' t, tr' <+: tr → Run (dpdkStep firstFree) ⟨s₀, [0], [], [], false⟩ tr' t →
          (t.sched.daemon = .top → t.held = []) ∧ t.nullPrepared = false := by
  obtain ⟨s₀, tr, d, -, hrun, hacts, hend, hnull, -⟩ := one_packet_run firstFree true 0 []
  refine ⟨s₀, tr, d, hrun, hend, ?_⟩
  refine (dpdk_buffers_conserved_iff rfl rfl hrun fun _ => hend).mpr ?_
  rintro ⟨d', a⟩ hp
  cases a with
  | send nbTx =>
      have hmem : DpdkAct.send nbTx ∈ tr.map Prod.snd := List.mem_map_of_mem (f := Prod.snd) hp
      rw [hacts] at hmem
      exact ⟨mbufPool_ne_nil_of_mem hrun hnull _ hp nbTx rfl, by simpa using hmem⟩
  | _ => trivial

/-- The pool is not empty as long as the driver does not have all the buffers and the daemon none. -/
theorem mbufPool_ne_nil (hrun : Run (dpdkStep rte) d₀ tr d) (hheld : d.held = [])
    (hdriver : d.driver.length < d₀.buffers.card) : d.mbufPool ≠ [] := by
  intro hnil
  have hcard := congrArg Multiset.card (run_buffers hrun)
  simp only [Dpdk.buffers, hnil, hheld, Multiset.card_add, Multiset.coe_card, List.length_nil] at hcard
  unfold Dpdk.buffers at hdriver
  simp only [Multiset.card_add, Multiset.coe_card] at hdriver
  omega

/-- One packet that the driver does not accept: at the end of the iteration the daemon still has the
buffer, and the pool is empty. -/
theorem refused_burst_leaks_buffer :
    ∃ (s₀ : State Unit) (tr : List (Dpdk Unit × DpdkAct Unit)) (d : Dpdk Unit),
      ktsndStart (fun _ => 0) (fun _ => blankMetadata) (fun _ => ⟨0, 0⟩) = some s₀ ∧
        Run (dpdkStep firstFree) ⟨s₀, [0], [], [], false⟩ tr d ∧
        tr.map Prod.snd = [.sched (.take () blankReq), .sched (.fill ()), .sched (.put ()),
          .sched .dequeue, .sched .insert, .sched (.schedule 0), .send false, .sched .recycle] ∧
        d.sched.daemon = .top ∧ d.held = [0] ∧ d.mbufPool = [] ∧ d.driver = [] := by
  obtain ⟨s₀, tr, d, hstart, hrun, hacts, hend, -, hlen⟩ := one_packet_run firstFree false 0 []
  have hbuffers : (d.mbufPool : Multiset ℕ) + d.driver + d.held = {0} := run_buffers hrun
  have hone : d.held.length = 1 := hlen
  have hcard := congrArg Multiset.card hbuffers
  simp only [Multiset.card_add, Multiset.coe_card, hone, Multiset.card_singleton] at hcard
  have hpool : d.mbufPool = [] := List.length_eq_zero_iff.mp (by omega)
  have hdriver : d.driver = [] := List.length_eq_zero_iff.mp (by omega)
  rw [hpool, hdriver] at hbuffers
  have hheld : d.held = [0] := by simpa using hbuffers
  exact ⟨s₀, tr, d, hstart, hrun, hacts, hend, hheld, hpool, hdriver⟩

end KuberneTSN.Sched
