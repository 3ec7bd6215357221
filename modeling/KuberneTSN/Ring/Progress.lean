import KuberneTSN.Ring.Reservation

/-!
# Progress of concurrent bursts

A call that has reserved positions waits until the tail of its side has come to them. So calls
finish in the order of their reservations, and a thread depends on those before it:

* `calls_can_return` — no deadlock: from every state that can be reached, the calls in progress can
  all return, without a further call;
* `stalled_thread_blocks` — but no more than that: while the thread whose reservation is at the tail
  takes no step, the tail stays where it is and no thread of this side publishes its elements.

Both rest on the invariant `Inv`: the thread at the tail exists as soon as anything is reserved
(`Inv.exists_at_tail`), and it is the only one whose wait is over.
-/

namespace KuberneTSN.Ring

open Lib

variable {ι : Type*} {k : ℕ} {T : Side → ℕ} {w w' : World ι} {a : Act ι}

/-- The thread is inside a call. -/
def Pc.inCall : Pc → Bool
  | .idle => false
  | .returned _ _ _ => false
  | _ => true

/-- A thread that holds positions is copying or about to store its tail. -/
theorem own_eq_some {σ : Side} {i : ι} {v : ℕ × ℕ} (h : w.own σ i = some v) :
    ∃ c r, c.side = σ ∧ v = (w.pos i, r.n.toNat) ∧
      ((∃ todo, w.pc i = .copy c r todo) ∨ w.pc i = .store c r) := by
  unfold World.own Pc.holds at h
  split at h
  · obtain ⟨hσ, hv⟩ := Option.ite_none_right_eq_some.mp h
    exact ⟨_, _, hσ, (Option.some.inj hv).symm, Or.inl ⟨_, ‹_›⟩⟩
  · obtain ⟨hσ, hv⟩ := Option.ite_none_right_eq_some.mp h
    exact ⟨_, _, hσ, (Option.some.inj hv).symm, Or.inr ‹_›⟩
  · cases h

/-- Where positions of a side are reserved, some thread holds those at the tail. -/
theorem Inv.exists_at_tail (h : Inv k T w) {σ : Side} (hlt : T σ < w.head σ) :
    ∃ i n, w.own σ i = some (T σ, n) := by
  obtain ⟨i, p, n, hown, hle, -⟩ := (h.tiles σ).cover le_rfl hlt
  obtain ⟨-, hge, -⟩ := (h.tiles σ).inside hown
  obtain rfl := le_antisymm hle hge
  exact ⟨i, n, hown⟩

/-- Only one thread holds the positions at the tail. -/
theorem Inv.at_tail_unique (h : Inv k T w) {σ : Side} {i j : ι} {n m : ℕ}
    (hi : w.own σ i = some (T σ, n)) (hj : w.own σ j = some (T σ, m)) : j = i := by
  have hn := ((h.tiles σ).inside hi).1
  have hm := ((h.tiles σ).inside hj).1
  exact (h.tiles σ).owner_unique hj hi ⟨le_rfl, Nat.lt_add_of_pos_right hm⟩
    ⟨le_rfl, Nat.lt_add_of_pos_right hn⟩

variable [DecidableEq ι]

/-! ## A thread that runs alone -/

/-- Thread `i` can finish its call alone: there is a run of steps of this thread, without wrap, at
whose end it is outside a call and the others stand where they stood. -/
def CanFinish (k : ℕ) (w : World ι) (i : ι) : Prop :=
  ∃ tr w', Run threadStep w tr w' ∧
    (∀ p ∈ tr, NoWrap p.1 p.2 ∧ (p.2 = .step i ∨ p.2 = .casFail i)) ∧ (∃ T, Inv k T w') ∧
    (w'.pc i).inCall = false ∧ ∀ j ≠ i, w'.pc j = w.pc j

/-- A thread outside a call. -/
theorem Inv.canFinish_of_not_inCall (h : Inv k T w) {i : ι} (hpc : (w.pc i).inCall = false) :
    CanFinish k w i :=
  ⟨[], w, .nil, fun _ hp => absurd hp List.not_mem_nil, ⟨T, h⟩, hpc, fun _ _ => rfl⟩

/-- One step more. -/
theorem CanFinish.of_step {i : ι} (h : CanFinish k w' i) (hs : threadStep w a = some w')
    (hwrap : NoWrap w a) (ha : a = .step i ∨ a = .casFail i) (hpc : ∀ j ≠ i, w'.pc j = w.pc j) :
    CanFinish k w i := by
  obtain ⟨tr, w'', hrun, htr, hinv, hout, hothers⟩ := h
  refine ⟨[(w, a)] ++ tr, w'', (Run.one hs).append hrun, ?_, hinv, hout, ?_⟩
  · rw [List.forall_mem_append, List.forall_mem_singleton]
    exact ⟨⟨hwrap, ha⟩, htr⟩
  · intro j hj
    rw [hothers j hj, hpc j hj]

omit [DecidableEq ι] in
/-- Only a compare-exchange can meet a head that has wrapped. -/
theorem noWrap_of_ne_cas {i : ι} (h : ∀ c r, w.pc i ≠ .cas c r) : NoWrap w (.step i) := by
  intro j c r hj hpc
  cases hj
  exact absurd hpc (h c r)

/-- One step of thread `i` itself, other than a compare-exchange. -/
theorem CanFinish.of_own_step {i : ι} (h : CanFinish k w' i) (hs : threadStep w (.step i) = some w')
    (hcas : ∀ c r, w.pc i ≠ .cas c r) (hpc : ∀ j ≠ i, w'.pc j = w.pc j) : CanFinish k w i :=
  h.of_step hs (noWrap_of_ne_cas hcas) (Or.inl rfl) hpc

/-- A thread that is about to store its tail. -/
theorem Inv.canFinish_store (h : Inv k T w) {i : ι} {c : Call} {r : Reservation}
    (hpc : w.pc i = .store c r) : CanFinish k w i := by
  have hself : (w.storeTail i c r).pc i = .returned c r.n (r.entries - r.n) :=
    Function.update_self _ _ _
  have hout : CanFinish k (w.storeTail i c r) i := by
    apply (h.storeTail hpc).canFinish_of_not_inCall
    rw [hself]
    rfl
  refine hout.of_own_step ?_ ?_ fun j hj => Function.update_of_ne hj _ _
  · simp only [threadStep, hpc]
  · intro c' r'
    rw [hpc]
    exact Pc.noConfusion

/-- A copy moves only the thread that makes it, which keeps its side and its reservation. -/
theorem copyOne_pc (w : World ι) (i : ι) (c : Call) (r : Reservation) (mv : ℕ × ℕ)
    (todo : List (ℕ × ℕ)) :
    (w.copyOne i c r mv todo).pos = w.pos ∧
      ∃ c', c'.side = c.side ∧
        (w.copyOne i c r mv todo).pc = Function.update w.pc i (.copy c' r todo) := by
  obtain ⟨side, table, n⟩ := c
  cases side with
  | prod => exact ⟨rfl, ⟨.prod, table, n⟩, rfl, rfl⟩
  | cons => exact ⟨rfl, ⟨.cons, Function.update table mv.2 (w.rb.slots mv.1), n⟩, rfl, rfl⟩

/-- A thread whose reservation is at the tail. -/
theorem Inv.canFinish_copy (h : Inv k T w) {i : ι} {c : Call} {r : Reservation}
    {todo : List (ℕ × ℕ)} (hpc : w.pc i = .copy c r todo) (hpos : w.pos i = T c.side) :
    CanFinish k w i := by
  have hcas : ∀ c' r', w.pc i ≠ .cas c' r' := by
    intro c' r'
    rw [hpc]
    exact Pc.noConfusion
  induction todo generalizing w c with
  | nil =>
      have hthread := h.thread i
      rw [hpc] at hthread
      have htail : (w.rb.lane c.side).tail = r.oldHead := by
        rw [h.lane, hthread.1, hpos]
      have hstore := (h.seeTail hpc htail).canFinish_store (Function.update_self _ _ _)
      refine hstore.of_own_step ?_ hcas fun j hj => Function.update_of_ne hj _ _
      simp only [threadStep, hpc, if_pos htail]
  | cons mv todo ih =>
      obtain ⟨hpos', c', hside, hpc'⟩ := copyOne_pc w i c r mv todo
      have hself : (w.copyOne i c r mv todo).pc i = .copy c' r todo := by
        rw [hpc', Function.update_self]
      have hrest : CanFinish k (w.copyOne i c r mv todo) i := by
        apply ih (h.copyOne hpc) hself
        · rw [hpos', hpos, hside]
        · intro c'' r''
          rw [hself]
          exact Pc.noConfusion
      refine hrest.of_own_step ?_ hcas fun j hj => ?_
      · simp only [threadStep, hpc]
      · rw [hpc', Function.update_of_ne hj]

/-- A thread at its compare-exchange that has seen the present heads, when nothing of its side is
reserved. -/
theorem Inv.canFinish_cas (h : Inv k T w) {i : ι} {c : Call} {r : Reservation}
    (hpc : w.pc i = .cas c r) (hmark : w.mark i = w.head) (hfree : w.head c.side = T c.side) :
    CanFinish k w i := by
  have hthread := h.thread i
  rw [hpc] at hthread
  have hhead : (w.rb.lane c.side).head = r.oldHead := by
    rw [h.lane, hthread.2.1, hmark]
  have hnowrap : ∃ σ, w.head σ < w.mark i σ + 2 ^ 31 := by
    refine ⟨.prod, ?_⟩
    rw [hmark]
    exact Nat.lt_add_of_pos_right (by decide)
  have hpos : (w.moveHead i c r).pos i = T c.side := by
    rw [← hfree]
    exact Function.update_self _ _ _
  have hcopy := (h.moveHead hpc hhead hnowrap).canFinish_copy (Function.update_self _ _ _) hpos
  refine hcopy.of_step (a := .step i) ?_ ?_ (Or.inl rfl) fun j hj => Function.update_of_ne hj _ _
  · simp only [threadStep, hpc, if_pos hhead]
  · intro j c' r' hj _
    cases hj
    exact hnowrap

/-- A thread that has loaded its head, if it can finish from the compare-exchange that comes next. -/
theorem Inv.canFinish_loadTail (h : Inv k T w) {i : ι} {c : Call} {oldHead : UInt32}
    (hpc : w.pc i = .loadTail c oldHead)
    (hcas : ∀ r, Inv k T (w.loadTail i c oldHead) → (w.loadTail i c oldHead).pc i = .cas c r →
      CanFinish k (w.loadTail i c oldHead) i) : CanFinish k w i := by
  have hinv := h.loadTail hpc
  have hnext : CanFinish k (w.loadTail i c oldHead) i := by
    have hself : (w.loadTail i c oldHead).pc i = _ := Function.update_self _ _ _
    split_ifs at hself with h0
    · apply hinv.canFinish_of_not_inCall
      rw [hself]
      rfl
    · exact hcas _ hinv hself
  refine hnext.of_own_step ?_ ?_ fun j hj => Function.update_of_ne hj _ _
  · simp only [threadStep, hpc]
  · intro c' r'
    rw [hpc]
    exact Pc.noConfusion

/-- A thread that has just loaded its head, at first or after a failed compare-exchange, when
nothing of its side is reserved. -/
theorem Inv.canFinish_loadHead (h : Inv k T w) {i : ι} {c : Call}
    (hpc : w.pc i = .loadHead c ∨ ∃ r, w.pc i = .cas c r) (hfree : w.head c.side = T c.side) :
    CanFinish k (w.loadHead i c) i :=
  (h.loadHead hpc).canFinish_loadTail (Function.update_self _ _ _) fun _ hinv hpc' =>
    hinv.canFinish_cas hpc' (Function.update_self _ _ _) hfree

/-- A thread at its compare-exchange, whatever it has seen: if it fails, it sees the present heads. -/
theorem Inv.canFinish_casFail (h : Inv k T w) {i : ι} {c : Call} {r : Reservation}
    (hpc : w.pc i = .cas c r) (hfree : w.head c.side = T c.side) : CanFinish k w i := by
  refine (h.canFinish_loadHead (Or.inr ⟨r, hpc⟩) hfree).of_step (a := .casFail i) ?_ ?_
    (Or.inr rfl) fun j hj => Function.update_of_ne hj _ _
  · simp only [threadStep, hpc]
  · intro j c' r' hj
    cases hj

/-- **A thread can finish its call alone, when nothing is reserved.** -/
theorem Inv.canFinish_of_free (h : Inv k T w) (hfree : ∀ σ, w.head σ = T σ) (i : ι) :
    CanFinish k w i := by
  have hnone : ∀ σ v, w.own σ i ≠ some v := by
    rintro σ ⟨p, n⟩ hown
    obtain ⟨hn, hlo, hhi⟩ := (h.tiles σ).inside hown
    rw [hfree] at hhi
    omega
  cases hpc : w.pc i with
  | idle =>
      apply h.canFinish_of_not_inCall
      rw [hpc]
      rfl
  | returned c n rest =>
      apply h.canFinish_of_not_inCall
      rw [hpc]
      rfl
  | loadHead c =>
      refine (h.canFinish_loadHead (Or.inl hpc) (hfree _)).of_own_step ?_ ?_
        fun j hj => Function.update_of_ne hj _ _
      · simp only [threadStep, hpc]
      · intro c' r'
        rw [hpc]
        exact Pc.noConfusion
  | loadTail c oldHead =>
      exact h.canFinish_loadTail hpc fun _ hinv hpc' => hinv.canFinish_casFail hpc' (hfree _)
  | cas c r => exact h.canFinish_casFail hpc (hfree _)
  | copy c r todo =>
      refine absurd ?_ (hnone c.side (w.pos i, r.n.toNat))
      rw [World.own, hpc]
      exact if_pos rfl
  | store c r =>
      refine absurd ?_ (hnone c.side (w.pos i, r.n.toNat))
      rw [World.own, hpc]
      exact if_pos rfl

/-- **Some call in progress can be finished.** If anything is reserved, that of the thread at the
tail; and any of them otherwise. -/
theorem Inv.exists_canFinish (h : Inv k T w) {i : ι} (hi : (w.pc i).inCall = true) :
    ∃ j, (w.pc j).inCall = true ∧ CanFinish k w j := by
  by_cases hfree : ∀ σ, w.head σ = T σ
  · exact ⟨i, hi, h.canFinish_of_free hfree i⟩
  · push Not at hfree
    obtain ⟨σ, hσ⟩ := hfree
    obtain ⟨j, n, hown⟩ := h.exists_at_tail (lt_of_le_of_ne (h.tiles σ).le hσ.symm)
    obtain ⟨c, r, rfl, hv, ⟨todo, hpc⟩ | hpc⟩ := own_eq_some hown
    · refine ⟨j, by rw [hpc]; rfl, h.canFinish_copy hpc ?_⟩
      exact (congrArg Prod.fst hv).symm
    · exact ⟨j, by rw [hpc]; rfl, h.canFinish_store hpc⟩

/-! ## No deadlock -/

/-- A ring of four slots and two threads: the first one has reserved two positions, and then the
second one reserves the third, copies its element and waits. -/
theorem exists_stall :
    ∃ (tr tr' : List (World Bool × Act Bool)) (w w' : World Bool),
      Run threadStep (World.init ⟨4, 8, 3, 3, ⟨0, 0⟩, ⟨0, 0⟩, fun _ => 0⟩) tr w ∧
      (∀ p ∈ tr, NoWrap p.1 p.2) ∧ Owns w .prod true (w.rb.lane .prod).tail ∧
      Run threadStep w tr' w' ∧ (∀ p ∈ tr', NoWrap p.1 p.2) ∧ (∀ p ∈ tr', p.2 ≠ .step true) ∧
      (w'.rb.lane .prod).head = 3 ∧ (w'.pc false).inCall = true := by
  let rb : KtRingbuf := ⟨4, 8, 3, 3, ⟨0, 0⟩, ⟨0, 0⟩, fun _ => 0⟩
  let c : Call := ⟨.prod, fun _ => 7, 2⟩
  let w₀ : World Bool := World.init rb
  let w₁ := w₀.goto true (.loadHead c)
  let w₂ := w₁.loadHead true c
  let r := reserve .variable 2 0 (entriesSeen rb 0 .prod)
  let w₃ := w₂.goto true (.cas c r)
  let w₄ := w₃.moveHead true c r
  have h₁ : threadStep w₀ (.call true c) = some w₁ := rfl
  have h₂ : threadStep w₁ (.step true) = some w₂ := rfl
  have h₃ : threadStep w₂ (.step true) = some w₃ :=
    congrArg (fun pc => some (w₂.goto true pc)) (if_neg (by decide))
  have h₄ : threadStep w₃ (.step true) = some w₄ :=
    show (if (w₃.rb.lane .prod).head = r.oldHead then some w₄ else some (w₃.loadHead true c)) = _
      from if_pos rfl
  have hrun := (((Run.one h₁).append (Run.one h₂)).append (Run.one h₃)).append (Run.one h₄)
  let ok : World Bool → Act Bool → Bool := fun w _ => decide (w.head .prod < 2 ^ 31)
  have hexec : (exec (fun w a => if ok w a then threadStep w a else none) w₄
      [.call false c, .step false, .step false, .step false, .step false, .step false]).map
        (fun w => ((w.rb.lane .prod).head, (w.pc false).inCall)) = some (3, true) := by
    decide +kernel
  obtain ⟨w', hw', hend⟩ := Option.map_eq_some_iff.mp hexec
  obtain ⟨tr', hguarded, hacts⟩ := Run.of_exec hw'
  obtain ⟨hrun', hok⟩ := hguarded.of_guarded
  rw [Prod.mk.injEq] at hend
  refine ⟨_, tr', w₄, w', hrun, ?_, ⟨rfl, by decide⟩, hrun', ?_, ?_, hend⟩
  · simp only [List.nil_append, List.cons_append, List.forall_mem_cons]
    refine ⟨?_, ?_, ?_, ?_, fun _ hp => absurd hp List.not_mem_nil⟩ <;>
      exact fun i _ _ _ _ => ⟨.prod, Nat.lt_add_left _ (by decide)⟩
  · intro p hp i c r _ _
    exact ⟨.prod, Nat.lt_add_left _ (of_decide_eq_true (hok p hp))⟩
  · intro p hp hstep
    have hmem := List.mem_map_of_mem (f := Prod.snd) hp
    rw [hacts, hstep] at hmem
    simp at hmem

section Finite

variable [Fintype ι]

/-- The threads inside a call. -/
def World.inCalls (w : World ι) : Finset ι := Finset.univ.filter fun i => (w.pc i).inCall = true

omit [DecidableEq ι] in
theorem World.mem_inCalls {i : ι} : i ∈ w.inCalls ↔ (w.pc i).inCall = true := by
  simp [World.inCalls]

/-- From a state of the invariant, all calls can return. -/
theorem Inv.all_return (h : Inv k T w) :
    ∃ tr w', Run threadStep w tr w' ∧ (∀ p ∈ tr, NoWrap p.1 p.2 ∧ ∀ i c, p.2 ≠ .call i c) ∧
      ∀ i, (w'.pc i).inCall = false := by
  -- on the number of calls in progress: one of them returns, and the others stay where they are
  induction hn : w.inCalls.card generalizing w T with
  | zero =>
      refine ⟨[], w, .nil, fun _ hp => absurd hp List.not_mem_nil, fun i => ?_⟩
      rw [Finset.card_eq_zero] at hn
      have hi : i ∉ w.inCalls := hn ▸ Finset.notMem_empty i
      rw [World.mem_inCalls, Bool.not_eq_true] at hi
      exact hi
  | succ n ih =>
      obtain ⟨i, hi⟩ : w.inCalls.Nonempty := Finset.card_pos.mp (by omega)
      obtain ⟨j, hj, tr, w', hrun, htr, ⟨T', h'⟩, hout, hothers⟩ :=
        h.exists_canFinish (World.mem_inCalls.mp hi)
      have hfewer : w'.inCalls = w.inCalls.erase j := by
        ext l
        rw [Finset.mem_erase, World.mem_inCalls, World.mem_inCalls]
        by_cases hl : l = j
        · simp [hl, hout]
        · simp [hl, hothers l hl]
      have hcard : w'.inCalls.card = n := by
        rw [hfewer, Finset.card_erase_of_mem (World.mem_inCalls.mpr hj), hn]
        rfl
      obtain ⟨tr', w'', hrun', htr', hall⟩ := ih h' hcard
      refine ⟨tr ++ tr', w'', hrun.append hrun', ?_, hall⟩
      rw [List.forall_mem_append]
      refine ⟨fun p hp => ⟨(htr p hp).1, fun l c hcall => ?_⟩, htr'⟩
      rcases (htr p hp).2 with hp' | hp' <;> rw [hp'] at hcall <;> cases hcall

/-- **No deadlock.** For a ring of any power-of-two size made by `kt_ringbuf_create`, any finite
number of threads and bursts of any length: from every state reached by interleaved atomic steps in
which no compare-exchange meets a head that has wrapped (`NoWrap`), there is a continuation of the
same kind, without a new call, at whose end every call has returned. -/
theorem calls_can_return (alloc : UInt32 → Option (ℕ → UInt64)) (count esize : UInt32)
    (rb : KtRingbuf) (k : ℕ) (hcount : count.toNat = 2 ^ k)
    (hcreate : ktRingbufCreate alloc count esize = some rb) (tr : List (World ι × Act ι))
    (w : World ι) (hrun : Run threadStep (World.init rb) tr w)
    (hwrap : ∀ p ∈ tr, NoWrap p.1 p.2) :
    ∃ tr' w', Run threadStep w tr' w' ∧ (∀ p ∈ tr', NoWrap p.1 p.2 ∧ ∀ i c, p.2 ≠ .call i c) ∧
      ∀ i, (w'.pc i).inCall = false := by
  have hk : k < 32 := (Nat.pow_lt_pow_iff_right Nat.one_lt_two).mp (hcount ▸ count.toNat_lt)
  obtain ⟨T, h⟩ := inv_run (ringAt_create (Nat.le_of_lt_succ hk) hcount hcreate) hrun hwrap
  exact h.all_return

/-- The calls of two threads, of which one waits for the other, can both return. -/
theorem calls_can_return_two :
    ∃ (w w' : World Bool) (tr' : List (World Bool × Act Bool)),
      (w.rb.lane .prod).head = 3 ∧ (w.pc false).inCall = true ∧ Run threadStep w tr' w' ∧
      ∀ i, (w'.pc i).inCall = false := by
  obtain ⟨tr₁, tr₂, w₁, w₂, hrun₁, hwrap₁, -, hrun₂, hwrap₂, -, hhead, hwaits⟩ := exists_stall
  obtain ⟨tr', w', hrun', -, hall⟩ := calls_can_return (fun _ => some fun _ => 0) 4 8 _ 2 rfl rfl
    (tr₁ ++ tr₂) w₂ (hrun₁.append hrun₂) (List.forall_mem_append.mpr ⟨hwrap₁, hwrap₂⟩)
  exact ⟨w₂, w', tr', hhead, hwaits, hrun', hall⟩

end Finite

/-! ## A thread that stalls -/

omit [DecidableEq ι] in
/-- A step of thread `l` that keeps what it holds keeps what anybody holds. -/
theorem own_kept {l : ι} {σ : Side} (hpc : ∀ j ≠ l, w'.pc j = w.pc j)
    (hpos : ∀ j ≠ l, w'.pos j = w.pos j) (hl : ∀ v, w.own σ l = some v → w'.own σ l = some v) :
    ∀ j v, w.own σ j = some v → w'.own σ j = some v := by
  intro j v hj
  by_cases hjl : j = l
  · subst hjl
    exact hl v hj
  · rw [World.own, hpc j hjl, hpos j hjl]
    exact hj

/-- While the thread at the tail takes no step, a step of another thread leaves the tail and all
reservations of this side as they are. -/
theorem Inv.stalled_step (h : Inv k T w) (hwrap : NoWrap w a) (hs : threadStep w a = some w')
    {σ : Side} {i : ι} {n : ℕ} (hi : w.own σ i = some (T σ, n)) (hstall : a ≠ .step i) :
    ∃ T', Inv k T' w' ∧ T' σ = T σ ∧ ∀ j v, w.own σ j = some v → w'.own σ j = some v := by
  obtain ⟨l, heff⟩ := threadStep_effect hs
  -- a thread that holds nothing of this side has nothing to keep
  have hkept : w.own σ l = none → ∀ v, w.own σ l = some v → w'.own σ l = some v := by
    intro hnone v hv
    rw [hnone] at hv
    cases hv
  cases heff with
  | call c hpc =>
      refine ⟨T, h.call c hpc, rfl, own_kept (fun j hj => Function.update_of_ne hj _ _)
        (fun _ _ => rfl) (hkept ?_)⟩
      rcases hpc with hpc | ⟨_, _, _, hpc⟩ <;> rw [World.own, hpc] <;> rfl
  | loadHead _ c hpc =>
      refine ⟨T, h.loadHead hpc, rfl, own_kept (fun j hj => Function.update_of_ne hj _ _)
        (fun _ _ => rfl) (hkept ?_)⟩
      rcases hpc with hpc | ⟨_, hpc⟩ <;> rw [World.own, hpc] <;> rfl
  | loadTail c oldHead hpc =>
      refine ⟨T, h.loadTail hpc, rfl, own_kept (fun j hj => Function.update_of_ne hj _ _)
        (fun _ _ => rfl) (hkept ?_)⟩
      rw [World.own, hpc]
      rfl
  | moveHead c r hpc heq =>
      refine ⟨T, h.moveHead hpc heq (hwrap l c r rfl hpc), rfl, own_kept
        (fun j hj => Function.update_of_ne hj _ _) (fun j hj => Function.update_of_ne hj _ _)
        (hkept ?_)⟩
      rw [World.own, hpc]
      rfl
  | copyOne c r mv todo hpc =>
      obtain ⟨hpos, c', hside, hpc'⟩ := copyOne_pc w l c r mv todo
      refine ⟨T, h.copyOne hpc, rfl, own_kept (l := l) (fun j hj => ?_) (fun j _ => congrFun hpos j)
        fun v hv => ?_⟩
      · rw [hpc', Function.update_of_ne hj]
      · rw [World.own, hpc', Function.update_self, hpos, Pc.holds, hside]
        rw [World.own, hpc] at hv
        exact hv
  | wait c r hpc => exact ⟨T, h, rfl, fun _ _ hv => hv⟩
  | seeTail c r hpc heq =>
      refine ⟨T, h.seeTail hpc heq, rfl, own_kept (l := l)
        (fun j hj => Function.update_of_ne hj _ _) (fun _ _ => rfl) fun v hv => ?_⟩
      have hself : (w.goto l (.store c r)).pc l = .store c r := Function.update_self _ _ _
      rw [World.own, hpc] at hv
      rw [World.own, hself]
      exact hv
  | storeTail c r hpc =>
      have hother : c.side ≠ σ := by
        rintro rfl
        have hown : w.own c.side l = some (T c.side, r.n.toNat) := by
          rw [World.own, hpc, h.at_tail l c r hpc]
          exact if_pos rfl
        exact hstall (congrArg Act.step (h.at_tail_unique hi hown))
      refine ⟨_, h.storeTail hpc, Function.update_of_ne hother.symm _ _, own_kept
        (fun j hj => Function.update_of_ne hj _ _) (fun _ _ => rfl) (hkept ?_)⟩
      rw [World.own, hpc]
      exact if_neg hother

/-- A step without wrap that thread `i` does not take. -/
def StepWithout (i : ι) (w : World ι) (a : Act ι) : Prop := NoWrap w a ∧ a ≠ .step i

/-- The same for a whole run. -/
theorem Inv.stalled_run (h : Inv k T w) {σ : Side} {i : ι} {n : ℕ}
    (hi : w.own σ i = some (T σ, n)) {tr : List (World ι × Act ι)} (hrun : Run threadStep w tr w')
    (hok : ∀ p ∈ tr, StepWithout i p.1 p.2) :
    ∃ T', Inv k T' w' ∧ T' σ = T σ ∧ ∀ j v, w.own σ j = some v → w'.own σ j = some v := by
  refine hrun.invariant (I := fun u => ∃ T', Inv k T' u ∧ T' σ = T σ ∧
    ∀ j v, w.own σ j = some v → u.own σ j = some v) ⟨T, h, rfl, fun _ _ hv => hv⟩ ?_ hok
  rintro u a u' ⟨T', hu, htail, hown⟩ ⟨hwrap, hne⟩ hs
  have hiu : u.own σ i = some (T' σ, n) := by
    rw [htail]
    exact hown i _ hi
  obtain ⟨T'', hu', htail', hown'⟩ := hu.stalled_step hwrap hs hiu hne
  exact ⟨T'', hu', htail'.trans htail, fun j v hv => hown' j v (hown j v hv)⟩

omit [DecidableEq ι] in
/-- The thread that holds the stored tail holds the positions at the tail. -/
theorem Inv.own_of_owns_tail (h : Inv k T w) {σ : Side} {i : ι}
    (hi : Owns w σ i (w.rb.lane σ).tail) : ∃ n, w.own σ i = some (T σ, n) := by
  obtain ⟨h₁, h₂, h₃, h₄⟩ := h.chain
  have hpow := h.shape.pow_le
  obtain ⟨p, n, hown, x, hpx, hxn, htail⟩ := h.owns_iff.mp hi
  obtain ⟨-, hlo, hhi⟩ := (h.tiles σ).inside hown
  have hnear : x < T σ + 2 ^ 32 := by
    cases σ with
    | prod => omega
    | cons => omega
  rw [h.lane] at htail
  have hx : x = T σ := (ofNat_inj (hlo.trans hpx) hnear).mp htail.symm
  have hp : p = T σ := le_antisymm (hx ▸ hpx) hlo
  exact ⟨n, hp ▸ hown⟩

/-- **A stalled thread blocks its side.** For a ring of any power-of-two size made by
`kt_ringbuf_create`, any number of threads and bursts of any length, in every state reached without
wrap (`NoWrap`): if thread `i` has reserved the position at the tail of a side, then whatever the
others do while it takes no step, the tail of this side stays where it is and every reservation of
this side is still held, so that none of these calls returns. -/
theorem stalled_thread_blocks (alloc : UInt32 → Option (ℕ → UInt64)) (count esize : UInt32)
    (rb : KtRingbuf) (k : ℕ) (hcount : count.toNat = 2 ^ k)
    (hcreate : ktRingbufCreate alloc count esize = some rb) (tr : List (World ι × Act ι))
    (w : World ι) (hrun : Run threadStep (World.init rb) tr w) (hwrap : ∀ p ∈ tr, NoWrap p.1 p.2)
    (σ : Side) (i : ι) (hi : Owns w σ i (w.rb.lane σ).tail) (tr' : List (World ι × Act ι))
    (w' : World ι) (hrun' : Run threadStep w tr' w') (hwrap' : ∀ p ∈ tr', NoWrap p.1 p.2)
    (hstall : ∀ p ∈ tr', p.2 ≠ .step i) :
    (w'.rb.lane σ).tail = (w.rb.lane σ).tail ∧ ∀ j x, Owns w σ j x → Owns w' σ j x := by
  have hk : k < 32 := (Nat.pow_lt_pow_iff_right Nat.one_lt_two).mp (hcount ▸ count.toNat_lt)
  obtain ⟨T, h⟩ := inv_run (ringAt_create (Nat.le_of_lt_succ hk) hcount hcreate) hrun hwrap
  obtain ⟨n, hown⟩ := h.own_of_owns_tail hi
  obtain ⟨T', h', htail, hkept⟩ := h.stalled_run hown hrun' fun p hp => ⟨hwrap' p hp, hstall p hp⟩
  constructor
  · rw [h'.lane, h.lane, htail]
  · intro j x hj
    obtain ⟨a, m, ha, hx⟩ := h.owns_iff.mp hj
    exact h'.owns_iff.mpr ⟨a, m, hkept j _ ha, hx⟩

/-- The first of two threads has reserved two positions and stalls; the second one reserves the
third, copies its element and waits. -/
theorem stalled_thread_blocks_two :
    ∃ (w w' : World Bool) (tr' : List (World Bool × Act Bool)), Run threadStep w tr' w' ∧
      (w'.rb.lane .prod).head = 3 ∧ (w'.pc false).inCall = true ∧
      (w'.rb.lane .prod).tail = (w.rb.lane .prod).tail ∧
      ∀ j x, Owns w .prod j x → Owns w' .prod j x := by
  obtain ⟨tr, tr', w, w', hrun, hwrap, howns, hrun', hwrap', hstall, hhead, hwaits⟩ := exists_stall
  exact ⟨w, w', tr', hrun', hhead, hwaits, stalled_thread_blocks (fun _ => some fun _ => 0) 4 8 _ 2
    rfl rfl tr w hrun hwrap .prod true howns tr' w' hrun' hwrap' hstall⟩

end KuberneTSN.Ring
