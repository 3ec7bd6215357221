import KuberneTSN.Ring.Reservation

/-!
# Delivery by concurrent bursts

What is in the slots while many threads enqueue and dequeue. `Delivery` says that the log of slot
accesses is one of exactly-once deliveries, that the slots still hold every element that was written
and not given back, and how far each thread has come with its copies.

* `delivery_step` — every atomic step keeps it, if no compare-exchange meets a head that has
  wrapped (`NoWrap`) and no burst crosses the end of the array (`StaysInside`);
* `exactly_once_delivery` — bursts of one element never cross the end of the array, so that for
  these the result holds of every run without wrap.
-/

namespace KuberneTSN.Ring

open Lib

variable {ι : Type*} {k : ℕ} {T T' : Side → ℕ} {w w' : World ι} {a : Act ι}

/-- Side `σ` has accessed position `p`, in slot `s`, with value `v`: producers write, consumers
read. -/
def Accessed (log : List (Access ι UInt64)) (p s : ℕ) (v : UInt64) : Side → Prop
  | .prod => Wrote log p s v
  | .cons => Read log p s v

/-- A thread that has reserved `n` positions from `pos` on, inside the array, has copied the first
`done` of them and no others. -/
structure Progress (k : ℕ) (log : List (Access ι UInt64)) (pos : ℕ) (c : Call) (n done : ℕ) :
    Prop where
  fits : pos % 2 ^ k + n ≤ 2 ^ k
  did : ∀ q < done, Accessed log (pos + q) ((pos + q) % 2 ^ k) (c.table q) c.side
  rest : ∀ q, done ≤ q → q < n → ∀ s v, ¬ Accessed log (pos + q) s v c.side

/-- How far a thread at `pc` has come. -/
def PcProgress (k : ℕ) (log : List (Access ι UInt64)) (pos : ℕ) : Pc → Prop
  | .copy c r todo => ∃ done ≤ r.n.toNat,
      todo = block (pos % 2 ^ k + done) done (r.n.toNat - done) ∧
        Progress k log pos c r.n.toNat done
  | .store c r => Progress k log pos c r.n.toNat r.n.toNat
  | .returned c n _ => ∀ q < n.toNat, Accessed log (pos + q) ((pos + q) % 2 ^ k) (c.table q) c.side
  | _ => True

/-- The contents of the ring. -/
structure Delivery (k : ℕ) (T : Side → ℕ) (w : World ι) : Prop where
  once : ExactlyOnce w.log
  reserved : ∀ σ p s v, Accessed w.log p s v σ → s = p % 2 ^ k ∧ p < w.head σ
  published : ∀ σ p, p < T σ → ∃ v, Accessed w.log p (p % 2 ^ k) v σ
  content : ∀ p s v, Wrote w.log p s v → T .cons ≤ p → w.rb.slots s = v
  progress : ∀ i, PcProgress k w.log (w.pos i) (w.pc i)

/-- A compare-exchange that succeeds, if it is one, reserves a burst that ends at or before the end
of the array. -/
def StaysInside (w : World ι) (a : Act ι) : Prop :=
  ∀ i c r, a = .step i → w.pc i = .cas c r → (w.rb.lane c.side).head = r.oldHead →
    (firstSlot w.rb r.oldHead c.side).toNat + r.n.toNat ≤ w.rb.size.toNat

variable [DecidableEq ι]

/-! ## Steps that copy nothing -/

/-- Thread `i` moves, without an access to a slot and without passing a counter. -/
theorem Delivery.quiet (h : Delivery k T w) {i : ι} (hlog : w'.log = w.log)
    (hslots : w'.rb.slots = w.rb.slots) (hhead : ∀ σ, w.head σ ≤ w'.head σ)
    (hpc : ∀ j ≠ i, w'.pc j = w.pc j) (hpos : ∀ j ≠ i, w'.pos j = w.pos j)
    (hi : PcProgress k w.log (w'.pos i) (w'.pc i)) : Delivery k T w' where
  once := hlog ▸ h.once
  reserved σ p s v hacc := by
    rw [hlog] at hacc
    obtain ⟨hs, hp⟩ := h.reserved σ p s v hacc
    exact ⟨hs, hp.trans_le (hhead σ)⟩
  published := hlog ▸ h.published
  content p s v hw hp := by
    rw [hlog] at hw
    rw [hslots]
    exact h.content p s v hw hp
  progress j := by
    rw [hlog]
    by_cases hj : j = i
    · subst hj
      exact hi
    · rw [hpc j hj, hpos j hj]
      exact h.progress j

/-- Thread `i` only goes on at another `pc`. -/
theorem Delivery.goto (h : Delivery k T w) {i : ι} {pc : Pc}
    (hi : PcProgress k w.log (w.pos i) pc) : Delivery k T (w.goto i pc) := by
  refine h.quiet (i := i) rfl rfl (fun _ => le_rfl) (fun j hj => Function.update_of_ne hj _ _)
    (fun _ _ => rfl) ?_
  have hself : (w.goto i pc).pc i = pc := Function.update_self _ _ _
  rw [hself]
  exact hi

/-- The load of the other side's tail. -/
theorem Delivery.loadTail (h : Delivery k T w) {i : ι} (c : Call) (oldHead : UInt32) :
    Delivery k T (w.loadTail i c oldHead) := by
  unfold World.loadTail
  dsimp only
  split_ifs
  · exact h.goto fun q hq => absurd hq (Nat.not_lt_zero q)
  · exact h.goto trivial

/-- The load of the own head. -/
theorem Delivery.loadHead (h : Delivery k T w) {i : ι} (c : Call) :
    Delivery k T (w.loadHead i c) := by
  refine h.quiet (i := i) rfl rfl (fun _ => le_rfl) (fun j hj => Function.update_of_ne hj _ _)
    (fun _ _ => rfl) ?_
  have hself : (w.loadHead i c).pc i = .loadTail c (w.rb.lane c.side).head :=
    Function.update_self _ _ _
  rw [hself]
  trivial

/-- The wait ends: all has been copied. -/
theorem Delivery.seeTail (h : Delivery k T w) {i : ι} {c : Call} {r : Reservation}
    (hpc : w.pc i = .copy c r []) : Delivery k T (w.goto i (.store c r)) := by
  have hprog := h.progress i
  rw [hpc] at hprog
  obtain ⟨done, hle, htodo, hp⟩ := hprog
  have hdone : r.n.toNat - done = 0 := by
    have hlength := congrArg List.length htodo
    simpa [block] using hlength.symm
  obtain rfl : done = r.n.toNat := by omega
  exact h.goto hp

/-- A successful compare-exchange: nothing of the reserved interval has been touched. -/
theorem Delivery.moveHead (h : Delivery k T w) (hinv : Inv k T w) {i : ι} {c : Call}
    {r : Reservation} (hinv' : Inv k T (w.moveHead i c r))
    (heq : (w.rb.lane c.side).head = r.oldHead)
    (hfits : (firstSlot w.rb r.oldHead c.side).toNat + r.n.toNat ≤ w.rb.size.toNat) :
    Delivery k T (w.moveHead i c r) := by
  have hself : (w.moveHead i c r).pc i = .copy c r (ktRingbufElemMoves w.rb.size
      (firstSlot w.rb r.oldHead c.side) r.n) := Function.update_self _ _ _
  have hpos : (w.moveHead i c r).pos i = w.head c.side := Function.update_self _ _ _
  have hn : r.n.toNat ≤ 2 ^ k - 1 := by
    have hown : (w.moveHead i c r).own c.side i = some (w.head c.side, r.n.toNat) := by
      rw [World.own, hself, hpos]
      exact if_pos rfl
    obtain ⟨-, hlo, hhi⟩ := (hinv'.tiles c.side).inside hown
    obtain ⟨h₁, h₂, h₃, h₄⟩ := hinv'.chain
    cases hc : c.side <;> rw [hc] at hlo hhi <;> omega
  have hmask := hinv.shape.firstSlot_eq r.oldHead c.side
  have hold : r.oldHead = UInt32.ofNat (w.head c.side) := by
    rw [← heq, hinv.lane]
  have hslot : (firstSlot w.rb r.oldHead c.side).toNat = w.head c.side % 2 ^ k := by
    rw [hmask, hold]
    exact toNat_ofNat_and_mask (hinv.shape.le.trans (by decide)) hinv.shape.toNat_mask
  rw [hslot, hinv.shape.size] at hfits
  refine h.quiet (i := i) rfl (by cases hc : c.side <;> simp only [World.moveHead, hc] <;> rfl) ?_
    (fun j hj => Function.update_of_ne hj _ _) (fun j hj => Function.update_of_ne hj _ _) ?_
  · intro σ
    simp only [World.moveHead, Function.update_apply]
    split_ifs with hσ
    · rw [hσ]
      exact Nat.le_add_right _ _
    · exact le_rfl
  · rw [hself, hpos, hmask, hold, hinv.shape.moves hn]
    refine ⟨0, Nat.zero_le _, rfl, hfits, fun q hq => absurd hq (Nat.not_lt_zero q), ?_⟩
    intro q _ _ s v hacc
    exact absurd (h.reserved _ _ _ _ hacc).2 (by omega)

/-- The store of the tail: all of the interval has been accessed. -/
theorem Delivery.storeTail (h : Delivery k T w) (hinv : Inv k T w) {i : ι} {c : Call}
    {r : Reservation} (hpc : w.pc i = .store c r) :
    Delivery k (Function.update T c.side (T c.side + r.n.toNat)) (w.storeTail i c r) := by
  have hprog := h.progress i
  rw [hpc] at hprog
  have hpos := hinv.at_tail i c r hpc
  have hself : (w.storeTail i c r).pc i = .returned c r.n (r.entries - r.n) :=
    Function.update_self _ _ _
  have hquiet : Delivery k T (w.storeTail i c r) := by
    refine h.quiet (i := i) rfl (by cases hc : c.side <;> simp only [World.storeTail, hc] <;> rfl)
      (fun _ => le_rfl) (fun j hj => Function.update_of_ne hj _ _) (fun _ _ => rfl) ?_
    rw [hself]
    exact hprog.did
  refine ⟨hquiet.once, hquiet.reserved, ?_, ?_, hquiet.progress⟩
  · intro σ p hp
    rw [Function.update_apply] at hp
    split_ifs at hp with hσ
    · subst hσ
      rcases lt_or_ge p (T c.side) with hlt | hge
      · exact h.published c.side p hlt
      · have hdid := hprog.did (p - T c.side) (by omega)
        rw [hpos, Nat.add_sub_cancel' hge] at hdid
        exact ⟨_, hdid⟩
    · exact h.published σ p hp
  · intro p s v hw hp
    refine hquiet.content p s v hw (le_trans ?_ hp)
    rw [Function.update_apply]
    split_ifs with hσ
    · rw [hσ]
      exact Nat.le_add_right _ _
    · exact le_rfl

/-! ## Copies -/

/-- The access that side `σ` makes. -/
def Side.access (i : ι) (p s : ℕ) (v : UInt64) : Side → Access ι UInt64
  | .prod => .write i p s v
  | .cons => .read i p s v

section frame

omit [DecidableEq ι]

/-- A new access. -/
theorem accessed_append {log : List (Access ι UInt64)} {i : ι} {σ σ' : Side} {p p' s s' : ℕ}
    {v v' : UInt64} :
    Accessed (log ++ [σ.access i p s v]) p' s' v' σ' ↔
      Accessed log p' s' v' σ' ∨ (σ' = σ ∧ p' = p ∧ s' = s ∧ v' = v) := by
  cases σ <;> cases σ' <;>
    simp [Side.access, Accessed, wrote_write, wrote_read, read_write, read_read]

/-- The progress of a thread survives an access to a position that it does not hold. -/
theorem PcProgress.append {log : List (Access ι UInt64)} {pos : ℕ} {pc : Pc}
    (h : PcProgress k log pos pc) (i : ι) (σ : Side) {p : ℕ} (s : ℕ) (v : UInt64)
    (hout : ∀ a n, pc.holds σ pos = some (a, n) → ¬ (a ≤ p ∧ p < a + n)) :
    PcProgress k (log ++ [σ.access i p s v]) pos pc := by
  have hkeep : ∀ (c : Call) (n done : ℕ), (c.side = σ → ¬ (pos ≤ p ∧ p < pos + n)) →
      Progress k log pos c n done → Progress k (log ++ [σ.access i p s v]) pos c n done := by
    intro c n done hnot hp
    refine ⟨hp.fits, fun q hq => accessed_append.mpr (Or.inl (hp.did q hq)), ?_⟩
    intro q hdone hqn s' v' hacc
    rcases accessed_append.mp hacc with hold | ⟨hσ, heq, -, -⟩
    · exact hp.rest q hdone hqn s' v' hold
    · exact hnot hσ ⟨by omega, by omega⟩
  cases pc with
  | copy c r todo =>
      obtain ⟨done, hle, htodo, hp⟩ := h
      exact ⟨done, hle, htodo, hkeep c _ _ (fun hσ => hout _ _ (if_pos hσ)) hp⟩
  | store c r => exact hkeep c _ _ (fun hσ => hout _ _ (if_pos hσ)) h
  | returned c n rest => exact fun q hq => accessed_append.mpr (Or.inl (h q hq))
  | idle => trivial
  | loadHead c => trivial
  | loadTail c oldHead => trivial
  | cas c r => trivial

/-- A thread that copies: the next access is to position `pos i + done`, in its slot. -/
theorem Delivery.copying (h : Delivery k T w) {i : ι} {c : Call} {r : Reservation} {mv : ℕ × ℕ}
    {todo : List (ℕ × ℕ)} (hpc : w.pc i = .copy c r (mv :: todo)) :
    ∃ done < r.n.toNat, mv = ((w.pos i + done) % 2 ^ k, done) ∧
      todo = block (w.pos i % 2 ^ k + (done + 1)) (done + 1) (r.n.toNat - (done + 1)) ∧
      Progress k w.log (w.pos i) c r.n.toNat done ∧
      w.own c.side i = some (w.pos i, r.n.toNat) := by
  have hprog := h.progress i
  rw [hpc] at hprog
  obtain ⟨done, hle, htodo, hp⟩ := hprog
  have hown : w.own c.side i = some (w.pos i, r.n.toNat) := by
    rw [World.own, hpc]
    exact if_pos rfl
  have hlt : done < r.n.toNat := by
    by_contra hge
    rw [Nat.sub_eq_zero_of_le (not_lt.mp hge)] at htodo
    cases htodo
  have hsplit : r.n.toNat - done = 1 + (r.n.toNat - (done + 1)) := by omega
  rw [hsplit, ← block_append, block_one, List.singleton_append, List.cons.injEq] at htodo
  refine ⟨done, hlt, ?_, htodo.2, hp, hown⟩
  rw [htodo.1, add_mod_of_fits hp.fits hlt]

/-- An element that is written and not given back shares its slot with no reserved position. -/
theorem Delivery.slot_ne (h : Delivery k T w) (hinv : Inv k T w) {i : ι} {σ : Side} {a n p : ℕ}
    (hown : w.own σ i = some (a, n)) (hp : a ≤ p ∧ p < a + n) {p' s' : ℕ} {v' : UInt64}
    (hw : Wrote w.log p' s' v') (hlive : T .cons ≤ p') (hne : p' ≠ p) : s' ≠ p % 2 ^ k := by
  obtain ⟨h₁, h₂, h₃, h₄⟩ := hinv.chain
  have hpos := Nat.two_pow_pos k
  have hin := hinv.inside hown hp
  obtain ⟨rfl, hlt⟩ := h.reserved .prod p' s' v' hw
  rcases lt_or_gt_of_ne hne with hlt' | hgt
  · exact mod_ne_of_lt hlt' (by cases σ <;> omega)
  · exact (mod_ne_of_lt hgt (by cases σ <;> omega)).symm

end frame

/-- **One copy**, the part that both sides share: thread `i`, which has copied `done` of its
positions, accesses the next one; `c'` is its call afterwards. -/
theorem Delivery.copyOne (h : Delivery k T w) (hinv : Inv k T w) {i : ι} {c : Call} (c' : Call)
    {r : Reservation} {done : ℕ} {todo : List (ℕ × ℕ)} (hlt : done < r.n.toNat)
    (htodo : todo = block (w.pos i % 2 ^ k + (done + 1)) (done + 1) (r.n.toNat - (done + 1)))
    (hp : Progress k w.log (w.pos i) c r.n.toNat done)
    (hown : w.own c.side i = some (w.pos i, r.n.toNat))
    (hside : c'.side = c.side) (htable : ∀ q < done, c'.table q = c.table q)
    (hlog : w'.log = w.log ++
      [c.side.access i (w.pos i + done) ((w.pos i + done) % 2 ^ k) (c'.table done)])
    (hw : w'.head = w.head ∧ w'.pos = w.pos ∧ w'.pc = Function.update w.pc i (.copy c' r todo))
    (honce : ExactlyOnce w'.log)
    (hcontent : ∀ p s v, Wrote w'.log p s v → T .cons ≤ p → w'.rb.slots s = v) :
    Delivery k T w' := by
  obtain ⟨hhead, hpos, hpc⟩ := hw
  have hin : w.pos i ≤ w.pos i + done ∧ w.pos i + done < w.pos i + r.n.toNat := by omega
  refine ⟨honce, ?_, ?_, hcontent, ?_⟩
  · intro σ p s v hacc
    rw [hlog] at hacc
    rw [hhead]
    rcases accessed_append.mp hacc with hold | ⟨rfl, rfl, rfl, rfl⟩
    · exact h.reserved σ p s v hold
    · exact ⟨rfl, (hinv.inside hown hin).2⟩
  · intro σ p hpT
    obtain ⟨v, hacc⟩ := h.published σ p hpT
    rw [hlog]
    exact ⟨v, accessed_append.mpr (Or.inl hacc)⟩
  · intro j
    rw [hlog, hpos, hpc]
    by_cases hj : j = i
    · subst hj
      rw [Function.update_self]
      refine ⟨done + 1, hlt, htodo, hp.fits, ?_, ?_⟩
      · intro q hq
        rw [hside]
        rcases Nat.lt_succ_iff_lt_or_eq.mp hq with hq | rfl
        · rw [htable q hq]
          exact accessed_append.mpr (Or.inl (hp.did q hq))
        · exact accessed_append.mpr (Or.inr ⟨rfl, rfl, rfl, rfl⟩)
      · intro q hdone hqn s v hacc
        rw [hside] at hacc
        rcases accessed_append.mp hacc with hold | ⟨-, heq, -, -⟩
        · exact hp.rest q (by omega) hqn s v hold
        · omega
    · rw [Function.update_of_ne hj]
      refine (h.progress j).append i c.side _ _ ?_
      intro a n hholds hinside
      exact hj ((hinv.tiles c.side).owner_unique hholds hown hinside hin)

/-- A producer copies: the slot is free, for what was in it has been read. -/
theorem Delivery.copyProd (h : Delivery k T w) (hinv : Inv k T w) {i : ι} {table : ℕ → UInt64}
    {n : UInt32} {r : Reservation} {mv : ℕ × ℕ} {todo : List (ℕ × ℕ)}
    (hpc : w.pc i = .copy ⟨.prod, table, n⟩ r (mv :: todo)) :
    Delivery k T (w.copyOne i ⟨.prod, table, n⟩ r mv todo) := by
  obtain ⟨done, hlt, rfl, htodo, hp, hown⟩ := h.copying hpc
  have hin : w.pos i ≤ w.pos i + done ∧ w.pos i + done < w.pos i + r.n.toNat := by omega
  have hnew : ∀ s v, ¬ Wrote w.log (w.pos i + done) s v := hp.rest done le_rfl hlt
  have hne : ∀ {p s v}, Wrote w.log p s v → p ≠ w.pos i + done := by
    rintro p s v hw rfl
    exact hnew s v hw
  refine h.copyOne hinv ⟨.prod, table, n⟩ hlt htodo hp hown rfl (fun _ _ => rfl) rfl
    ⟨rfl, rfl, rfl⟩ ?_ ?_
  · refine h.once.write i _ hnew fun p' v' hw => ?_
    have hdead : p' < T .cons := by
      by_contra hlive
      exact h.slot_ne hinv hown hin hw (not_lt.mp hlive) (hne hw) rfl
    obtain ⟨v, hread⟩ := h.published .cons p' hdead
    obtain ⟨hslot, rfl⟩ := wrote_unique h.once.written_once (h.once.wrote_of_read hread) hw
    rw [← hslot]
    exact hread
  · intro p s v hw hlive
    rcases wrote_write.mp hw with hold | ⟨rfl, rfl, rfl⟩
    · refine (Function.update_of_ne (h.slot_ne hinv hown hin hold hlive (hne hold)) _ _).trans ?_
      exact h.content p s v hold hlive
    · exact Function.update_self _ _ _

/-- A consumer copies: its position has been published, and the slot still holds the element. -/
theorem Delivery.copyCons (h : Delivery k T w) (hinv : Inv k T w) {i : ι} {table : ℕ → UInt64}
    {n : UInt32} {r : Reservation} {mv : ℕ × ℕ} {todo : List (ℕ × ℕ)}
    (hpc : w.pc i = .copy ⟨.cons, table, n⟩ r (mv :: todo)) :
    Delivery k T (w.copyOne i ⟨.cons, table, n⟩ r mv todo) := by
  obtain ⟨done, hlt, rfl, htodo, hp, hown⟩ := h.copying hpc
  have hin := hinv.inside hown (p := w.pos i + done) ⟨by omega, by omega⟩
  have hnew : ∀ s v, ¬ Read w.log (w.pos i + done) s v := hp.rest done le_rfl hlt
  obtain ⟨v, hwrote⟩ := h.published .prod (w.pos i + done) (hin.2.trans_le (hinv.head_le .cons))
  have hv := h.content _ _ _ hwrote hin.1
  refine h.copyOne hinv
    ⟨.cons, Function.update table done (w.rb.slots ((w.pos i + done) % 2 ^ k)), n⟩
    hlt htodo hp hown rfl ?_ ?_ ⟨rfl, rfl, rfl⟩ ?_ ?_
  · intro q hq
    exact Function.update_of_ne hq.ne _ _
  · dsimp only
    rw [Function.update_self]
    rfl
  · refine h.once.read i hnew ?_
    rw [hv]
    exact hwrote
  · intro p s v hw hlive
    exact h.content p s v (wrote_read.mp hw) hlive

/-! ## Runs -/

/-- **Every atomic step keeps the contents in order**, if a reservation stays inside the array. -/
theorem delivery_step (h : Delivery k T w) (hinv : Inv k T w) (hwrap : NoWrap w a)
    (hinside : StaysInside w a) (hs : threadStep w a = some w') :
    ∃ T', Inv k T' w' ∧ Delivery k T' w' := by
  obtain ⟨i, heff⟩ := threadStep_effect hs
  cases heff with
  | call c hpc => exact ⟨T, hinv.call c hpc, h.goto trivial⟩
  | loadHead _ c hpc => exact ⟨T, hinv.loadHead hpc, h.loadHead c⟩
  | loadTail c oldHead hpc => exact ⟨T, hinv.loadTail hpc, h.loadTail c oldHead⟩
  | moveHead c r hpc heq =>
      have hinv' := hinv.moveHead hpc heq (hwrap i c r rfl hpc)
      exact ⟨T, hinv', h.moveHead hinv hinv' heq (hinside i c r rfl hpc heq)⟩
  | copyOne c r mv todo hpc =>
      refine ⟨T, hinv.copyOne hpc, ?_⟩
      obtain ⟨side, table, n⟩ := c
      cases side with
      | prod => exact h.copyProd hinv hpc
      | cons => exact h.copyCons hinv hpc
  | wait c r hpc => exact ⟨T, hinv, h⟩
  | seeTail c r hpc heq => exact ⟨T, hinv.seeTail hpc heq, h.seeTail hpc⟩
  | storeTail c r hpc => exact ⟨_, hinv.storeTail hpc, h.storeTail hinv hpc⟩

omit [DecidableEq ι] in
/-- Nothing has been accessed at the start. -/
theorem delivery_init (rb : KtRingbuf) :
    Delivery k (fun _ => 0) (World.init rb : World ι) where
  once := .nil
  reserved
    | .prod, _, _, _, ⟨_, hmem⟩ => absurd hmem List.not_mem_nil
    | .cons, _, _, _, ⟨_, hmem⟩ => absurd hmem List.not_mem_nil
  published _ p hp := absurd hp (Nat.not_lt_zero p)
  content _ _ _ := fun ⟨_, hmem⟩ => absurd hmem List.not_mem_nil
  progress _ := trivial

/-- A thread that runs calls of one element, up to its reservation. -/
def PcOne : Pc → Prop
  | .loadHead c => c.n = 1
  | .loadTail c _ => c.n = 1
  | .cas c r => c.n = 1 ∧ r.n.toNat ≤ 1
  | _ => True

/-- The steps of runs whose calls are all of one element. -/
def CallsOne (a : Act ι) : Prop := ∀ i c, a = .call i c → c.n = 1

/-- Calls of one element reserve at most one. -/
theorem pcOne_step (h : ∀ i, PcOne (w.pc i)) (hone : CallsOne a) (hs : threadStep w a = some w') :
    ∀ i, PcOne (w'.pc i) := by
  have hupdate : ∀ {i : ι} {pc : Pc}, PcOne pc → ∀ j, PcOne (Function.update w.pc i pc j) := by
    intro i pc hpc j
    by_cases hj : j = i
    · subst hj
      rw [Function.update_self]
      exact hpc
    · rw [Function.update_of_ne hj]
      exact h j
  obtain ⟨i, heff⟩ := threadStep_effect hs
  have hi := h i
  cases heff with
  | call c hpc => exact hupdate (hone i c rfl)
  | loadHead _ c hpc =>
      refine hupdate ?_
      rcases hpc with hpc | ⟨r, hpc⟩
      · rw [hpc] at hi
        exact hi
      · rw [hpc] at hi
        exact hi.1
  | loadTail c oldHead hpc =>
      rw [hpc] at hi
      obtain ⟨side, table, n⟩ := c
      obtain rfl : n = 1 := hi
      refine hupdate ?_
      split_ifs
      · trivial
      · refine ⟨rfl, ?_⟩
        rw [reserve_variable]
        exact min_le_left _ _
  | moveHead c r hpc heq => exact hupdate trivial
  | copyOne c r mv todo hpc =>
      obtain ⟨side, table, n⟩ := c
      cases side with
      | prod => exact hupdate trivial
      | cons => exact hupdate trivial
  | wait c r hpc => exact h
  | seeTail c r hpc heq => exact hupdate trivial
  | storeTail c r hpc => exact hupdate trivial

omit [DecidableEq ι] in
/-- A burst of one element never crosses the end of the array. -/
theorem staysInside_of_one (hinv : Inv k T w) (h : ∀ i, PcOne (w.pc i)) : StaysInside w a := by
  intro i c r _ hpc _
  have hi := h i
  rw [hpc] at hi
  have hpos := Nat.two_pow_pos k
  have hslot : (firstSlot w.rb r.oldHead c.side).toNat < 2 ^ k := by
    rw [hinv.shape.firstSlot_eq, toNat_and_mask hinv.shape.toNat_mask]
    exact Nat.mod_lt _ hpos
  have hn : r.n.toNat ≤ 1 := hi.2
  rw [hinv.shape.size]
  omega

/-- A step of a run without wrap whose calls are of one element. -/
def OneNoWrap (w : World ι) (a : Act ι) : Prop := CallsOne a ∧ NoWrap w a

/-- The invariants hold all along such a run. -/
theorem delivery_run {rb : KtRingbuf} (h₀ : RingAt rb k 0 0) {tr : List (World ι × Act ι)}
    (hrun : Run threadStep (World.init rb) tr w) (hok : ∀ p ∈ tr, OneNoWrap p.1 p.2) :
    ∃ T, Inv k T w ∧ Delivery k T w ∧ ∀ i, PcOne (w.pc i) := by
  refine hrun.invariant (I := fun w => ∃ T, Inv k T w ∧ Delivery k T w ∧ ∀ i, PcOne (w.pc i))
    ⟨_, inv_init h₀, delivery_init rb, fun _ => trivial⟩ ?_ hok
  rintro w a w' ⟨T, hinv, h, hpc⟩ ⟨hone, hwrap⟩ hs
  obtain ⟨T', hinv', h'⟩ := delivery_step h hinv hwrap (staysInside_of_one hinv hpc) hs
  exact ⟨T', hinv', h', pcOne_step hpc hone hs⟩

/-- **Exactly-once delivery by concurrent calls of one element.** For a ring of any power-of-two size
made by `kt_ringbuf_create` and any number of threads, in every state reached by interleaved atomic
steps of calls with `n = 1` in which no compare-exchange meets a head that has wrapped (`NoWrap`):

* the log of the slot accesses is one of exactly-once deliveries: every read returns what was written
  before for the same position, no position is written or read twice, and no slot is written again
  before its element was read;
* the positions in the log are the reserved ones: the recorded heads are the stored ones without
  wrap, the recorded position of a call in progress is its `old_head`, and position `p` is accessed in
  slot `p % size`, after it was reserved;
* a call that has returned an element has accessed its position with the value in its table. -/
theorem exactly_once_delivery (alloc : UInt32 → Option (ℕ → UInt64)) (count esize : UInt32)
    (rb : KtRingbuf) (k : ℕ) (hcount : count.toNat = 2 ^ k)
    (hcreate : ktRingbufCreate alloc count esize = some rb) (tr : List (World ι × Act ι))
    (w : World ι) (hrun : Run threadStep (World.init rb) tr w) (hone : ∀ p ∈ tr, CallsOne p.2)
    (hwrap : ∀ p ∈ tr, NoWrap p.1 p.2) :
    ExactlyOnce w.log ∧
    (∀ σ, (w.rb.lane σ).head = UInt32.ofNat (w.head σ)) ∧
    (∀ i c r todo, w.pc i = .copy c r todo → r.oldHead = UInt32.ofNat (w.pos i)) ∧
    (∀ σ p s v, Accessed w.log p s v σ → s = p % count.toNat ∧ p < w.head σ) ∧
    (∀ i c n rest, w.pc i = .returned c n rest → n ≠ 0 →
      Accessed w.log (w.pos i) (w.pos i % count.toNat) (c.table 0) c.side) := by
  have hk : k < 32 := (Nat.pow_lt_pow_iff_right Nat.one_lt_two).mp (hcount ▸ count.toNat_lt)
  have h₀ := ringAt_create (Nat.le_of_lt_succ hk) hcount hcreate
  obtain ⟨T, hinv, h, -⟩ := delivery_run h₀ hrun fun p hp => ⟨hone p hp, hwrap p hp⟩
  rw [hcount]
  refine ⟨h.once, fun σ => by rw [hinv.lane], ?_, h.reserved, ?_⟩
  · intro i c r todo hpc
    have hthread := hinv.thread i
    rw [hpc] at hthread
    exact hthread.1
  · intro i c n rest hpc hn
    have hprog := h.progress i
    rw [hpc] at hprog
    refine hprog 0 (Nat.pos_of_ne_zero fun h0 => hn ?_)
    exact UInt32.toNat_inj.mp h0

/-- The result at a run of two threads: the second one loads the tail before the first one has
published, finds nothing, and gets the element with its second call. -/
theorem exactly_once_delivery_two :
    ∃ (tr : List (World Bool × Act Bool)) (w : World Bool),
      Run threadStep (World.init ⟨4, 8, 3, 3, ⟨0, 0⟩, ⟨0, 0⟩, fun _ => 0⟩) tr w ∧
      w.log = [.write true 0 0 7, .read false 0 0 7] ∧ ExactlyOnce w.log := by
  let rb : KtRingbuf := ⟨4, 8, 3, 3, ⟨0, 0⟩, ⟨0, 0⟩, fun _ => 0⟩
  let put : Call := ⟨.prod, fun _ => 7, 1⟩
  let get : Call := ⟨.cons, fun _ => 0, 1⟩
  let ok : World Bool → Act Bool → Bool := fun w a => decide (w.head .prod < 2 ^ 31) &&
    match a with
    | .call _ c => decide (c.n = 1)
    | _ => true
  have hexec : (exec (fun w a => if ok w a then threadStep w a else none) (World.init rb)
      [.call true put, .step true, .step true, .step true, .call false get, .step false,
        .step false, .step true, .step true, .step true, .call false get, .step false, .step false,
        .casFail false, .step false, .step false, .step false, .step false, .step false]).map
        World.log = some [.write true 0 0 7, .read false 0 0 7] := by
    decide +kernel
  obtain ⟨w, hw, hlog⟩ := Option.map_eq_some_iff.mp hexec
  obtain ⟨tr, hguarded, -⟩ := Run.of_exec hw
  obtain ⟨hrun, hok⟩ := hguarded.of_guarded
  refine ⟨tr, w, hrun, hlog, ?_⟩
  refine (exactly_once_delivery (fun _ => some fun _ => 0) 4 8 rb 2 rfl rfl tr w hrun ?_ ?_).1
  · intro p hp i c hcall
    have hp' := hok p hp
    simp only [ok, hcall, Bool.and_eq_true, decide_eq_true_eq] at hp'
    exact hp'.2
  · intro p hp i c r _ _
    have hp' := hok p hp
    simp only [ok, Bool.and_eq_true, decide_eq_true_eq] at hp'
    exact ⟨.prod, Nat.lt_add_left _ hp'.1⟩

end KuberneTSN.Ring
