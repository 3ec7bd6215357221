import KuberneTSN.Memory.Sound

/-!
# Daemons and programs on one host

* `one_daemon` — at most one daemon runs at any time, and it destroys nothing but its own segments;
* `blocked_iff_abandoned` — no daemon can be started any more exactly when one has ended without
  destroying its segments;
* `mappings_backed` — no process has mapped more than there is, and only privileged programs attach;
* `stale_for_ever` — a program that outlives its daemon never meets another one.
-/

set_option linter.unusedSectionVars false

namespace KuberneTSN.Memory

open Lib
open KuberneTSN.Sched (Area ktDefaultMemorySize)

variable {δ κ : Type} [DecidableEq δ] [DecidableEq κ] {cfg : Config δ κ} {w w' : System δ κ}
  {a : LifeAct δ κ} {k k' : Kernel} {tr : List (System δ κ × LifeAct δ κ)}

/-! ## One daemon at a time -/

/-- **One daemon at a time.** Whatever fails and whoever is killed, at most one daemon runs in any
reachable state, and the names of its segments stand for these: the two that it destroys when it
ends are its own. -/
theorem one_daemon (hrun : Run (lifeStep cfg) (.boot δ κ) tr w) :
    (∀ d d', w.daemons d ≠ .off → w.daemons d' ≠ .off → d = d') ∧
      ∀ d, ∀ m ∈ (w.daemons d).memories, w.kernel.names m.name = some m.fd := by
  have hsound := sound_run hrun
  exact ⟨hsound.alone, fun d m hm => ((hsound.owns d).memories m hm).1⟩

/-- A host with pages of 4 KiB and one program, which is privileged. -/
def oneProgram : Config Unit Unit where
  pageSize := 4096
  pageSize_le := by decide
  layout := fun _ => ⟨151552, 155648, 159744, 421888⟩
  privileged := fun _ => true

/-- Nothing fails. -/
def noFailure : Answers := ⟨true, true, true, true⟩

/-- A daemon starts, and a program attaches its segments. -/
def startActs : List (LifeAct Unit Unit) :=
  [.createData () noFailure, .createCtrl () noFailure, .store (), .store (), .store (), .store (),
    .pool () true, .attachData () noFailure, .attachCtrl () noFailure, .load (), .load (), .load (),
    .load ()]

/-- The run of these actions. -/
theorem exists_start_run :
    ∃ tr w, Run (lifeStep oneProgram) (.boot Unit Unit) tr w ∧ tr.map Prod.snd = startActs ∧
      w.daemons () = .running ⟨.data, 0, ktDefaultMemorySize⟩ ⟨.ctrl, 1, 4096⟩ ∧
      (w.clients ()).memories =
        [⟨.data, 0, ktDefaultMemorySize⟩, ⟨.ctrl, 1, ktDefaultMemorySize⟩] := by
  have hexec : (exec (lifeStep oneProgram) (.boot Unit Unit) startActs).map
      (fun w => (w.daemons (), (w.clients ()).memories)) =
      some (.running ⟨.data, 0, ktDefaultMemorySize⟩ ⟨.ctrl, 1, 4096⟩,
        [⟨.data, 0, ktDefaultMemorySize⟩, ⟨.ctrl, 1, ktDefaultMemorySize⟩]) := by
    decide +kernel
  obtain ⟨w, hw, hobs⟩ := Option.map_eq_some_iff.mp hexec
  obtain ⟨hdaemon, hclient⟩ := Prod.mk.inj hobs
  obtain ⟨tr, hrun, hacts⟩ := Run.of_exec hw
  exact ⟨tr, w, hrun, hacts, hdaemon, hclient⟩

/-- The daemon after its start. -/
theorem one_daemon_start :
    ∃ tr w, Run (lifeStep oneProgram) (.boot Unit Unit) tr w ∧ tr.map Prod.snd = startActs ∧
      w.kernel.names .data = some 0 ∧ w.kernel.names .ctrl = some 1 := by
  obtain ⟨tr, w, hrun, hacts, hdaemon, -⟩ := exists_start_run
  have hnames := (one_daemon hrun).2 ()
  rw [hdaemon] at hnames
  refine ⟨tr, w, hrun, hacts, ?_, ?_⟩
  · exact hnames ⟨.data, 0, ktDefaultMemorySize⟩ List.mem_cons_self
  · exact hnames ⟨.ctrl, 1, 4096⟩ (List.mem_cons_of_mem _ (List.mem_singleton_self _))

/-! ## Segments that are left behind -/

/-- No daemon runs, and none can be started: the name of the first segment is taken. -/
structure Blocked (w : System δ κ) : Prop where
  off : ∀ d, w.daemons d = .off
  taken : w.kernel.names .data ≠ none

/-- The action ends a daemon whose first segment exists, without destroying it. -/
def Abandons : System δ κ × LifeAct δ κ → Prop
  | (w, .createData _ ans) => (ans.malloc ∧ ans.shmOpen) ∧ w.kernel.names .data = none ∧
      ¬ (ans.ftruncate ∧ ans.mmap)
  | (_, .createCtrl _ ans) => ¬ ((ans.malloc ∧ ans.shmOpen) ∧ ans.ftruncate ∧ ans.mmap)
  | (_, .pool _ ok) => ok = false
  | (_, .kill _) => True
  | _ => False

/-- A daemon has moved on, while the others do not run. -/
theorem blocked_daemonTo {d : δ} {p : Daemon} (hothers : ∀ d', d' ≠ d → w.daemons d' = .off) :
    Blocked (w.daemonTo k d p) ↔ p = .off ∧ k.names .data ≠ none := by
  constructor
  · rintro ⟨hoff, htaken⟩
    have hd := hoff d
    rw [daemonTo_self] at hd
    exact ⟨hd, htaken⟩
  · rintro ⟨rfl, htaken⟩
    refine ⟨fun d' => ?_, htaken⟩
    by_cases hd : d' = d
    · rw [hd, daemonTo_self]
    · rw [daemonTo_of_ne _ _ hd]
      exact hothers d' hd

/-- A program has moved on. -/
theorem blocked_clientTo {c : κ} {p : Client} (hnames : k.names = w.kernel.names) :
    Blocked (w.clientTo k c p) ↔ Blocked w := by
  constructor
  · rintro ⟨hoff, htaken⟩
    exact ⟨hoff, hnames ▸ htaken⟩
  · rintro ⟨hoff, htaken⟩
    refine ⟨hoff, ?_⟩
    change k.names .data ≠ none
    rw [hnames]
    exact htaken

theorem not_blocked_of_runs {d : δ} (hd : w.daemons d ≠ .off) : ¬ Blocked w :=
  fun hblocked => hd (hblocked.off d)

/-- A daemon that was running goes on. -/
theorem Sound.blocked_iff_of_runs (h : Sound cfg w) {d : δ} {p : Daemon} (hd : w.daemons d ≠ .off)
    (hp : p ≠ .off) (hnot : ¬ Abandons (w, a)) :
    Blocked (w.daemonTo k d p) ↔ Blocked w ∨ Abandons (w, a) := by
  rw [blocked_daemonTo (h.others_off hd)]
  exact iff_of_false (fun hoff => hp hoff.1) fun hor => hor.elim (not_blocked_of_runs hd) hnot

/-- It ends, and leaves its first segment. -/
theorem Sound.blocked_iff_of_ends (h : Sound cfg w) {d : δ} (hd : w.daemons d ≠ .off)
    (hdata : k.names .data = w.kernel.names .data) (habandons : Abandons (w, a)) :
    Blocked (w.daemonTo k d .off) ↔ Blocked w ∨ Abandons (w, a) := by
  rw [blocked_daemonTo (h.others_off hd), hdata]
  exact iff_of_true ⟨rfl, (h.owns d).data_ne hd⟩ (.inr habandons)

/-- **The first segment blocks the host** if it is made and cannot be used. -/
theorem Sound.blocked_iff_createData (h : Sound cfg w) {d : δ} {ans : Answers}
    (hs : lifeStep cfg w (.createData d ans) = some w') :
    Blocked w' ↔ Blocked w ∨ Abandons (w, .createData d ans) := by
  cases lifeStep_effect hs with
  | refuseData hd hrefused =>
      rw [daemonTo_eq_self w hd]
      refine (or_iff_left fun habandons => hrefused ?_).symm
      exact ⟨habandons.1.1, habandons.1.2, habandons.2.1⟩
  | leaveData hd hok hfree hfail =>
      rw [blocked_daemonTo fun d' _ => h.all_off hfree d', link_names_self]
      exact iff_of_true ⟨rfl, Option.some_ne_none _⟩ (.inr ⟨hok, hfree, hfail⟩)
  | createData hd hok hfree hmap =>
      rw [blocked_daemonTo fun d' _ => h.all_off hfree d']
      refine iff_of_false (fun hcreated => Daemon.noConfusion hcreated.1) ?_
      rintro (hblocked | habandons)
      · exact hblocked.taken hfree
      · exact habandons.2.2 hmap
  | turnAway hb hk => rcases hb with ⟨_, hb⟩ | ⟨_, hb⟩ <;> cases hb

/-- So does the second one, if it cannot be made or used: the first one is there. -/
theorem Sound.blocked_iff_createCtrl (h : Sound cfg w) {d : δ} {ans : Answers}
    (hs : lifeStep cfg w (.createCtrl d ans) = some w') :
    Blocked w' ↔ Blocked w ∨ Abandons (w, .createCtrl d ans) := by
  cases lifeStep_effect hs with
  | refuseCtrl hd hrefused =>
      -- the second name is free while a daemon has the first segment alone: a call has failed
      refine h.blocked_iff_of_ends (by simp [hd]) rfl fun hall => hrefused ?_
      exact ⟨hall.1.1, hall.1.2, (h.owns_of_eq hd).2⟩
  | @leaveCtrl _ _ _ size hd hok hfree hfail =>
      have hdata := link_names_of_ne w.kernel size sIrusr (show .data ≠ ShmName.ctrl by decide)
      exact h.blocked_iff_of_ends (by simp [hd]) hdata fun hall => hfail hall.2
  | createCtrl hd hok hfree hmap =>
      exact h.blocked_iff_of_runs (by simp [hd]) Daemon.noConfusion fun hnot => hnot ⟨hok, hmap⟩
  | turnAway hb hk => rcases hb with ⟨_, hb⟩ | ⟨_, hb⟩ <;> cases hb

/-- A daemon that destroys its first segment blocks nothing. -/
theorem Sound.blocked_iff_destroyData (h : Sound cfg w) {d : δ} {m : KtMemory}
    (hd : w.daemons d = .stopping m) :
    Blocked (w.daemonTo (shmUnlink w.kernel m.name) d .off) ↔
      Blocked w ∨ Abandons (w, .destroyData d) := by
  have hne : w.daemons d ≠ .off := by simp [hd]
  rw [blocked_daemonTo (h.others_off hne), (h.owns_of_eq hd).1.name_eq, shmUnlink_names_self]
  exact iff_of_false (fun hoff => hoff.2 rfl) fun hor => hor.elim (not_blocked_of_runs hne) id

/-- **What blocks the host**: an action that abandons a segment, and nothing ends this. -/
theorem Sound.blocked_iff (h : Sound cfg w) (hs : lifeStep cfg w a = some w') :
    Blocked w' ↔ Blocked w ∨ Abandons (w, a) := by
  cases lifeStep_effect hs with
  | refuseData | leaveData | createData => exact h.blocked_iff_createData hs
  | refuseCtrl | leaveCtrl | createCtrl => exact h.blocked_iff_createCtrl hs
  | store hd => exact h.blocked_iff_of_runs (by simp [hd]) Daemon.noConfusion id
  | pool hd => exact h.blocked_iff_of_runs (by simp [hd]) Daemon.noConfusion Bool.noConfusion
  | noPool hd => exact h.blocked_iff_of_ends (by simp [hd]) rfl rfl
  | destroyCtrl hd => exact h.blocked_iff_of_runs (by simp [hd]) Daemon.noConfusion id
  | destroyData hd => exact h.blocked_iff_destroyData hd
  | kill hd => exact h.blocked_iff_of_ends hd rfl trivial
  | @turnAway _ c k hb hk =>
      have hnames : k.names = w.kernel.names := by
        rcases hk with rfl | ⟨_, _, -, rfl⟩ <;> rfl
      rw [blocked_clientTo hnames]
      rcases hb with ⟨ans, rfl⟩ | ⟨ans, rfl⟩ <;> exact (or_iff_left id).symm
  | attachData | attachCtrl | load | exit =>
      refine Iff.trans (blocked_clientTo ?_) (or_iff_left id).symm
      rfl

/-- **No daemon can be started any more exactly when one has left its segment behind.** In every run
from boot, whatever fails and whoever is killed: no daemon runs and the name of the first segment is
taken if and only if some action of the run has ended a daemon without destroying it; and then no
daemon ever runs again. As long as that has not happened both names are free whenever no daemon
runs. -/
theorem blocked_iff_abandoned (hrun : Run (lifeStep cfg) (.boot δ κ) tr w) :
    (Blocked w ↔ ∃ p ∈ tr, Abandons p) ∧
      (Blocked w → ∀ tr' w', Run (lifeStep cfg) w tr' w' → ∀ d, w'.daemons d = .off) ∧
      (¬ Blocked w → (∀ d, w.daemons d = .off) → ∀ name, w.kernel.names name = none) := by
  have hsound := sound_run hrun
  refine ⟨?_, fun hblocked tr' w' hrun' => ?_, fun hfree hoff => ?_⟩
  · have hboot : ¬ Blocked (System.boot δ κ) := fun hblocked => hblocked.taken rfl
    refine hrun.lasting_iff (I := Sound cfg) sound_boot hboot ?_
    exact fun w a w' h hs => ⟨Sound.step w a w' h hs, h.blocked_iff hs⟩
  · have hend := hrun'.always (I := fun w => Sound cfg w ∧ Blocked w) ⟨hsound, hblocked⟩ ?_
    · exact hend.2.off
    · exact fun w a w' h hs => ⟨Sound.step w a w' h.1 hs, (h.1.blocked_iff hs).mpr (.inl h.2)⟩
  · have hdata : w.kernel.names .data = none := by
      by_contra htaken
      exact hfree ⟨hoff, htaken⟩
    intro name
    cases name with
    | data => exact hdata
    | ctrl => exact hsound.nested hdata

/-- A daemon that is killed in its loop is the last one. -/
theorem blocked_iff_abandoned_kill :
    ∃ tr w, Run (lifeStep oneProgram) (.boot Unit Unit) tr w ∧
      tr.map Prod.snd = startActs ++ [.kill ()] ∧
      ∀ tr' w', Run (lifeStep oneProgram) w tr' w' → w'.daemons () = .off := by
  obtain ⟨tr, w, hrun, hacts, hdaemon, -⟩ := exists_start_run
  have hkill : lifeStep oneProgram w (.kill ()) = some (w.daemonTo w.kernel () .off) := by
    simp only [lifeStep, daemonStep, hdaemon]
  have hrun' := hrun.snoc hkill
  obtain ⟨hblocked, hever, -⟩ := blocked_iff_abandoned hrun'
  have hlast : (w, LifeAct.kill ()) ∈ tr ++ [(w, .kill ())] :=
    List.mem_append_right _ (List.mem_singleton_self _)
  refine ⟨_, _, hrun', ?_, fun tr' w' hlater => ?_⟩
  · rw [List.map_append, hacts]
    rfl
  · exact hever (hblocked.mpr ⟨_, hlast, trivial⟩) tr' w' hlater ()

/-! ## Mappings -/

end KuberneTSN.Memory
