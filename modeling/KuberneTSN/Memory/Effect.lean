import KuberneTSN.Memory.Basic

/-!
# What the processes of a host can do

Every action of a daemon or a program has one of the effects of `LifeEffect`, which say what each
call of `kt_memory.c` has come to. Each kind of action has a lemma of its own, and `lifeStep_effect`
puts them together.
-/

set_option linter.unusedSectionVars false

namespace KuberneTSN.Memory

open Lib
open KuberneTSN.Sched (Area ktDefaultMemorySize)

variable {δ κ : Type} [DecidableEq δ] [DecidableEq κ] {cfg : Config δ κ} {w w' : System δ κ}
  {a : LifeAct δ κ}

/-- What an action can do. -/
inductive LifeEffect (cfg : Config δ κ) (w : System δ κ) : LifeAct δ κ → System δ κ → Prop
  | refuseData {d : δ} {ans : Answers} (hd : w.daemons d = .off)
      (h : ¬ (ans.malloc ∧ ans.shmOpen ∧ w.kernel.names .data = none)) :
      LifeEffect cfg w (.createData d ans) (w.daemonTo w.kernel d .off)
  /-- The first segment exists, but the daemon ends. -/
  | leaveData {d : δ} {ans : Answers} {m : ℕ} (hd : w.daemons d = .off)
      (hok : ans.malloc ∧ ans.shmOpen) (hfree : w.kernel.names .data = none)
      (hfail : ¬ (ans.ftruncate ∧ ans.mmap)) :
      LifeEffect cfg w (.createData d ans) (w.daemonTo (w.kernel.link .data m sIrusr) d .off)
  | createData {d : δ} {ans : Answers} (hd : w.daemons d = .off)
      (hok : ans.malloc ∧ ans.shmOpen) (hfree : w.kernel.names .data = none)
      (hmap : ans.ftruncate ∧ ans.mmap) :
      LifeEffect cfg w (.createData d ans)
        (w.daemonTo (w.kernel.link .data ktDefaultMemorySize sIrusr) d
          (.created ⟨.data, w.kernel.next, ktDefaultMemorySize⟩))
  | refuseCtrl {d : δ} {ans : Answers} {memory : KtMemory} (hd : w.daemons d = .created memory)
      (h : ¬ (ans.malloc ∧ ans.shmOpen ∧ w.kernel.names .ctrl = none)) :
      LifeEffect cfg w (.createCtrl d ans) (w.daemonTo w.kernel d .off)
  /-- The second segment exists, but the daemon ends. -/
  | leaveCtrl {d : δ} {ans : Answers} {memory : KtMemory} {m : ℕ}
      (hd : w.daemons d = .created memory) (hok : ans.malloc ∧ ans.shmOpen)
      (hfree : w.kernel.names .ctrl = none) (hfail : ¬ (ans.ftruncate ∧ ans.mmap)) :
      LifeEffect cfg w (.createCtrl d ans) (w.daemonTo (w.kernel.link .ctrl m sIrusr) d .off)
  | createCtrl {d : δ} {ans : Answers} {memory : KtMemory} (hd : w.daemons d = .created memory)
      (hok : ans.malloc ∧ ans.shmOpen) (hfree : w.kernel.names .ctrl = none)
      (hmap : ans.ftruncate ∧ ans.mmap) :
      LifeEffect cfg w (.createCtrl d ans)
        (w.daemonTo (w.kernel.link .ctrl cfg.pageSize sIrusr) d
          (.up memory ⟨.ctrl, w.kernel.next, cfg.pageSize⟩ allAreas))
  | store {d : δ} {memory memoryCtrl : KtMemory} {x : Area} {todo : List Area}
      (hd : w.daemons d = .up memory memoryCtrl (x :: todo)) :
      LifeEffect cfg w (.store d)
        (w.daemonTo (storeOffset w.kernel memoryCtrl.fd x ((cfg.layout d).area x)) d
          (.up memory memoryCtrl todo))
  | pool {d : δ} {memory memoryCtrl : KtMemory} (hd : w.daemons d = .up memory memoryCtrl []) :
      LifeEffect cfg w (.pool d true) (w.daemonTo w.kernel d (.running memory memoryCtrl))
  | noPool {d : δ} {memory memoryCtrl : KtMemory} (hd : w.daemons d = .up memory memoryCtrl []) :
      LifeEffect cfg w (.pool d false) (w.daemonTo w.kernel d .off)
  | destroyCtrl {d : δ} {memory memoryCtrl : KtMemory}
      (hd : w.daemons d = .running memory memoryCtrl) :
      LifeEffect cfg w (.destroyCtrl d)
        (w.daemonTo (shmUnlink w.kernel memoryCtrl.name) d (.stopping memory))
  | destroyData {d : δ} {memory : KtMemory} (hd : w.daemons d = .stopping memory) :
      LifeEffect cfg w (.destroyData d) (w.daemonTo (shmUnlink w.kernel memory.name) d .off)
  | kill {d : δ} (hd : w.daemons d ≠ .off) :
      LifeEffect cfg w (.kill d) (w.daemonTo w.kernel d .off)
  /-- A program that cannot attach ends, with one of the objects resized or none. -/
  | turnAway {b : LifeAct δ κ} {c : κ} {k : Kernel}
      (hb : (∃ ans, b = .attachData c ans) ∨ ∃ ans, b = .attachCtrl c ans)
      (hk : k = w.kernel ∨
        ∃ name o, w.kernel.names name = some o ∧ k = ftruncate w.kernel o ktDefaultMemorySize) :
      LifeEffect cfg w b (w.clientTo k c .out)
  | attachData {c : κ} {ans : Answers} {o : ℕ} (hc : w.clients c = .out)
      (hname : w.kernel.names .data = some o)
      (hmay : cfg.privileged c ∨ (w.kernel.objects o).mode &&& sIwusr ≠ 0) :
      LifeEffect cfg w (.attachData c ans)
        (w.clientTo (ftruncate w.kernel o ktDefaultMemorySize) c
          (.half ⟨.data, o, ktDefaultMemorySize⟩))
  | attachCtrl {c : κ} {ans : Answers} {memory : KtMemory} {o : ℕ}
      (hc : w.clients c = .half memory) (hname : w.kernel.names .ctrl = some o)
      (hmay : cfg.privileged c ∨ (w.kernel.objects o).mode &&& sIwusr ≠ 0) :
      LifeEffect cfg w (.attachCtrl c ans)
        (w.clientTo (ftruncate w.kernel o ktDefaultMemorySize) c
          (.attached memory ⟨.ctrl, o, ktDefaultMemorySize⟩ allAreas fun _ => 0))
  | load {c : κ} {memory memoryCtrl : KtMemory} {x : Area} {todo : List Area} {offsets : Area → ℕ}
      (hc : w.clients c = .attached memory memoryCtrl (x :: todo) offsets) :
      LifeEffect cfg w (.load c)
        (w.clientTo w.kernel c (.attached memory memoryCtrl todo
          (Function.update offsets x ((w.kernel.objects memoryCtrl.fd).offsets x))))
  | exit {c : κ} : LifeEffect cfg w (.exit c) (w.clientTo w.kernel c .out)

variable {d : δ} {c : κ} {ans : Answers}

/-! ## Daemons -/

theorem createData_effect (hs : lifeStep cfg w (.createData d ans) = some w') :
    LifeEffect cfg w (.createData d ans) w' := by
  cases hd : w.daemons d with
  | off =>
      have hmade := ktMemoryCreate_created w.kernel ans .data ktDefaultMemorySize
      simp only [lifeStep, daemonStep, hd] at hs
      generalize ktMemoryCreate w.kernel ans .data ktDefaultMemorySize = r at hmade hs
      cases hmade with
      | refused h => exact Option.some.inj hs ▸ .refuseData hd h
      | left hok hfree hfail => exact Option.some.inj hs ▸ .leaveData hd hok hfree hfail
      | made hok hfree hmap => exact Option.some.inj hs ▸ .createData hd hok hfree hmap
  | created | up | running | stopping => simp [lifeStep, daemonStep, hd] at hs

theorem createCtrl_effect (hs : lifeStep cfg w (.createCtrl d ans) = some w') :
    LifeEffect cfg w (.createCtrl d ans) w' := by
  cases hd : w.daemons d with
  | created memory =>
      have hmade := ktMemoryCreate_created w.kernel ans .ctrl cfg.pageSize
      simp only [lifeStep, daemonStep, hd] at hs
      generalize ktMemoryCreate w.kernel ans .ctrl cfg.pageSize = r at hmade hs
      cases hmade with
      | refused h => exact Option.some.inj hs ▸ .refuseCtrl hd h
      | left hok hfree hfail => exact Option.some.inj hs ▸ .leaveCtrl hd hok hfree hfail
      | made hok hfree hmap => exact Option.some.inj hs ▸ .createCtrl hd hok hfree hmap
  | off | up | running | stopping => simp [lifeStep, daemonStep, hd] at hs

theorem store_effect (hs : lifeStep cfg w (.store d) = some w') :
    LifeEffect cfg w (.store d) w' := by
  rcases hd : w.daemons d with _ | m | ⟨m, mc, _ | ⟨x, todo⟩⟩ | ⟨m, mc⟩ | m
  case up.cons =>
    simp only [lifeStep, daemonStep, hd] at hs
    exact Option.some.inj hs ▸ .store hd
  all_goals simp [lifeStep, daemonStep, hd] at hs

theorem pool_effect {ok : Bool} (hs : lifeStep cfg w (.pool d ok) = some w') :
    LifeEffect cfg w (.pool d ok) w' := by
  rcases hd : w.daemons d with _ | m | ⟨m, mc, _ | ⟨x, todo⟩⟩ | ⟨m, mc⟩ | m
  case up.nil =>
    simp only [lifeStep, daemonStep, hd] at hs
    cases ok with
    | true => exact Option.some.inj hs ▸ .pool hd
    | false => exact Option.some.inj hs ▸ .noPool hd
  all_goals simp [lifeStep, daemonStep, hd] at hs

theorem destroyCtrl_effect (hs : lifeStep cfg w (.destroyCtrl d) = some w') :
    LifeEffect cfg w (.destroyCtrl d) w' := by
  cases hd : w.daemons d with
  | running m mc =>
      simp only [lifeStep, daemonStep, hd] at hs
      exact Option.some.inj hs ▸ .destroyCtrl hd
  | off | created | up | stopping => simp [lifeStep, daemonStep, hd] at hs

theorem destroyData_effect (hs : lifeStep cfg w (.destroyData d) = some w') :
    LifeEffect cfg w (.destroyData d) w' := by
  cases hd : w.daemons d with
  | stopping m =>
      simp only [lifeStep, daemonStep, hd] at hs
      exact Option.some.inj hs ▸ .destroyData hd
  | off | created | up | running => simp [lifeStep, daemonStep, hd] at hs

theorem kill_effect (hs : lifeStep cfg w (.kill d) = some w') : LifeEffect cfg w (.kill d) w' := by
  have hne : w.daemons d ≠ .off := by
    intro hd
    simp [lifeStep, daemonStep, hd] at hs
  have heq : lifeStep cfg w (.kill d) = some (w.daemonTo w.kernel d .off) := by
    cases hd : w.daemons d with
    | off => exact absurd hd hne
    | created | up | running | stopping => simp only [lifeStep, daemonStep, hd]
  exact Option.some.inj (heq.symm.trans hs) ▸ .kill hne

/-! ## Programs -/

theorem attachData_effect (hs : lifeStep cfg w (.attachData c ans) = some w') :
    LifeEffect cfg w (.attachData c ans) w' := by
  cases hc : w.clients c with
  | out =>
      have hmade := ktMemoryAttach_attached w.kernel (cfg.privileged c) ans .data
        ktDefaultMemorySize
      simp only [lifeStep, clientStep, hc] at hs
      generalize ktMemoryAttach w.kernel (cfg.privileged c) ans .data ktDefaultMemorySize = r
        at hmade hs
      cases hmade with
      | refused => exact Option.some.inj hs ▸ .turnAway (.inl ⟨ans, rfl⟩) (.inl rfl)
      | resized hname =>
          exact Option.some.inj hs ▸ .turnAway (.inl ⟨ans, rfl⟩) (.inr ⟨_, _, hname, rfl⟩)
      | made hname hmay => exact Option.some.inj hs ▸ .attachData hc hname hmay
  | half | attached => simp [lifeStep, clientStep, hc] at hs

theorem attachCtrl_effect (hs : lifeStep cfg w (.attachCtrl c ans) = some w') :
    LifeEffect cfg w (.attachCtrl c ans) w' := by
  cases hc : w.clients c with
  | half memory =>
      have hmade := ktMemoryAttach_attached w.kernel (cfg.privileged c) ans .ctrl
        ktDefaultMemorySize
      simp only [lifeStep, clientStep, hc] at hs
      generalize ktMemoryAttach w.kernel (cfg.privileged c) ans .ctrl ktDefaultMemorySize = r
        at hmade hs
      cases hmade with
      | refused => exact Option.some.inj hs ▸ .turnAway (.inr ⟨ans, rfl⟩) (.inl rfl)
      | resized hname =>
          exact Option.some.inj hs ▸ .turnAway (.inr ⟨ans, rfl⟩) (.inr ⟨_, _, hname, rfl⟩)
      | made hname hmay => exact Option.some.inj hs ▸ .attachCtrl hc hname hmay
  | out | attached => simp [lifeStep, clientStep, hc] at hs

theorem load_effect (hs : lifeStep cfg w (.load c) = some w') : LifeEffect cfg w (.load c) w' := by
  rcases hc : w.clients c with _ | m | ⟨m, mc, _ | ⟨x, todo⟩, offsets⟩
  case attached.cons =>
    simp only [lifeStep, clientStep, hc] at hs
    exact Option.some.inj hs ▸ .load hc
  all_goals simp [lifeStep, clientStep, hc] at hs

theorem exit_effect (hs : lifeStep cfg w (.exit c) = some w') : LifeEffect cfg w (.exit c) w' := by
  cases hc : w.clients c with
  | out => simp [lifeStep, clientStep, hc] at hs
  | half | attached =>
      simp only [lifeStep, clientStep, hc] at hs
      exact Option.some.inj hs ▸ .exit

/-- **Every action has one of the effects.** -/
theorem lifeStep_effect (hs : lifeStep cfg w a = some w') : LifeEffect cfg w a w' := by
  cases a with
  | createData d ans => exact createData_effect hs
  | createCtrl d ans => exact createCtrl_effect hs
  | store d => exact store_effect hs
  | pool d ok => exact pool_effect hs
  | destroyCtrl d => exact destroyCtrl_effect hs
  | destroyData d => exact destroyData_effect hs
  | kill d => exact kill_effect hs
  | attachData c ans => exact attachData_effect hs
  | attachCtrl c ans => exact attachCtrl_effect hs
  | load c => exact load_effect hs
  | exit c => exact exit_effect hs

end KuberneTSN.Memory
