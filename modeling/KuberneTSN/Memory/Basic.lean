import KuberneTSN.Lib.Run
import KuberneTSN.Sched.Segment

/-!
# The life of the shared memory

A daemon, `ktsnd` or `ktsnd_socket`, creates two shared memory objects under fixed names, stores the
offsets of the rings and pools in the second one, runs, and destroys them in the opposite order. A
program with the preloaded library opens both by name before its `main`, and loads the offsets.

The kernel keeps the names and the objects. Every call that can fail does so when the environment
says so (`Answers`), and a daemon may be killed at any point; between any two actions of a process
any other process may run.
-/

set_option linter.unusedSectionVars false

namespace KuberneTSN.Memory

open Lib
open KuberneTSN.Sched (Area KtMemLayout ktDefaultMemorySize)

/-! ## Shared memory objects -/

/-- Source: `kt_memory.h` `KT_DEFAULT_SHARED_DATA_MEMORY_NAME` and
`KT_DEFAULT_SHARED_CTRL_MEMORY_NAME`, both of which fit in `name` with their terminator. -/
inductive ShmName where
  | data
  | ctrl
  deriving DecidableEq, Repr

/-- A shared memory object. -/
structure ShmObject where
  size : ℕ
  mode : ℕ
  /-- Its first bytes, read as a `struct kt_mem_layout`. -/
  offsets : Area → ℕ

/-- The shared memory of the host: which object a name stands for, if any, and the objects made so
far, which are those below `next`. -/
structure Kernel where
  names : ShmName → Option ℕ
  objects : ℕ → ShmObject
  next : ℕ

/-- After boot there is nothing. -/
def Kernel.boot : Kernel := ⟨fun _ => none, fun _ => ⟨0, 0, fun _ => 0⟩, 0⟩

/-- A new object under a name. -/
def Kernel.link (k : Kernel) (name : ShmName) (size mode : ℕ) : Kernel where
  names := Function.update k.names name (some k.next)
  objects := Function.update k.objects k.next ⟨size, mode, fun _ => 0⟩
  next := k.next + 1

/-- `O_CREAT` and `O_EXCL`; all objects are opened with `O_RDWR`. -/
structure OFlags where
  creat : Bool
  excl : Bool
  deriving DecidableEq, Repr

/-- `S_IRUSR`. -/
def sIrusr : ℕ := 0o400

/-- `S_IWUSR`, without which only a privileged process may open an object for writing. -/
def sIwusr : ℕ := 0o200

/-- `shm_open`, for a process of the user that owns the objects: the object and the kernel, or
nothing when the name does not exist, exists already, or may not be opened. -/
def shmOpen (k : Kernel) (privileged : Bool) (name : ShmName) (oflags : OFlags) (omode : ℕ) :
    Option (ℕ × Kernel) :=
  match k.names name with
  | none => if oflags.creat then some (k.next, k.link name 0 omode) else none
  | some o =>
      if oflags.creat ∧ oflags.excl then none
      else if privileged ∨ (k.objects o).mode &&& sIwusr ≠ 0 then some (o, k)
      else none

/-- `ftruncate`, on an open object. -/
def ftruncate (k : Kernel) (o size : ℕ) : Kernel :=
  { k with objects := Function.update k.objects o { k.objects o with size := size } }

/-- `shm_unlink`: the name is free again, the object stays with those who have mapped it. -/
def shmUnlink (k : Kernel) (name : ShmName) : Kernel :=
  { k with names := Function.update k.names name none }

/-- The store of an offset in an object. -/
def storeOffset (k : Kernel) (o : ℕ) (x : Area) (v : ℕ) : Kernel :=
  { k with
    objects := Function.update k.objects o
      { k.objects o with offsets := Function.update (k.objects o).offsets x v } }

section objects

variable (k : Kernel) (o p size mode : ℕ) {name name' : ShmName} (x y : Area) (v : ℕ)

theorem link_names_self (name : ShmName) : (k.link name size mode).names name = some k.next :=
  Function.update_self ..

theorem link_names_of_ne (h : name' ≠ name) :
    (k.link name size mode).names name' = k.names name' :=
  Function.update_of_ne h ..

theorem link_objects_next (name : ShmName) :
    (k.link name size mode).objects k.next = ⟨size, mode, fun _ => 0⟩ :=
  Function.update_self ..

/-- The other objects are as before. -/
theorem link_objects_of_ne {p : ℕ} (h : p ≠ k.next) :
    (k.link name size mode).objects p = k.objects p :=
  Function.update_of_ne h ..

theorem shmUnlink_names_self (name : ShmName) : (shmUnlink k name).names name = none :=
  Function.update_self ..

theorem shmUnlink_names_of_ne (h : name' ≠ name) :
    (shmUnlink k name).names name' = k.names name' :=
  Function.update_of_ne h ..

theorem ftruncate_size :
    ((ftruncate k o size).objects p).size = if p = o then size else (k.objects p).size := by
  by_cases h : p = o
  · simp only [ftruncate, h, Function.update_self, if_true]
  · simp only [ftruncate, Function.update_of_ne h, if_neg h]

theorem ftruncate_mode : ((ftruncate k o size).objects p).mode = (k.objects p).mode := by
  by_cases h : p = o
  · simp only [ftruncate, h, Function.update_self]
  · simp only [ftruncate, Function.update_of_ne h]

theorem ftruncate_offsets :
    ((ftruncate k o size).objects p).offsets = (k.objects p).offsets := by
  by_cases h : p = o
  · simp only [ftruncate, h, Function.update_self]
  · simp only [ftruncate, Function.update_of_ne h]

theorem storeOffset_size : ((storeOffset k o x v).objects p).size = (k.objects p).size := by
  by_cases h : p = o
  · simp only [storeOffset, h, Function.update_self]
  · simp only [storeOffset, Function.update_of_ne h]

theorem storeOffset_mode : ((storeOffset k o x v).objects p).mode = (k.objects p).mode := by
  by_cases h : p = o
  · simp only [storeOffset, h, Function.update_self]
  · simp only [storeOffset, Function.update_of_ne h]

theorem storeOffset_offsets :
    ((storeOffset k o x v).objects p).offsets y =
      if p = o ∧ y = x then v else (k.objects p).offsets y := by
  by_cases h : p = o
  · subst h
    by_cases hy : y = x
    · simp only [storeOffset, hy, Function.update_self, and_self, if_true]
    · simp only [storeOffset, Function.update_self, Function.update_of_ne hy, hy, and_false,
        if_false]
  · simp only [storeOffset, Function.update_of_ne h, h, false_and, if_false]

end objects

/-! ## `kt_memory.c` -/

/-- Source: `kt_memory.h` `struct kt_memory`; `fd` is the object that the descriptor stands for, and
all of it is mapped at `addr`. -/
structure KtMemory where
  name : ShmName
  fd : ℕ
  size : ℕ
  deriving DecidableEq, Repr

/-- Which of the calls of `_kt_memory_alloc` succeed, as far as the environment is concerned. -/
structure Answers where
  malloc : Bool
  shmOpen : Bool
  ftruncate : Bool
  mmap : Bool
  deriving DecidableEq, Repr

/-- Source: `kt_memory.c` `_kt_memory_alloc`. Whatever fails after `shm_open`, what this has made
stays. -/
def ktMemoryAlloc (k : Kernel) (privileged : Bool) (ans : Answers) (name : ShmName) (size : ℕ)
    (oflags : OFlags) (omode : ℕ) : Option KtMemory × Kernel :=
  if ¬ ans.malloc then (none, k)
  else if ¬ ans.shmOpen then (none, k)
  else
    match shmOpen k privileged name oflags omode with
    | none => (none, k)
    | some (fd, k) =>
        if ¬ ans.ftruncate then (none, k)
        else
          let k := ftruncate k fd size
          if ¬ ans.mmap then (none, k)
          else (some ⟨name, fd, size⟩, k)

/-- Source: `kt_memory.c` `kt_memory_attach`. -/
def ktMemoryAttach (k : Kernel) (privileged : Bool) (ans : Answers) (name : ShmName) (size : ℕ) :
    Option KtMemory × Kernel :=
  ktMemoryAlloc k privileged ans name size ⟨false, false⟩ 0

/-- Source: `kt_memory.c` `kt_memory_create`. -/
def ktMemoryCreate (k : Kernel) (ans : Answers) (name : ShmName) (size : ℕ) :
    Option KtMemory × Kernel :=
  ktMemoryAlloc k true ans name size ⟨true, true⟩ sIrusr

/-- Source: `kt_memory.c` `kt_memory_destroy`. -/
def ktMemoryDestroy (k : Kernel) (m : KtMemory) : Kernel := shmUnlink k m.name

/-! ## The processes -/

/-- The offsets in the order in which they are stored and loaded. -/
def allAreas : List Area := [.txRing, .freeRing, .mbufPool, .metadataPool]

/-- Where a daemon is. -/
inductive Daemon where
  /-- It does not run. -/
  | off
  /-- It has created the first segment. -/
  | created (memory : KtMemory)
  /-- It has created both, and has the offsets of `todo` still to store. -/
  | up (memory memoryCtrl : KtMemory) (todo : List Area)
  /-- It is in its loop. -/
  | running (memory memoryCtrl : KtMemory)
  /-- It has destroyed the second segment. -/
  | stopping (memory : KtMemory)
  deriving DecidableEq, Repr

/-- Where a program with the preloaded library is. -/
inductive Client where
  /-- It does not run. -/
  | out
  /-- It has attached the first segment. -/
  | half (memory : KtMemory)
  /-- It has attached both, and has the offsets of `todo` still to load; `offsets` has the rest. -/
  | attached (memory memoryCtrl : KtMemory) (todo : List Area) (offsets : Area → ℕ)

/-- The segments that a daemon has mapped. -/
def Daemon.memories : Daemon → List KtMemory
  | .off => []
  | .created m => [m]
  | .up m mc _ => [m, mc]
  | .running m mc => [m, mc]
  | .stopping m => [m]

/-- The segments that a program has mapped. -/
def Client.memories : Client → List KtMemory
  | .out => []
  | .half m => [m]
  | .attached m mc _ _ => [m, mc]

/-- What does not change: the page size, which is that of the second segment, the offsets that each
daemon computes, and which programs are privileged. The offsets of `ktsnd` and `ktsnd_socket`
differ, since their pools have 127 and 100 records. -/
structure Config (δ κ : Type) where
  pageSize : ℕ
  pageSize_le : pageSize ≤ ktDefaultMemorySize
  layout : δ → KtMemLayout
  privileged : κ → Bool

/-- The host: the kernel, the daemons that are ever started, and the programs. -/
structure System (δ κ : Type) where
  kernel : Kernel
  daemons : δ → Daemon
  clients : κ → Client

/-- After boot no process runs. -/
def System.boot (δ κ : Type) : System δ κ := ⟨.boot, fun _ => .off, fun _ => .out⟩

/-- The actions of the processes. -/
inductive LifeAct (δ κ : Type) where
  /-- Daemon `d` starts, and creates its first segment. -/
  | createData (d : δ) (ans : Answers)
  /-- It creates its second segment. -/
  | createCtrl (d : δ) (ans : Answers)
  /-- It stores the next offset. -/
  | store (d : δ)
  /-- It makes its pool of DPDK buffers; `ktsnd_socket` has none, so that this always succeeds. -/
  | pool (d : δ) (ok : Bool)
  /-- It leaves its loop, and destroys its second segment. -/
  | destroyCtrl (d : δ)
  /-- It destroys its first segment, and ends. -/
  | destroyData (d : δ)
  /-- It is killed. -/
  | kill (d : δ)
  /-- Program `c` starts, and attaches the first segment. -/
  | attachData (c : κ) (ans : Answers)
  /-- It attaches the second segment. -/
  | attachCtrl (c : κ) (ans : Answers)
  /-- It loads the next offset. -/
  | load (c : κ)
  /-- It ends. -/
  | exit (c : κ)
  deriving DecidableEq, Repr

section step

variable {δ κ : Type} [DecidableEq δ] [DecidableEq κ]

/-- The state with a new kernel, after a daemon has moved on. -/
def System.daemonTo (w : System δ κ) (k : Kernel) (d : δ) (p : Daemon) : System δ κ :=
  { w with kernel := k, daemons := Function.update w.daemons d p }

/-- The state with a new kernel, after a program has moved on. -/
def System.clientTo (w : System δ κ) (k : Kernel) (c : κ) (p : Client) : System δ κ :=
  { w with kernel := k, clients := Function.update w.clients c p }

section moves

variable (w : System δ κ) (k : Kernel) {d d' : δ} {c c' : κ} {p : Daemon} {q : Client}

theorem daemonTo_self : (w.daemonTo k d p).daemons d = p := Function.update_self ..

theorem daemonTo_of_ne (h : d' ≠ d) : (w.daemonTo k d p).daemons d' = w.daemons d' :=
  Function.update_of_ne h ..

theorem clientTo_self : (w.clientTo k c q).clients c = q := Function.update_self ..

theorem clientTo_of_ne (h : c' ≠ c) : (w.clientTo k c q).clients c' = w.clients c' :=
  Function.update_of_ne h ..

theorem daemonTo_eq_self (h : w.daemons d = p) : w.daemonTo w.kernel d p = w := by
  unfold System.daemonTo
  rw [← h, Function.update_eq_self]

end moves

/-- One action of a daemon. Source: `ktsnd.c` `main`, lines 232–280 and 428–429, and
`ktsnd_socket.c` `main`, lines 38–74 and 154–155. -/
def daemonStep (cfg : Config δ κ) (w : System δ κ) (d : δ) : LifeAct δ κ → Option (System δ κ)
  | .createData _ ans =>
      match w.daemons d with
      | .off =>
          match ktMemoryCreate w.kernel ans .data ktDefaultMemorySize with
          | (none, k) => some (w.daemonTo k d .off)
          | (some memory, k) => some (w.daemonTo k d (.created memory))
      | _ => none
  | .createCtrl _ ans =>
      match w.daemons d with
      | .created memory =>
          match ktMemoryCreate w.kernel ans .ctrl cfg.pageSize with
          | (none, k) => some (w.daemonTo k d .off)
          | (some memoryCtrl, k) => some (w.daemonTo k d (.up memory memoryCtrl allAreas))
      | _ => none
  | .store _ =>
      match w.daemons d with
      | .up memory memoryCtrl (x :: todo) =>
          let k := storeOffset w.kernel memoryCtrl.fd x ((cfg.layout d).area x)
          some (w.daemonTo k d (.up memory memoryCtrl todo))
      | _ => none
  | .pool _ ok =>
      match w.daemons d with
      | .up memory memoryCtrl [] =>
          some (w.daemonTo w.kernel d (if ok then .running memory memoryCtrl else .off))
      | _ => none
  | .destroyCtrl _ =>
      match w.daemons d with
      | .running memory memoryCtrl =>
          some (w.daemonTo (ktMemoryDestroy w.kernel memoryCtrl) d (.stopping memory))
      | _ => none
  | .destroyData _ =>
      match w.daemons d with
      | .stopping memory => some (w.daemonTo (ktMemoryDestroy w.kernel memory) d .off)
      | _ => none
  | .kill _ =>
      match w.daemons d with
      | .off => none
      | _ => some (w.daemonTo w.kernel d .off)
  | _ => none

/-- One action of a program. A failed attach ends it.
Source: `libktsn.c` `__libc_start_main`, lines 583–602. -/
def clientStep (cfg : Config δ κ) (w : System δ κ) (c : κ) : LifeAct δ κ → Option (System δ κ)
  | .attachData _ ans =>
      match w.clients c with
      | .out =>
          match ktMemoryAttach w.kernel (cfg.privileged c) ans .data ktDefaultMemorySize with
          | (none, k) => some (w.clientTo k c .out)
          | (some memory, k) => some (w.clientTo k c (.half memory))
      | _ => none
  | .attachCtrl _ ans =>
      match w.clients c with
      | .half memory =>
          match ktMemoryAttach w.kernel (cfg.privileged c) ans .ctrl ktDefaultMemorySize with
          | (none, k) => some (w.clientTo k c .out)
          | (some memoryCtrl, k) =>
              some (w.clientTo k c (.attached memory memoryCtrl allAreas fun _ => 0))
      | _ => none
  | .load _ =>
      match w.clients c with
      | .attached memory memoryCtrl (x :: todo) offsets =>
          let v := (w.kernel.objects memoryCtrl.fd).offsets x
          some (w.clientTo w.kernel c
            (.attached memory memoryCtrl todo (Function.update offsets x v)))
      | _ => none
  | .exit _ =>
      match w.clients c with
      | .out => none
      | _ => some (w.clientTo w.kernel c .out)
  | _ => none

/-- One action of one process. -/
def lifeStep (cfg : Config δ κ) (w : System δ κ) (a : LifeAct δ κ) : Option (System δ κ) :=
  match a with
  | .createData d _ | .createCtrl d _ | .store d | .pool d _ | .destroyCtrl d | .destroyData d
  | .kill d => daemonStep cfg w d a
  | .attachData c _ | .attachCtrl c _ | .load c | .exit c => clientStep cfg w c a

end step

/-! ## What the calls of `kt_memory.c` can do -/

/-- What `_kt_memory_alloc` can do, where `shm_open` answers `opened` unless the environment makes
it fail. -/
inductive Allocated (k : Kernel) (ans : Answers) (name : ShmName) (size : ℕ)
    (opened : Option (ℕ × Kernel)) : Option KtMemory × Kernel → Prop
  | refused (h : ¬ (ans.malloc ∧ ans.shmOpen ∧ opened ≠ none)) :
      Allocated k ans name size opened (none, k)
  | unsized {fd : ℕ} {k' : Kernel} (hok : ans.malloc ∧ ans.shmOpen) (hopen : opened = some (fd, k'))
      (hfail : ¬ ans.ftruncate) : Allocated k ans name size opened (none, k')
  | unmapped {fd : ℕ} {k' : Kernel} (hok : ans.malloc ∧ ans.shmOpen)
      (hopen : opened = some (fd, k')) (hfail : ¬ ans.mmap) :
      Allocated k ans name size opened (none, ftruncate k' fd size)
  | made {fd : ℕ} {k' : Kernel} (hok : ans.malloc ∧ ans.shmOpen) (hopen : opened = some (fd, k'))
      (hmap : ans.ftruncate ∧ ans.mmap) :
      Allocated k ans name size opened (some ⟨name, fd, size⟩, ftruncate k' fd size)

theorem ktMemoryAlloc_allocated (k : Kernel) (privileged : Bool) (ans : Answers) (name : ShmName)
    (size : ℕ) (oflags : OFlags) (omode : ℕ) :
    Allocated k ans name size (shmOpen k privileged name oflags omode)
      (ktMemoryAlloc k privileged ans name size oflags omode) := by
  unfold ktMemoryAlloc
  by_cases hmalloc : ans.malloc
  · by_cases hshm : ans.shmOpen
    · rw [if_neg (not_not.mpr hmalloc), if_neg (not_not.mpr hshm)]
      cases hopen : shmOpen k privileged name oflags omode with
      | none => exact .refused fun h => h.2.2 rfl
      | some opened =>
          obtain ⟨fd, k'⟩ := opened
          dsimp only
          by_cases htrunc : ans.ftruncate
          · by_cases hmap : ans.mmap
            · rw [if_neg (not_not.mpr htrunc), if_neg (not_not.mpr hmap)]
              exact .made ⟨hmalloc, hshm⟩ rfl ⟨htrunc, hmap⟩
            · rw [if_neg (not_not.mpr htrunc), if_pos hmap]
              exact .unmapped ⟨hmalloc, hshm⟩ rfl hmap
          · rw [if_pos htrunc]
            exact .unsized ⟨hmalloc, hshm⟩ rfl htrunc
    · rw [if_neg (not_not.mpr hmalloc), if_pos hshm]
      exact .refused fun h => hshm h.2.1
  · rw [if_pos hmalloc]
    exact .refused fun h => hmalloc h.1

/-- What `kt_memory_create` can do. -/
inductive Created (k : Kernel) (ans : Answers) (name : ShmName) (size : ℕ) :
    Option KtMemory × Kernel → Prop
  /-- There is no new object. -/
  | refused (h : ¬ (ans.malloc ∧ ans.shmOpen ∧ k.names name = none)) :
      Created k ans name size (none, k)
  /-- There is one, but it cannot be used. -/
  | left {m : ℕ} (hok : ans.malloc ∧ ans.shmOpen) (hfree : k.names name = none)
      (hfail : ¬ (ans.ftruncate ∧ ans.mmap)) :
      Created k ans name size (none, k.link name m sIrusr)
  | made (hok : ans.malloc ∧ ans.shmOpen) (hfree : k.names name = none)
      (hmap : ans.ftruncate ∧ ans.mmap) :
      Created k ans name size (some ⟨name, k.next, size⟩, k.link name size sIrusr)

/-- What `kt_memory_attach` can do. -/
inductive Attached (k : Kernel) (privileged : Bool) (name : ShmName) (size : ℕ) :
    Option KtMemory × Kernel → Prop
  | refused : Attached k privileged name size (none, k)
  /-- The object is resized, but cannot be mapped. -/
  | resized {o : ℕ} (hname : k.names name = some o) :
      Attached k privileged name size (none, ftruncate k o size)
  | made {o : ℕ} (hname : k.names name = some o)
      (hmay : privileged ∨ (k.objects o).mode &&& sIwusr ≠ 0) :
      Attached k privileged name size (some ⟨name, o, size⟩, ftruncate k o size)

/-- The new object, resized. -/
theorem ftruncate_link (k : Kernel) (name : ShmName) (size mode size' : ℕ) :
    ftruncate (k.link name size mode) k.next size' = k.link name size' mode := by
  simp only [ftruncate, Kernel.link, Function.update_self, Function.update_idem]

/-- `shm_open` as `kt_memory_create` calls it. -/
theorem shmOpen_create {k : Kernel} {name : ShmName} {omode fd : ℕ} {k' : Kernel}
    (h : shmOpen k true name ⟨true, true⟩ omode = some (fd, k')) :
    k.names name = none ∧ fd = k.next ∧ k' = k.link name 0 omode := by
  cases hname : k.names name with
  | none =>
      simp only [shmOpen, hname, if_true, Option.some.injEq, Prod.mk.injEq] at h
      exact ⟨rfl, h.1.symm, h.2.symm⟩
  | some o => simp [shmOpen, hname] at h

/-- `shm_open` as `kt_memory_attach` calls it. -/
theorem shmOpen_attach {k k' : Kernel} {privileged : Bool} {name : ShmName} {omode fd : ℕ}
    (h : shmOpen k privileged name ⟨false, false⟩ omode = some (fd, k')) :
    k.names name = some fd ∧ (privileged ∨ (k.objects fd).mode &&& sIwusr ≠ 0) ∧ k' = k := by
  cases hname : k.names name with
  | none => simp [shmOpen, hname] at h
  | some o =>
      by_cases hmay : privileged ∨ (k.objects o).mode &&& sIwusr ≠ 0
      · simp only [shmOpen, hname, if_pos hmay, Bool.false_eq_true, and_self, if_false,
          Option.some.injEq, Prod.mk.injEq] at h
        obtain ⟨rfl, rfl⟩ := h
        exact ⟨rfl, hmay, rfl⟩
      · simp [shmOpen, hname, if_neg hmay] at h

theorem ktMemoryCreate_created (k : Kernel) (ans : Answers) (name : ShmName) (size : ℕ) :
    Created k ans name size (ktMemoryCreate k ans name size) := by
  have halloc := ktMemoryAlloc_allocated k true ans name size ⟨true, true⟩ sIrusr
  unfold ktMemoryCreate
  generalize ktMemoryAlloc k true ans name size ⟨true, true⟩ sIrusr = r at halloc
  cases halloc with
  | refused h =>
      refine .refused fun hall => h ⟨hall.1, hall.2.1, ?_⟩
      simp [shmOpen, hall.2.2]
  | unsized hok hopen hfail =>
      obtain ⟨hfree, rfl, rfl⟩ := shmOpen_create hopen
      exact .left hok hfree fun h => hfail h.1
  | unmapped hok hopen hfail =>
      obtain ⟨hfree, rfl, rfl⟩ := shmOpen_create hopen
      rw [ftruncate_link]
      exact .left hok hfree fun h => hfail h.2
  | made hok hopen hmap =>
      obtain ⟨hfree, rfl, rfl⟩ := shmOpen_create hopen
      rw [ftruncate_link]
      exact .made hok hfree hmap

theorem ktMemoryAttach_attached (k : Kernel) (privileged : Bool) (ans : Answers) (name : ShmName)
    (size : ℕ) : Attached k privileged name size (ktMemoryAttach k privileged ans name size) := by
  have halloc := ktMemoryAlloc_allocated k privileged ans name size ⟨false, false⟩ 0
  unfold ktMemoryAttach
  generalize ktMemoryAlloc k privileged ans name size ⟨false, false⟩ 0 = r at halloc
  cases halloc with
  | refused => exact .refused
  | unsized _ hopen =>
      obtain ⟨-, -, rfl⟩ := shmOpen_attach hopen
      exact .refused
  | unmapped _ hopen =>
      obtain ⟨hname, -, rfl⟩ := shmOpen_attach hopen
      exact .resized hname
  | made _ hopen =>
      obtain ⟨hname, hmay, rfl⟩ := shmOpen_attach hopen
      exact .made hname hmay

end KuberneTSN.Memory
