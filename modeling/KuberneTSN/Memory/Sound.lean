import KuberneTSN.Memory.Effect

/-!
# What holds while daemons and programs come and go

* `KernelOp` — what an action is to the kernel, which is all that a process sees of the others;
* `KernelOp.backed`, `KernelOp.offsets` — none takes memory away from a mapping or overwrites an
  offset;
* `Daemon.Owns`, `Client.Ok` — what a process may rely on in each of its states;
* `Sound.step`, `sound_run` — every action keeps this.
-/

set_option linter.unusedSectionVars false

namespace KuberneTSN.Memory

open Lib
open KuberneTSN.Sched (Area KtMemLayout ktDefaultMemorySize)

variable {δ κ : Type} [DecidableEq δ] [DecidableEq κ] {cfg : Config δ κ} {w w' : System δ κ}
  {a : LifeAct δ κ} {k k' : Kernel}

/-! ## The kernel -/

/-- What an action does to the kernel. -/
inductive KernelOp (cfg : Config δ κ) (k : Kernel) : Kernel → Prop
  | same : KernelOp cfg k k
  | link (d : δ) {name : ShmName} {size : ℕ} : KernelOp cfg k (k.link name size sIrusr)
  | resize {o : ℕ} : KernelOp cfg k (ftruncate k o ktDefaultMemorySize)
  /-- A daemon stores an offset that is not there yet, in an object with no offsets but its own. -/
  | store {d : δ} {o : ℕ} {x : Area} (hzero : (k.objects o).offsets x = 0)
      (hown : ∀ y, (k.objects o).offsets y = 0 ∨ (k.objects o).offsets y = (cfg.layout d).area y) :
      KernelOp cfg k (storeOffset k o x ((cfg.layout d).area x))
  | unlink {name : ShmName} : KernelOp cfg k (shmUnlink k name)

/-- The names stand for objects that exist, which only privileged programs may open, and the offsets
in an object are those of one daemon, or have not been stored. -/
structure KernelOk (cfg : Config δ κ) (k : Kernel) : Prop where
  linked : ∀ name o, k.names name = some o → o < k.next
  mode : ∀ o < k.next, (k.objects o).mode = sIrusr
  offsets : ∀ o < k.next, ∃ d, ∀ x,
    (k.objects o).offsets x = 0 ∨ (k.objects o).offsets x = (cfg.layout d).area x

theorem KernelOk.link (hk : KernelOk cfg k) (d : δ) (name : ShmName) (size : ℕ) :
    KernelOk cfg (k.link name size sIrusr) := by
  have hold : ∀ {o}, o < k.next + 1 → o ≠ k.next → o < k.next :=
    fun ho hne => Nat.lt_of_le_of_ne (Nat.lt_succ_iff.mp ho) hne
  refine ⟨fun name' o ho => ?_, fun o ho => ?_, fun o ho => ?_⟩
  · by_cases hname : name' = name
    · rw [hname, link_names_self, Option.some.injEq] at ho
      exact ho ▸ Nat.lt_succ_self _
    · rw [link_names_of_ne _ _ _ hname] at ho
      exact (hk.linked name' o ho).trans (Nat.lt_succ_self _)
  · by_cases hnext : o = k.next
    · rw [hnext, link_objects_next]
    · rw [link_objects_of_ne _ _ _ hnext]
      exact hk.mode o (hold ho hnext)
  · by_cases hnext : o = k.next
    · rw [hnext, link_objects_next]
      exact ⟨d, fun x => .inl rfl⟩
    · rw [link_objects_of_ne _ _ _ hnext]
      exact hk.offsets o (hold ho hnext)

theorem KernelOk.resize (hk : KernelOk cfg k) (o size : ℕ) : KernelOk cfg (ftruncate k o size) := by
  refine ⟨hk.linked, fun p hp => ?_, fun p hp => ?_⟩
  · rw [ftruncate_mode]
    exact hk.mode p hp
  · rw [ftruncate_offsets]
    exact hk.offsets p hp

theorem KernelOk.store (hk : KernelOk cfg k) {d : δ} {o : ℕ} (x : Area)
    (hown : ∀ y, (k.objects o).offsets y = 0 ∨ (k.objects o).offsets y = (cfg.layout d).area y) :
    KernelOk cfg (storeOffset k o x ((cfg.layout d).area x)) := by
  refine ⟨hk.linked, fun p hp => ?_, fun p hp => ?_⟩
  · rw [storeOffset_mode]
    exact hk.mode p hp
  · by_cases hpo : p = o
    · -- the object had no offsets but those of `d`, and this is another one of them
      refine ⟨d, fun y => ?_⟩
      rw [storeOffset_offsets]
      split_ifs with hy
      · exact .inr (hy.2 ▸ rfl)
      · exact hpo ▸ hown y
    · obtain ⟨d', hd'⟩ := hk.offsets p hp
      refine ⟨d', fun y => ?_⟩
      rw [storeOffset_offsets, if_neg fun hboth => hpo hboth.1]
      exact hd' y

theorem KernelOk.unlink (hk : KernelOk cfg k) (name : ShmName) :
    KernelOk cfg (shmUnlink k name) := by
  refine ⟨fun name' o ho => ?_, hk.mode, hk.offsets⟩
  by_cases hname : name' = name
  · rw [hname, shmUnlink_names_self] at ho
    cases ho
  · rw [shmUnlink_names_of_ne _ hname] at ho
    exact hk.linked name' o ho

theorem KernelOp.ok (h : KernelOp cfg k k') (hk : KernelOk cfg k) : KernelOk cfg k' := by
  cases h with
  | same => exact hk
  | link d => exact hk.link d _ _
  | resize => exact hk.resize _ _
  | store hzero hown => exact hk.store _ hown
  | unlink => exact hk.unlink _

/-- What a process has mapped is there. -/
structure Backed (k : Kernel) (m : KtMemory) : Prop where
  exists_object : m.fd < k.next
  size_le : m.size ≤ (k.objects m.fd).size
  size_le_default : m.size ≤ ktDefaultMemorySize

section backed

variable {m : KtMemory} (hm : Backed k m)
include hm

theorem Backed.link {name : ShmName} {size mode : ℕ} : Backed (k.link name size mode) m := by
  refine ⟨hm.exists_object.trans (Nat.lt_succ_self _), ?_, hm.size_le_default⟩
  rw [link_objects_of_ne _ _ _ hm.exists_object.ne]
  exact hm.size_le

/-- Every attach resizes its object to the size that no mapping exceeds. -/
theorem Backed.resize {o : ℕ} : Backed (ftruncate k o ktDefaultMemorySize) m := by
  refine ⟨hm.exists_object, ?_, hm.size_le_default⟩
  rw [ftruncate_size]
  split_ifs
  · exact hm.size_le_default
  · exact hm.size_le

theorem Backed.store {o : ℕ} {x : Area} {v : ℕ} : Backed (storeOffset k o x v) m := by
  refine ⟨hm.exists_object, ?_, hm.size_le_default⟩
  rw [storeOffset_size]
  exact hm.size_le

theorem Backed.unlink {name : ShmName} : Backed (shmUnlink k name) m :=
  ⟨hm.exists_object, hm.size_le, hm.size_le_default⟩

/-- **No action takes anything away from a mapping.** -/
theorem KernelOp.backed (h : KernelOp cfg k k') : Backed k' m := by
  cases h with
  | same => exact hm
  | link => exact hm.link
  | resize => exact hm.resize
  | store => exact hm.store
  | unlink => exact hm.unlink

end backed

/-- **An offset that is stored stays.** -/
theorem KernelOp.offsets (h : KernelOp cfg k k') {o : ℕ} (ho : o < k.next) {x : Area}
    (hx : (k.objects o).offsets x ≠ 0) : (k'.objects o).offsets x = (k.objects o).offsets x := by
  cases h with
  | same | unlink => rfl
  | link d => rw [link_objects_of_ne _ _ _ ho.ne]
  | resize => rw [ftruncate_offsets]
  | store hzero hown =>
      rw [storeOffset_offsets, if_neg]
      rintro ⟨rfl, rfl⟩
      exact hx hzero

/-! ## What holds on the way -/

/-- The segment is the one under its name. -/
structure Holds (k : Kernel) (name : ShmName) (m : KtMemory) : Prop where
  name_eq : m.name = name
  linked : k.names name = some m.fd
  backed : Backed k m

/-- The segments of a daemon are its own, and the offsets in the second one are those that it has
stored. -/
def Daemon.Owns (layout : KtMemLayout) (k : Kernel) : Daemon → Prop
  | .off => True
  | .created m => Holds k .data m ∧ k.names .ctrl = none
  | .up m mc todo => Holds k .data m ∧ Holds k .ctrl mc ∧ todo.Nodup ∧
      ∀ x, (k.objects mc.fd).offsets x = if x ∈ todo then 0 else layout.area x
  | .running m mc => Holds k .data m ∧ Holds k .ctrl mc ∧
      ∀ x, (k.objects mc.fd).offsets x = layout.area x
  | .stopping m => Holds k .data m ∧ k.names .ctrl = none

/-- The program is privileged, what it has mapped is there, and what it has loaded are zeros or the
offsets in the second segment. -/
def Client.Ok (privileged : Bool) (k : Kernel) : Client → Prop
  | .out => True
  | .half m => privileged ∧ Backed k m
  | .attached m mc _ offsets => privileged ∧ Backed k m ∧ Backed k mc ∧
      ∀ x, offsets x = 0 ∨ offsets x = (k.objects mc.fd).offsets x

/-- What holds in every reachable state. -/
structure Sound (cfg : Config δ κ) (w : System δ κ) : Prop where
  kernel : KernelOk cfg w.kernel
  nested : w.kernel.names .data = none → w.kernel.names .ctrl = none
  owns : ∀ d, (w.daemons d).Owns (cfg.layout d) w.kernel
  alone : ∀ d d', w.daemons d ≠ .off → w.daemons d' ≠ .off → d = d'
  clients : ∀ c, (w.clients c).Ok (cfg.privileged c) w.kernel

section processes

variable {layout : KtMemLayout} {name : ShmName} {m mc : KtMemory}

theorem Holds.mono (h : Holds k name m) (hname : k'.names name = k.names name)
    (hbacked : Backed k' m) : Holds k' name m :=
  ⟨h.name_eq, hname.trans h.linked, hbacked⟩

/-- A new object, mapped as a whole. -/
theorem holds_link (k : Kernel) (name : ShmName) {size : ℕ} (hsize : size ≤ ktDefaultMemorySize) :
    Holds (k.link name size sIrusr) name ⟨name, k.next, size⟩ := by
  refine ⟨rfl, link_names_self .., Nat.lt_succ_self _, ?_, hsize⟩
  rw [link_objects_next]

/-- The name of the first segment is taken while a daemon runs. -/
theorem Daemon.Owns.data_ne {p : Daemon} (h : p.Owns layout k) (hp : p ≠ .off) :
    k.names .data ≠ none := by
  intro hnone
  cases p with
  | off => exact hp rfl
  | created m | stopping m | up m mc todo | running m mc =>
      have hlinked := h.1.linked
      rw [hnone] at hlinked
      cases hlinked

/-- The second segment is new: none of the offsets is there. -/
theorem Daemon.Owns.linkCtrl {size : ℕ} (h : (Daemon.created m).Owns layout k)
    (hsize : size ≤ ktDefaultMemorySize) :
    (Daemon.up m ⟨.ctrl, k.next, size⟩ allAreas).Owns layout (k.link .ctrl size sIrusr) := by
  have hdata := link_names_of_ne k size sIrusr (show .data ≠ ShmName.ctrl by decide)
  refine ⟨h.1.mono hdata h.1.backed.link, holds_link _ _ hsize, by decide, fun x => ?_⟩
  have hmem : x ∈ allAreas := by cases x <;> decide
  rw [link_objects_next, if_pos hmem]

/-- One more offset is stored. -/
theorem Daemon.Owns.store {x : Area} {todo : List Area}
    (h : (Daemon.up m mc (x :: todo)).Owns layout k) :
    (Daemon.up m mc todo).Owns layout (storeOffset k mc.fd x (layout.area x)) := by
  obtain ⟨hdata, hctrl, hnodup, hoffsets⟩ := h
  rw [List.nodup_cons] at hnodup
  refine ⟨hdata.mono rfl hdata.backed.store, hctrl.mono rfl hctrl.backed.store, hnodup.2,
    fun y => ?_⟩
  rw [storeOffset_offsets]
  by_cases hy : y = x
  · rw [if_pos ⟨rfl, hy⟩, hy, if_neg hnodup.1]
  · rw [if_neg fun hboth => hy hboth.2, hoffsets y]
    simp only [List.mem_cons, hy, false_or]

/-- What this is to the kernel. -/
theorem Daemon.Owns.storeOp {d : δ} {x : Area} {todo : List Area}
    (h : (Daemon.up m mc (x :: todo)).Owns (cfg.layout d) k) :
    KernelOp cfg k (storeOffset k mc.fd x ((cfg.layout d).area x)) := by
  obtain ⟨-, -, -, hoffsets⟩ := h
  refine .store ?_ fun y => ?_
  · rw [hoffsets x, if_pos List.mem_cons_self]
  · rw [hoffsets y]
    exact ite_eq_or_eq ..

/-- A resized object is the same to its daemon. -/
theorem Daemon.Owns.resize {p : Daemon} (h : p.Owns layout k) (o : ℕ) :
    p.Owns layout (ftruncate k o ktDefaultMemorySize) := by
  have hholds : ∀ {name m}, Holds k name m → Holds (ftruncate k o ktDefaultMemorySize) name m :=
    fun hm => hm.mono rfl hm.backed.resize
  cases p with
  | off => trivial
  | created m | stopping m => exact ⟨hholds h.1, h.2⟩
  | up m mc todo =>
      refine ⟨hholds h.1, hholds h.2.1, h.2.2.1, fun x => ?_⟩
      rw [ftruncate_offsets]
      exact h.2.2.2 x
  | running m mc =>
      refine ⟨hholds h.1, hholds h.2.1, fun x => ?_⟩
      rw [ftruncate_offsets]
      exact h.2.2 x

/-- What a daemon has mapped is under its name, and there. -/
theorem Daemon.Owns.memories {p : Daemon} (h : p.Owns layout k) :
    ∀ m ∈ p.memories, k.names m.name = some m.fd ∧ Backed k m := by
  have hholds : ∀ {name : ShmName} {m : KtMemory}, Holds k name m →
      k.names m.name = some m.fd ∧ Backed k m := by
    intro name m hm
    rw [hm.name_eq]
    exact ⟨hm.linked, hm.backed⟩
  cases p with
  | off => exact fun m hm => absurd hm List.not_mem_nil
  | created m | stopping m =>
      exact List.forall_mem_singleton.mpr (hholds h.1)
  | up m mc todo | running m mc =>
      exact List.forall_mem_cons.mpr ⟨hholds h.1, List.forall_mem_singleton.mpr (hholds h.2.1)⟩

variable {privileged : Bool} {p : Client}

theorem Client.Ok.mono (h : p.Ok privileged k) (hop : KernelOp cfg k k') : p.Ok privileged k' := by
  cases p with
  | out => trivial
  | half m => exact ⟨h.1, hop.backed h.2⟩
  | attached m mc todo offsets =>
      obtain ⟨hprivileged, hm, hmc, hoffsets⟩ := h
      refine ⟨hprivileged, hop.backed hm, hop.backed hmc, fun x => ?_⟩
      by_cases hx : offsets x = 0
      · exact .inl hx
      · -- what has been loaded was stored then, so that it is still there
        have hloaded := (hoffsets x).resolve_left hx
        exact .inr (hloaded.trans (hop.offsets hmc.exists_object (hloaded ▸ hx)).symm)

theorem Client.Ok.memories (h : p.Ok privileged k) : ∀ m ∈ p.memories, privileged ∧ Backed k m := by
  cases p with
  | out => exact fun m hm => absurd hm List.not_mem_nil
  | half m => exact List.forall_mem_singleton.mpr h
  | attached m mc todo offsets =>
      exact List.forall_mem_cons.mpr ⟨⟨h.1, h.2.1⟩, List.forall_mem_singleton.mpr ⟨h.1, h.2.2.1⟩⟩

/-- The object that an attach has opened is there, and as large as the program has mapped it. -/
theorem KernelOk.backed_resize (hk : KernelOk cfg k) {o : ℕ} (hname : k.names name = some o) :
    Backed (ftruncate k o ktDefaultMemorySize) ⟨name, o, ktDefaultMemorySize⟩ := by
  refine ⟨hk.linked name o hname, ?_, le_rfl⟩
  rw [ftruncate_size, if_pos rfl]

/-- A program that has opened an object is privileged: nobody else may write to it. -/
theorem KernelOk.privileged_of_open (hk : KernelOk cfg k) {o : ℕ} (hname : k.names name = some o)
    (hmay : privileged ∨ (k.objects o).mode &&& sIwusr ≠ 0) : privileged := by
  rcases hmay with hp | hmode
  · exact hp
  · rw [hk.mode o (hk.linked name o hname)] at hmode
    exact absurd rfl hmode

end processes

/-! ## One daemon moves on -/

section daemons

variable (h : Sound cfg w) {d : δ} {m mc : KtMemory}
include h

theorem Sound.owns_of_eq {p : Daemon} (hd : w.daemons d = p) : p.Owns (cfg.layout d) w.kernel :=
  hd ▸ h.owns d

/-- While a daemon runs the others do not. -/
theorem Sound.others_off (hd : w.daemons d ≠ .off) : ∀ d', d' ≠ d → w.daemons d' = .off := by
  intro d' hne
  by_contra hd'
  exact hne (h.alone d' d hd' hd)

/-- While the name of the first segment is free no daemon runs. -/
theorem Sound.all_off (hfree : w.kernel.names .data = none) (d : δ) : w.daemons d = .off := by
  by_contra hd
  exact (h.owns d).data_ne hd hfree

/-- A daemon moves on, while the others do not run. -/
theorem Sound.daemonTo (hop : KernelOp cfg w.kernel k) {p : Daemon}
    (hothers : ∀ d', d' ≠ d → w.daemons d' = .off)
    (hnested : k.names .data = none → k.names .ctrl = none) (howns : p.Owns (cfg.layout d) k) :
    Sound cfg (w.daemonTo k d p) := by
  have hoff : ∀ d', d' ≠ d → (w.daemonTo k d p).daemons d' = .off := by
    intro d' hne
    rw [daemonTo_of_ne _ _ hne]
    exact hothers d' hne
  refine ⟨hop.ok h.kernel, hnested, fun d' => ?_, fun d₁ d₂ h₁ h₂ => ?_, fun c => ?_⟩
  · by_cases hd : d' = d
    · rw [hd, daemonTo_self]
      exact howns
    · rw [hoff d' hd]
      trivial
  · have honly : ∀ d', (w.daemonTo k d p).daemons d' ≠ .off → d' = d := by
      intro d' hd'
      by_contra hne
      exact hd' (hoff d' hne)
    exact (honly d₁ h₁).trans (honly d₂ h₂).symm
  · exact (h.clients c).mono hop

/-- The first segment comes before the second one. -/
theorem Sound.link_data_ctrl (hfree : w.kernel.names .data = none) (size : ℕ) :
    (w.kernel.link .data size sIrusr).names .ctrl = none := by
  rw [link_names_of_ne _ _ _ (by decide)]
  exact h.nested hfree

/-- The first segment is made, whether its daemon goes on or not. -/
theorem Sound.linkData (hfree : w.kernel.names .data = none) {size : ℕ} {p : Daemon}
    (howns : p.Owns (cfg.layout d) (w.kernel.link .data size sIrusr)) :
    Sound cfg (w.daemonTo (w.kernel.link .data size sIrusr) d p) :=
  h.daemonTo (.link d) (fun d' _ => h.all_off hfree d') (fun _ => h.link_data_ctrl hfree size) howns

/-- The second segment is made, whether its daemon goes on or not. -/
theorem Sound.linkCtrl (hd : w.daemons d = .created m) {size : ℕ} {p : Daemon}
    (howns : p.Owns (cfg.layout d) (w.kernel.link .ctrl size sIrusr)) :
    Sound cfg (w.daemonTo (w.kernel.link .ctrl size sIrusr) d p) := by
  have hne : w.daemons d ≠ .off := by simp [hd]
  refine h.daemonTo (.link d) (h.others_off hne) (fun hnone => ?_) howns
  -- the first name is taken, by the segment of this daemon
  rw [link_names_of_ne _ _ _ (by decide)] at hnone
  exact absurd hnone ((h.owns d).data_ne hne)

theorem Sound.store {x : Area} {todo : List Area} (hd : w.daemons d = .up m mc (x :: todo)) :
    Sound cfg (w.daemonTo (storeOffset w.kernel mc.fd x ((cfg.layout d).area x)) d
      (.up m mc todo)) := by
  have hne : w.daemons d ≠ .off := by simp [hd]
  have howns := h.owns_of_eq hd
  exact h.daemonTo howns.storeOp (h.others_off hne) h.nested howns.store

theorem Sound.pool (hd : w.daemons d = .up m mc []) :
    Sound cfg (w.daemonTo w.kernel d (.running m mc)) := by
  have hne : w.daemons d ≠ .off := by simp [hd]
  obtain ⟨hdata, hctrl, -, hoffsets⟩ := h.owns_of_eq hd
  refine h.daemonTo .same (h.others_off hne) h.nested ⟨hdata, hctrl, fun x => ?_⟩
  rw [hoffsets x, if_neg List.not_mem_nil]

theorem Sound.destroyCtrl (hd : w.daemons d = .running m mc) :
    Sound cfg (w.daemonTo (shmUnlink w.kernel mc.name) d (.stopping m)) := by
  have hne : w.daemons d ≠ .off := by simp [hd]
  obtain ⟨hdata, hctrl, -⟩ := h.owns_of_eq hd
  rw [hctrl.name_eq]
  have hfree := shmUnlink_names_self w.kernel .ctrl
  have hsame := shmUnlink_names_of_ne w.kernel (show .data ≠ ShmName.ctrl by decide)
  refine h.daemonTo .unlink (h.others_off hne) (fun _ => hfree) ⟨?_, hfree⟩
  exact hdata.mono hsame hdata.backed.unlink

theorem Sound.destroyData (hd : w.daemons d = .stopping m) :
    Sound cfg (w.daemonTo (shmUnlink w.kernel m.name) d .off) := by
  have hne : w.daemons d ≠ .off := by simp [hd]
  obtain ⟨hdata, hctrl⟩ := h.owns_of_eq hd
  rw [hdata.name_eq]
  refine h.daemonTo .unlink (h.others_off hne) (fun _ => ?_) trivial
  rw [shmUnlink_names_of_ne _ (by decide)]
  exact hctrl

/-- A daemon ends, and leaves its segments. -/
theorem Sound.ends (hd : w.daemons d ≠ .off) : Sound cfg (w.daemonTo w.kernel d .off) :=
  h.daemonTo .same (h.others_off hd) h.nested trivial

end daemons

/-! ## One program moves on -/

section programs

variable (h : Sound cfg w) {c : κ} {m mc : KtMemory}
include h

theorem Sound.ok_of_eq {p : Client} (hc : w.clients c = p) : p.Ok (cfg.privileged c) w.kernel :=
  hc ▸ h.clients c

/-- A program moves on, and has at most resized an object. -/
theorem Sound.clientTo {p : Client}
    (hk : k = w.kernel ∨ ∃ o, k = ftruncate w.kernel o ktDefaultMemorySize)
    (hp : p.Ok (cfg.privileged c) k) : Sound cfg (w.clientTo k c p) := by
  have hclients : KernelOp cfg w.kernel k →
      ∀ c', ((w.clientTo k c p).clients c').Ok (cfg.privileged c') k := by
    intro hop c'
    by_cases hc : c' = c
    · rw [hc, clientTo_self]
      exact hp
    · rw [clientTo_of_ne _ _ hc]
      exact (h.clients c').mono hop
  rcases hk with rfl | ⟨o, rfl⟩
  · exact ⟨h.kernel, h.nested, h.owns, h.alone, hclients .same⟩
  · exact ⟨h.kernel.resize _ _, h.nested, fun d => (h.owns d).resize o, h.alone, hclients .resize⟩

theorem Sound.attachData {o : ℕ} (hname : w.kernel.names .data = some o)
    (hmay : cfg.privileged c ∨ (w.kernel.objects o).mode &&& sIwusr ≠ 0) :
    Sound cfg (w.clientTo (ftruncate w.kernel o ktDefaultMemorySize) c
      (.half ⟨.data, o, ktDefaultMemorySize⟩)) := by
  have hprivileged := h.kernel.privileged_of_open hname hmay
  exact h.clientTo (.inr ⟨o, rfl⟩) ⟨hprivileged, h.kernel.backed_resize hname⟩

theorem Sound.attachCtrl {o : ℕ} (hc : w.clients c = .half m)
    (hname : w.kernel.names .ctrl = some o) :
    Sound cfg (w.clientTo (ftruncate w.kernel o ktDefaultMemorySize) c
      (.attached m ⟨.ctrl, o, ktDefaultMemorySize⟩ allAreas fun _ => 0)) := by
  obtain ⟨hprivileged, hm⟩ := h.ok_of_eq hc
  refine h.clientTo (.inr ⟨o, rfl⟩) ⟨hprivileged, hm.resize, ?_, fun x => .inl rfl⟩
  exact h.kernel.backed_resize hname

theorem Sound.load {x : Area} {todo : List Area} {offsets : Area → ℕ}
    (hc : w.clients c = .attached m mc (x :: todo) offsets) :
    Sound cfg (w.clientTo w.kernel c (.attached m mc todo
      (Function.update offsets x ((w.kernel.objects mc.fd).offsets x)))) := by
  obtain ⟨hprivileged, hm, hmc, hoffsets⟩ := h.ok_of_eq hc
  refine h.clientTo (.inl rfl) ⟨hprivileged, hm, hmc, fun y => ?_⟩
  by_cases hy : y = x
  · rw [hy, Function.update_self]
    exact .inr rfl
  · rw [Function.update_of_ne hy]
    exact hoffsets y

end programs

/-! ## Whole runs -/

/-- **Every action keeps all of this.** -/
theorem Sound.step (w : System δ κ) (a : LifeAct δ κ) (w' : System δ κ) (h : Sound cfg w)
    (hs : lifeStep cfg w a = some w') : Sound cfg w' := by
  cases lifeStep_effect hs with
  | refuseData hd hrefused =>
      rw [daemonTo_eq_self w hd]
      exact h
  | leaveData hd hok hfree hfail => exact h.linkData hfree trivial
  | createData hd hok hfree hmap =>
      exact h.linkData hfree ⟨holds_link _ _ le_rfl, h.link_data_ctrl hfree _⟩
  | refuseCtrl hd hrefused => exact h.ends (by simp [hd])
  | leaveCtrl hd hok hfree hfail => exact h.linkCtrl hd trivial
  | createCtrl hd hok hfree hmap =>
      exact h.linkCtrl hd ((h.owns_of_eq hd).linkCtrl cfg.pageSize_le)
  | store hd => exact h.store hd
  | pool hd => exact h.pool hd
  | noPool hd => exact h.ends (by simp [hd])
  | destroyCtrl hd => exact h.destroyCtrl hd
  | destroyData hd => exact h.destroyData hd
  | kill hd => exact h.ends hd
  | turnAway hb hk =>
      refine h.clientTo (hk.imp_right ?_) trivial
      rintro ⟨_, o, -, rfl⟩
      exact ⟨o, rfl⟩
  | attachData hc hname hmay => exact h.attachData hname hmay
  | attachCtrl hc hname hmay => exact h.attachCtrl hc hname
  | load hc => exact h.load hc
  | exit => exact h.clientTo (.inl rfl) trivial

theorem sound_boot : Sound cfg (.boot δ κ) := by
  refine ⟨⟨?_, ?_, ?_⟩, fun _ => rfl, fun _ => trivial, ?_, fun _ => trivial⟩
  · exact fun name o ho => absurd ho (Option.some_ne_none o).symm
  · exact fun o ho => absurd ho (Nat.not_lt_zero o)
  · exact fun o ho => absurd ho (Nat.not_lt_zero o)
  · exact fun d d' hd _ => absurd rfl hd

/-- The invariant in every reachable state. -/
theorem sound_run {tr : List (System δ κ × LifeAct δ κ)}
    (hrun : Run (lifeStep cfg) (.boot δ κ) tr w) : Sound cfg w :=
  hrun.always sound_boot Sound.step

end KuberneTSN.Memory
