import KuberneTSN.Lib.Keyed
import KuberneTSN.Lib.Run

/-!
# The socket table of `libktsn.c`

The preloaded library keeps a node for every socket in `g_socket_list`. Its `socket`, `setsockopt`
and `close` each search the list and insert, change or remove a node, and what libc answers is an
argument of the models. A node that `setsockopt` inserts has no domain: the field holds what
`malloc` returned.

`tableStep` is one call of a program, with the descriptors that the kernel has given out and what
was done with them kept beside the list.

* `setsockopt_reflects` — a call on an open descriptor records its option;
* `mirrors_step_iff` — a call keeps the list in step with the kernel exactly when it is not a
  `socket` that finds an old node for its descriptor which says something else (`OpensClean`);
* `socket_table_mirrors_iff` — so the list mirrors the open sockets throughout a run exactly when
  no call of the run is such a `socket`;
* `stale_node_survives` — two calls after which it does not.
-/

namespace KuberneTSN.Preload

open Lib

/-- Source: `libktsn.c` `struct kt_socket`. -/
structure KtSocket where
  fd : Int32
  prio : Int32
  txtime : Int32
  domain : Int32
  deriving DecidableEq, Repr

/-! The constants of the socket interface that the library tests, as Linux has them. -/

/-- `SOL_SOCKET`. -/
def solSocket : Int32 := 1

/-- `SO_TXTIME`, and also `SCM_TXTIME`. -/
def soTxtime : Int32 := 61

/-- `SO_PRIORITY`. -/
def soPriority : Int32 := 12

/-- `AF_INET`. -/
def afInet : Int32 := 2

/-- `PF_PACKET`. -/
def pfPacket : Int32 := 17

/-! ## The calls -/

/-- Source: `libktsn.c` `kt_socket_find`. -/
def ktSocketFind (l : List KtSocket) (fd : Int32) : Option KtSocket := lookupKey KtSocket.fd fd l

/-- Source: `libktsn.c` `socket`, where libc answers `fd`. The value returned is `none` where the
function ends without a `return`. -/
def socket (l : List KtSocket) (domain fd : Int32) : Option Int32 × List KtSocket :=
  if fd < 0 then (some fd, l)
  else
    match ktSocketFind l fd with
    | some _ => (none, l)
    | none => (none, ⟨fd, -1, 0, domain⟩ :: l)

/-- Source: `libktsn.c` `setsockopt`, where libc answers `answer` if it is asked. `optval` is the
`int` that the argument points at, or `none` for `NULL`, which only `SO_PRIORITY` reads (and does
not survive); `junk` is what the memory of a new node holds in place of the domain. -/
def setsockopt (l : List KtSocket) (fd level optname : Int32) (optval : Option Int32)
    (junk answer : Int32) : Option (Int32 × List KtSocket) :=
  if level = solSocket then
    if optname = soTxtime then
      match ktSocketFind l fd with
      | none => some (0, ⟨fd, -1, 1, junk⟩ :: l)
      | some _ => some (0, modifyKey KtSocket.fd fd (fun node => { node with txtime := 1 }) l)
    else if optname = soPriority then do
      let prio ← optval
      match ktSocketFind l fd with
      | none => some (0, ⟨fd, prio, 0, junk⟩ :: l)
      | some _ => some (0, modifyKey KtSocket.fd fd (fun node => { node with prio := prio }) l)
    else some (answer, l)
  else some (answer, l)

/-- Source: `libktsn.c` `close`, where libc answers `answer`. -/
def close (l : List KtSocket) (fd answer : Int32) : Int32 × List KtSocket :=
  match ktSocketFind l fd with
  | some _ => (answer, removeKey KtSocket.fd fd l)
  | none => (answer, l)

/-! ## Runs -/

/-- What has been done with a descriptor since `socket` opened it. -/
structure Opened where
  /-- The domain passed to `socket`. -/
  domain : Int32
  /-- Whether `SO_TXTIME` was set. -/
  txtime : Bool
  /-- The last `SO_PRIORITY` that was set. -/
  prio : Option Int32
  deriving DecidableEq, Repr

/-- The effect of a `setsockopt`. -/
def Opened.set (o : Opened) (level optname : Int32) (optval : Option Int32) : Opened :=
  if level = solSocket ∧ optname = soTxtime then { o with txtime := true }
  else if level = solSocket ∧ optname = soPriority then { o with prio := optval }
  else o

/-- The list of the library, and the descriptors that are open through `socket`. -/
structure Table where
  sockets : List KtSocket
  opened : Int32 → Option Opened

/-- The calls of a program, with what libc answers. -/
inductive Call where
  | socket (domain answer : Int32)
  | setsockopt (fd level optname : Int32) (optval : Option Int32) (junk answer : Int32)
  | close (fd answer : Int32)
  deriving DecidableEq, Repr

/-- One call. The kernel answers a `socket` with a negative number or with a descriptor that is not
open, and `close` closes. -/
def tableStep (s : Table) : Call → Option Table
  | .socket domain fd =>
      if fd < 0 then some { s with sockets := (socket s.sockets domain fd).2 }
      else if (s.opened fd).isSome then none
      else some
        { sockets := (socket s.sockets domain fd).2
          opened := Function.update s.opened fd (some ⟨domain, false, none⟩) }
  | .setsockopt fd level optname optval junk answer => do
      let (_, sockets) ← setsockopt s.sockets fd level optname optval junk answer
      some
        { sockets := sockets
          opened := Function.update s.opened fd
            ((s.opened fd).map fun o => o.set level optname optval) }
  | .close fd answer => some
      { sockets := (close s.sockets fd answer).2
        opened := Function.update s.opened fd none }

/-- Before the first call. -/
def Table.start : Table := ⟨[], fun _ => none⟩

/-- The node says what has been done with its descriptor. -/
structure KtSocket.Reflects (node : KtSocket) (o : Opened) : Prop where
  domain : node.domain = o.domain
  txtime : node.txtime = 1 ↔ o.txtime = true
  prio : node.prio = o.prio.getD (-1)

instance (node : KtSocket) (o : Opened) : Decidable (node.Reflects o) :=
  decidable_of_iff
    (node.domain = o.domain ∧ (node.txtime = 1 ↔ o.txtime = true) ∧ node.prio = o.prio.getD (-1))
    ⟨fun h => ⟨h.1, h.2.1, h.2.2⟩, fun h => ⟨h.domain, h.txtime, h.prio⟩⟩

/-- The list mirrors the sockets: at most one node for a descriptor, and one that says what has been
done with it for every descriptor that is open. -/
structure Mirrors (s : Table) : Prop where
  unique : UniqueKeys KtSocket.fd s.sockets
  reflects : ∀ fd o, s.opened fd = some o → ∃ node ∈ s.sockets, node.fd = fd ∧ node.Reflects o

/-- A `socket` that succeeds finds no node for the new descriptor, or one that looks like a new one. -/
def OpensClean (s : Table) : Call → Prop
  | .socket domain fd =>
      0 ≤ fd → ∀ node, ktSocketFind s.sockets fd = some node → node.Reflects ⟨domain, false, none⟩
  | _ => True

instance (s : Table) : (call : Call) → Decidable (OpensClean s call)
  | .socket domain fd => decidable_of_iff
      (0 ≤ fd → ∀ node ∈ ktSocketFind s.sockets fd, node.Reflects ⟨domain, false, none⟩) Iff.rfl
  | .setsockopt .. => isTrue trivial
  | .close .. => isTrue trivial

/-! ## One call -/

variable {s s' : Table} {l l' : List KtSocket} {fd : Int32}

/-- The list `l'` is `l` with the nodes for one descriptor changed. -/
structure Changes (l l' : List KtSocket) (fd : Int32) : Prop where
  unique : UniqueKeys KtSocket.fd l → UniqueKeys KtSocket.fd l'
  frame : ∀ fd' ≠ fd, ktSocketFind l' fd' = ktSocketFind l fd'

theorem Changes.refl (l : List KtSocket) (fd : Int32) : Changes l l fd := ⟨id, fun _ _ => rfl⟩

/-- A node is inserted where there was none. -/
theorem Changes.insert (node : KtSocket) (h : ktSocketFind l node.fd = none) :
    Changes l (node :: l) node.fd :=
  ⟨fun hl => hl.cons h, fun _ hne => lookupKey_cons_of_ne hne.symm⟩

/-- A node is changed in place. -/
theorem Changes.modify {f : KtSocket → KtSocket} (hf : ∀ node, (f node).fd = node.fd) :
    Changes l (modifyKey KtSocket.fd fd f l) fd :=
  ⟨fun hl => hl.modifyKey hf, fun _ hne => lookupKey_modifyKey_of_ne hf hne.symm⟩

/-- A node is removed. -/
theorem Changes.remove : Changes l (removeKey KtSocket.fd fd l) fd :=
  ⟨fun hl => hl.removeKey, fun _ hne => lookupKey_removeKey_of_ne hne.symm⟩

theorem socket_changes (l : List KtSocket) (domain fd : Int32) :
    Changes l (socket l domain fd).2 fd := by
  unfold socket
  split_ifs
  · exact .refl l fd
  · cases hfind : ktSocketFind l fd with
    | some node => exact .refl l fd
    | none => exact .insert ⟨fd, -1, 0, domain⟩ hfind

theorem setsockopt_changes {level optname : Int32} {optval : Option Int32} {junk answer ret : Int32}
    (h : setsockopt l fd level optname optval junk answer = some (ret, l')) : Changes l l' fd := by
  unfold setsockopt at h
  split_ifs at h
  · cases hfind : ktSocketFind l fd with
    | none =>
        rw [hfind] at h
        cases h
        exact .insert ⟨fd, -1, 1, junk⟩ hfind
    | some node =>
        rw [hfind] at h
        cases h
        exact .modify fun _ => rfl
  · obtain ⟨prio, rfl, h⟩ := Option.bind_eq_some_iff.mp h
    cases hfind : ktSocketFind l fd with
    | none =>
        rw [hfind] at h
        cases h
        exact .insert ⟨fd, prio, 0, junk⟩ hfind
    | some node =>
        rw [hfind] at h
        cases h
        exact .modify fun _ => rfl
  · cases h
    exact .refl l fd
  · cases h
    exact .refl l fd

theorem close_changes (l : List KtSocket) (fd answer : Int32) :
    Changes l (close l fd answer).2 fd := by
  unfold close
  cases ktSocketFind l fd with
  | some node => exact .remove
  | none => exact .refl l fd

/-- The search for a node that was changed in place. -/
theorem ktSocketFind_modify (f : KtSocket → KtSocket) (hf : ∀ node, (f node).fd = node.fd)
    {node : KtSocket} (hfind : ktSocketFind l fd = some node) :
    ktSocketFind (modifyKey KtSocket.fd fd f l) fd = some (f node) := by
  unfold ktSocketFind at hfind ⊢
  rw [lookupKey_modifyKey_self hf, hfind, Option.map_some]

/-- **An option is recorded**: after a `setsockopt` on a descriptor that the list reflects, it still
does. -/
theorem setsockopt_reflects {level optname : Int32} {optval : Option Int32} {junk answer ret : Int32}
    {node : KtSocket} {o : Opened}
    (h : setsockopt l fd level optname optval junk answer = some (ret, l'))
    (hfind : ktSocketFind l fd = some node) (hnode : node.Reflects o) :
    ∃ node', ktSocketFind l' fd = some node' ∧ node'.Reflects (o.set level optname optval) := by
  unfold setsockopt at h
  split_ifs at h with hlevel htxtime hprio
  · rw [hfind] at h
    cases h
    refine ⟨_, ktSocketFind_modify (fun node => { node with txtime := 1 }) (fun _ => rfl) hfind, ?_⟩
    rw [Opened.set, if_pos ⟨hlevel, htxtime⟩]
    exact ⟨hnode.domain, by simp, hnode.prio⟩
  · obtain ⟨prio, rfl, h⟩ := Option.bind_eq_some_iff.mp h
    rw [hfind] at h
    cases h
    refine ⟨_, ktSocketFind_modify (fun node => { node with prio := prio }) (fun _ => rfl) hfind, ?_⟩
    rw [Opened.set, if_neg fun hboth => htxtime hboth.2, if_pos ⟨hlevel, hprio⟩]
    exact ⟨hnode.domain, hnode.txtime, rfl⟩
  · cases h
    rw [Opened.set, if_neg fun hboth => htxtime hboth.2, if_neg fun hboth => hprio hboth.2]
    exact ⟨node, hfind, hnode⟩
  · cases h
    rw [Opened.set, if_neg fun hboth => hlevel hboth.1, if_neg fun hboth => hlevel hboth.1]
    exact ⟨node, hfind, hnode⟩

/-- The node of an open descriptor is the one that the search finds. -/
theorem exists_mem_iff_find (hl : UniqueKeys KtSocket.fd l) {o : Opened} :
    (∃ node ∈ l, node.fd = fd ∧ node.Reflects o) ↔
      ∃ node, ktSocketFind l fd = some node ∧ node.Reflects o := by
  constructor
  · rintro ⟨node, hmem, rfl, hnode⟩
    exact ⟨node, (mem_iff_lookupKey hl).mp hmem, hnode⟩
  · rintro ⟨node, hfind, hnode⟩
    have hfd : node.fd = fd := key_of_lookupKey hfind
    subst hfd
    exact ⟨node, (mem_iff_lookupKey hl).mpr hfind, rfl, hnode⟩

/-- What it takes to stay in step when the nodes and the use of one descriptor change. -/
theorem mirrors_update_iff (h : Mirrors s) (hl : Changes s.sockets l fd) (use : Option Opened) :
    Mirrors ⟨l, Function.update s.opened fd use⟩ ↔
      ∀ o, use = some o → ∃ node, ktSocketFind l fd = some node ∧ node.Reflects o := by
  have hunique := hl.unique h.unique
  constructor
  · intro hmirrors o ho
    refine (exists_mem_iff_find hunique).mp (hmirrors.reflects fd o ?_)
    rw [← ho]
    exact Function.update_self fd use s.opened
  · refine fun hfd => ⟨hunique, fun fd' o ho => (exists_mem_iff_find hunique).mpr ?_⟩
    by_cases hne : fd' = fd
    · subst hne
      exact hfd o ((Function.update_self fd' use s.opened).symm.trans ho)
    · rw [hl.frame fd' hne]
      have hold := h.reflects fd' o ((Function.update_of_ne hne use s.opened).symm.trans ho)
      exact (exists_mem_iff_find h.unique).mp hold

/-- **When a call keeps the list in step**: always, unless it is a `socket` that finds an old node. -/
theorem mirrors_step_iff (s : Table) (call : Call) (s' : Table) (h : Mirrors s)
    (hstep : tableStep s call = some s') : Mirrors s' ↔ OpensClean s call := by
  cases call with
  | socket domain fd =>
      simp only [tableStep] at hstep
      split_ifs at hstep with hneg hopen
      · cases hstep
        have hsame : (socket s.sockets domain fd).2 = s.sockets := by
          unfold socket
          rw [if_pos hneg]
        rw [hsame]
        exact iff_of_true h fun hle => absurd hneg (Int32.not_lt.mpr hle)
      · cases hstep
        rw [mirrors_update_iff h (socket_changes _ _ _)]
        unfold socket OpensClean
        rw [if_neg hneg]
        cases hfind : ktSocketFind s.sockets fd with
        | none =>
            refine iff_of_true ?_ fun _ node hnode => absurd (hfind.symm.trans hnode) (by simp)
            rintro o ⟨⟩
            refine ⟨⟨fd, -1, 0, domain⟩, ?_, rfl, ?_, rfl⟩
            · exact lookupKey_cons_self
            · simp
        | some node =>
            simp [hfind, Int32.not_lt.mp hneg]
  | setsockopt fd level optname optval junk answer =>
      simp only [tableStep, Option.bind_eq_bind, Option.bind_eq_some_iff] at hstep
      obtain ⟨⟨ret, l⟩, hcall, hstep⟩ := hstep
      cases hstep
      refine iff_of_true ((mirrors_update_iff h (setsockopt_changes hcall) _).mpr ?_) trivial
      intro o ho
      obtain ⟨o₀, ho₀, rfl⟩ := Option.map_eq_some_iff.mp ho
      obtain ⟨node, hfind, hnode⟩ := (exists_mem_iff_find h.unique).mp (h.reflects fd o₀ ho₀)
      exact setsockopt_reflects hcall hfind hnode
  | close fd answer =>
      simp only [tableStep] at hstep
      cases hstep
      refine iff_of_true ((mirrors_update_iff h (close_changes _ _ _) _).mpr ?_) trivial
      rintro o ⟨⟩

/-! ## Whole runs -/

/-- **When the socket table mirrors the kernel's sockets.** For every sequence of calls on any
descriptors: the list mirrors the open sockets in every state on the way if and only if every
`socket` that succeeded found no node for its descriptor, or one that looks like a new one. -/
theorem socket_table_mirrors_iff {tr : List (Table × Call)} (hrun : Run tableStep .start tr s) :
    (∀ tr' t, tr' <+: tr → Run tableStep .start tr' t → Mirrors t) ↔
      ∀ p ∈ tr, OpensClean p.1 p.2 := by
  refine hrun.throughout_iff ⟨List.nodup_nil, ?_⟩ mirrors_step_iff
  rintro fd o ⟨⟩

/-- A program opens a socket, sets both options, closes it and opens the next one under the same
descriptor. -/
theorem socket_table_mirrors_iff_reuse :
    ∃ tr s, Run tableStep .start tr s ∧
      tr.map Prod.snd = [.socket afInet 3, .setsockopt 3 solSocket soTxtime none 0 0,
        .setsockopt 3 solSocket soPriority (some 6) 0 0, .close 3 0, .socket pfPacket 3] ∧
      s.sockets = [⟨3, -1, 0, pfPacket⟩] ∧ Mirrors s := by
  have hexec : (exec (fun s call => if decide (OpensClean s call) then tableStep s call else none)
      .start [.socket afInet 3, .setsockopt 3 solSocket soTxtime none 0 0,
        .setsockopt 3 solSocket soPriority (some 6) 0 0, .close 3 0, .socket pfPacket 3]).map
        Table.sockets = some [⟨3, -1, 0, pfPacket⟩] := by
    decide
  obtain ⟨s, hs, hsockets⟩ := Option.map_eq_some_iff.mp hexec
  obtain ⟨tr, hguarded, hcalls⟩ := Run.of_exec hs
  obtain ⟨hrun, hclean⟩ := hguarded.of_guarded
  have hall := (socket_table_mirrors_iff hrun).mpr fun p hp => of_decide_eq_true (hclean p hp)
  exact ⟨tr, s, hrun, hcalls, hsockets, hall tr s List.prefix_rfl hrun⟩

/-- `setsockopt` on a descriptor that is not open leaves a node behind, and the socket that is
opened under this descriptor next keeps it: with `SO_TXTIME` set, and with the domain that the
memory of the node happened to hold. -/
theorem stale_node_survives :
    ∃ tr s, Run tableStep .start tr s ∧
      tr.map Prod.snd = [.setsockopt 5 solSocket soTxtime none 0 0, .socket afInet 5] ∧
      s.sockets = [⟨5, -1, 1, 0⟩] ∧ s.opened 5 = some ⟨afInet, false, none⟩ ∧ ¬ Mirrors s := by
  have hexec : (exec tableStep .start
      [.setsockopt 5 solSocket soTxtime none 0 0, .socket afInet 5]).map
        (fun s => (s.sockets, s.opened 5)) = some ([⟨5, -1, 1, 0⟩], some ⟨afInet, false, none⟩) := by
    decide
  obtain ⟨s, hs, hvalues⟩ := Option.map_eq_some_iff.mp hexec
  simp only [Prod.mk.injEq] at hvalues
  obtain ⟨hsockets, hopened⟩ := hvalues
  obtain ⟨tr, hrun, hcalls⟩ := Run.of_exec hs
  refine ⟨tr, s, hrun, hcalls, hsockets, hopened, fun hmirrors => ?_⟩
  obtain ⟨node, hmem, -, hnode⟩ := hmirrors.reflects 5 _ hopened
  rw [hsockets, List.mem_singleton] at hmem
  subst hmem
  exact absurd hnode.domain (by decide)

end KuberneTSN.Preload
