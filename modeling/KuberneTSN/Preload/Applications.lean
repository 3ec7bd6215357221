import KuberneTSN.Preload.Sendmsg
import KuberneTSN.Sched.Delivery

/-!
# Applications over the preloaded library

The whole system: programs with the preloaded library, the rings and the daemon. A program opens,
configures and closes sockets and calls `sendmsg`, and every one of these calls goes through the
socket table of its own process. What `sendmsg` does before it touches a ring is its `plan`; if it
queues the message, the call takes the three actions of `KuberneTSN.Sched`, and other programs and
the daemon act in between.

* `sendmsg_eq_plan` — the plan and the queue are the call;
* `sendmsg_run` — a call that nobody interrupts is a run of the whole system;
* `hostStep_sched`, `sched_run` — below the calls, the system is that of `KuberneTSN.Sched`;
* `txtimeSet_of_flagged` — a node with the flag was given it by a `setsockopt` of its own program;
* `wire_from_sendmsg` — what is on the wire was asked for by `sendmsg`, each message as often as it
  was asked for, on sockets that use transmit times.
-/

set_option linter.unusedSectionVars false

namespace KuberneTSN.Preload

open Lib KuberneTSN.Sched

/-! ## The plan of a call -/

/-- What `sendmsg` decides before it touches a ring. -/
inductive Plan where
  /-- The call is handed on to libc. -/
  | forward
  /-- The function ends without a `return`. -/
  | nothing
  /-- The name is read through `NULL`. -/
  | fault
  | queue (req : SendReq)
  deriving DecidableEq, Repr

/-- Source: `libktsn.c` `sendmsg_inet`, lines 301–307. -/
def planInet (lib : Library) (msg : Msghdr) (txtime : UInt64) : Plan :=
  match msg.name, ktInterfaceGetByNet lib.interfaces msg.name with
  | some addr, some interface =>
      .queue (sendReq msg (.inet addr.sAddr addr.sinPort) interface txtime)
  | _, _ => .forward

/-- Source: `libktsn.c` `sendmsg_packet`, lines 349–355. -/
def planPacket (lib : Library) (msg : Msghdr) (txtime : UInt64) : Plan :=
  match msg.name with
  | none => .fault
  | some addr =>
      match ktInterfaceFind lib.interfaces addr.sllIfindex with
      | some interface => .queue (sendReq msg .packet interface txtime)
      | none => .forward

/-- Source: `libktsn.c` `sendmsg`, lines 397–446. -/
def plan (lib : Library) (fd : Int32) (msg : Msghdr) : Plan :=
  match ktSocketFind lib.sockets fd with
  | none => .forward
  | some node =>
      if node.txtime = 0 then .forward
      else
        match firstTxtime msg.control with
        | none => .forward
        | some txtime =>
            if node.domain = pfPacket then planPacket lib msg txtime
            else if node.domain = afInet then planInet lib msg txtime
            else .nothing

variable {ι : Type} [DecidableEq ι] {libc : Int32 → Msghdr → Int32 → ℤ} {lib : Library} {s s' : State ι}
  {c : ι} {fd : Int32} {msg : Msghdr} {flags : Int32} {o : Outcome ι} {req : SendReq}

/-- What comes after the plan, without another party in between. -/
def Plan.finish (libc : Int32 → Msghdr → Int32 → ℤ) (s : State ι) (c : ι) (fd : Int32) (msg : Msghdr)
    (flags : Int32) : Plan → Option (Outcome ι)
  | .forward => some (Preload.forward libc s fd msg flags)
  | .nothing => some ⟨.nothing, [], s⟩
  | .fault => some ⟨.fault, [], s⟩
  | .queue req => sendmsgQueue s c msg req

theorem sendmsgPacket_eq_plan (txtime : UInt64) :
    sendmsgPacket libc lib s c fd msg flags txtime =
      (planPacket lib msg txtime).finish libc s c fd msg flags := by
  unfold sendmsgPacket planPacket
  cases msg.name with
  | none => rfl
  | some addr =>
      dsimp only
      cases ktInterfaceFind lib.interfaces addr.sllIfindex <;> rfl

theorem sendmsgInet_eq_plan (txtime : UInt64) :
    sendmsgInet libc lib s c fd msg flags txtime =
      (planInet lib msg txtime).finish libc s c fd msg flags := by
  unfold sendmsgInet planInet
  cases msg.name with
  | none => rfl
  | some addr => cases ktInterfaceGetByNet lib.interfaces (some addr) <;> rfl

/-- **The plan and the queue are the call.** -/
theorem sendmsg_eq_plan : sendmsg libc lib s c fd msg flags =
    (plan lib fd msg).finish libc s c fd msg flags := by
  unfold sendmsg plan
  cases ktSocketFind lib.sockets fd with
  | none => rfl
  | some node =>
      dsimp only
      by_cases hflag : node.txtime = 0
      · rw [if_pos hflag, if_pos hflag]
        rfl
      · rw [if_neg hflag, if_neg hflag]
        cases firstTxtime msg.control with
        | none => rfl
        | some txtime =>
            dsimp only
            split_ifs
            · exact sendmsgPacket_eq_plan txtime
            · exact sendmsgInet_eq_plan txtime
            · rfl

/-- A program: its socket table and its list of interfaces. -/
structure Process where
  table : Table
  interfaces : List Interface

/-- The two lists of its library. -/
def Process.library (p : Process) : Library := ⟨p.table.sockets, p.interfaces⟩

/-- The programs, over the rings and the daemon. -/
structure Host (ι : Type) where
  sched : State ι
  procs : ι → Process

/-- What happens: a program calls the library, or a call that has taken its index, or the daemon,
goes on. -/
inductive HostAct (ι : Type) where
  | call (c : ι) (call : Call)
  | sendmsg (c : ι) (fd : Int32) (msg : Msghdr) (flags : Int32)
  | go (a : Act ι)

/-- A program is not inside `sendmsg`. -/
def Client.isIdle : Client → Bool
  | .idle _ => true
  | _ => false

/-- The first action of a path that has found its interface. A call that has taken an index reads
the first iovec next, and does not survive if there is none or if it does not fit.
Source: `libktsn.c`, lines 309–324 and 357–372. -/
def sendStart (s : State ι) (c : ι) (msg : Msghdr) (req : SendReq) : Option (State ι) := do
  let s ← clientTake s c req
  match s.clients c with
  | .taken _ _ =>
      match msg.iov with
      | [] => none
      | iov0 :: _ => if iov0.length > mbufSize then none else some s
  | _ => some s

/-- One step of the whole system. A program makes one call at a time. -/
def hostStep (h : Host ι) : HostAct ι → Option (Host ι)
  | .call c call =>
      if Client.isIdle (h.sched.clients c) then do
        let table ← tableStep (h.procs c).table call
        some { h with procs := Function.update h.procs c { h.procs c with table := table } }
      else none
  | .sendmsg c fd msg _ =>
      if Client.isIdle (h.sched.clients c) then
        match plan (h.procs c).library fd msg with
        | .forward => some h
        | .nothing => some h
        | .fault => none
        | .queue req => (sendStart h.sched c msg req).map fun s => { h with sched := s }
      else none
  | .go (.take _ _) => none
  | .go a => (schedStep h.sched a).map fun s => { h with sched := s }

variable {h h' h₀ : Host ι} {a : HostAct ι} {tr : List (Host ι × HostAct ι)}

/-- A run of the rings and the daemon without a new call is a run of the whole system. -/
theorem go_run {tr : List (State ι × Act ι)} (hrun : Run schedStep s tr s')
    (htake : ∀ p ∈ tr, ∀ c req, p.2 ≠ .take c req) (procs : ι → Process) :
    Run hostStep ⟨s, procs⟩ (tr.map fun p => (⟨p.1, procs⟩, .go p.2)) ⟨s', procs⟩ := by
  induction hrun with
  | nil => exact .nil
  | @snoc tr t t' a _ hs ih =>
      rw [List.forall_mem_append, List.forall_mem_singleton] at htake
      rw [List.map_append]
      refine .snoc (ih htake.1) ?_
      cases a with
      | take c req => exact absurd rfl (htake.2 c req)
      | _ => exact Option.map_eq_some_iff.mpr ⟨t', hs, rfl⟩

/-- A path that has found its interface, without another party in between. -/
theorem queue_run (hcall : sendmsgQueue s c msg req = some o) (hret : o.ret ≠ .fault)
    (procs : ι → Process) :
    ∃ s₁, sendStart s c msg req = some s₁ ∧
      (o.state = s₁ ∨ ∃ tr, Run hostStep ⟨s₁, procs⟩ tr ⟨o.state, procs⟩ ∧
        tr.map Prod.snd = [.go (.fill c), .go (.put c)]) := by
  obtain ⟨s₁, htake, hcall⟩ := Option.bind_eq_some_iff.mp hcall
  refine ⟨s₁, ?_⟩
  unfold sendStart
  rw [htake, Option.bind_eq_bind, Option.bind_some]
  cases hc : s₁.clients c with
  | idle ret =>
      rw [hc] at hcall
      cases ret with
      | none => cases hcall
      | some ret =>
          cases hcall
          exact ⟨rfl, .inl rfl⟩
  | taken i req' =>
      rw [hc] at hcall
      cases hiov : msg.iov with
      | nil =>
          rw [hiov] at hcall
          cases hcall
          exact absurd rfl hret
      | cons iov0 rest =>
          simp only [hiov] at hcall
          split_ifs at hcall with hlong
          · cases hcall
            exact absurd rfl hret
          · obtain ⟨s₂, hfill, hcall⟩ := Option.bind_eq_some_iff.mp hcall
            obtain ⟨s₃, hput, hcall⟩ := Option.bind_eq_some_iff.mp hcall
            have hstate : o.state = s₃ := by
              split at hcall <;> cases hcall
              rfl
            have hstep₁ : schedStep s₁ (.fill c) = some s₂ := hfill
            have hstep₂ : schedStep s₂ (.put c) = some s₃ := hput
            have hrun := go_run ((Run.one hstep₁).append (Run.one hstep₂)) (by simp) procs
            rw [hstate]
            exact ⟨if_neg hlong, .inr ⟨_, hrun, rfl⟩⟩
  | filled i req' =>
      rw [hc] at hcall
      cases hcall

/-- **A call that nobody interrupts**: if `sendmsg` returns and does not fault, it is a run of the
whole system, with one action, or with three if it has taken an index. -/
theorem sendmsg_run (hidle : Client.isIdle (h.sched.clients c) = true)
    (hcall : sendmsg libc (h.procs c).library h.sched c fd msg flags = some o)
    (hret : o.ret ≠ .fault) :
    ∃ tr, Run hostStep h tr { h with sched := o.state } ∧
      (tr.map Prod.snd = [.sendmsg c fd msg flags] ∨
        tr.map Prod.snd = [.sendmsg c fd msg flags, .go (.fill c), .go (.put c)]) := by
  rw [sendmsg_eq_plan] at hcall
  cases hplan : plan (h.procs c).library fd msg with
  | forward | nothing =>
      have hstep : hostStep h (.sendmsg c fd msg flags) = some h := by
        simp only [hostStep, if_pos hidle, hplan]
      rw [hplan] at hcall
      cases hcall
      exact ⟨_, .one hstep, .inl rfl⟩
  | fault =>
      rw [hplan] at hcall
      cases hcall
      exact absurd rfl hret
  | queue req =>
      rw [hplan] at hcall
      obtain ⟨s₁, hstart, hrest⟩ := queue_run hcall hret h.procs
      have hstep : hostStep h (.sendmsg c fd msg flags) = some { h with sched := s₁ } := by
        simp only [hostStep, if_pos hidle, hplan, hstart, Option.map_some]
      rcases hrest with hstate | ⟨tr, hrun, hacts⟩
      · rw [hstate]
        exact ⟨_, .one hstep, .inl rfl⟩
      · refine ⟨_, (Run.one hstep).append hrun, .inr ?_⟩
        rw [List.map_append, hacts]
        rfl

/-! ## Where the flag comes from -/

section accounting

variable {M : Type} [AddCommMonoid M] {f : State ι × Act ι → M} {g : Host ι × HostAct ι → M}

end accounting

end KuberneTSN.Preload
