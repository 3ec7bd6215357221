import KuberneTSN.Preload.Sockets
import KuberneTSN.Ring.Contents
import KuberneTSN.Sched.Basic

/-!
# The `sendmsg` of `libktsn.c`

The preloaded `sendmsg` looks its socket up, searches the control messages for a transmit time, and
then, by the domain of the socket, takes the path of `sendmsg_inet` or of `sendmsg_packet`: it
looks for the interface and puts the packet on the tx ring with the three actions of
`KuberneTSN.Sched`, here without another party in between. At many places it hands the call on to
libc instead.

A call has an `Outcome`: what it returned, if anything, the calls of libc that it made, and the
state it left. There are three ways in which it should end (`Fate`).

* `sendmsgQueue_spec` — what a path does once it has found its interface;
* `fate_unique` — the three fates exclude each other;
* `preload_transparent_iff` — `socket` returns the answer of libc exactly when that is an error; and
  `sendmsg` meets exactly one fate, and the one of a call that it does not schedule where it should,
  exactly when it is `Harmless`;
* `unusual_calls_undefined` — calls that return nothing.
-/

namespace KuberneTSN.Preload

open KuberneTSN.Ring KuberneTSN.Sched

/-! ## Messages and interfaces -/

/-- Source: `libktsn.c` `struct kt_interface`, without its name; addresses in network byte order. -/
structure Interface extends KtInterface where
  ifindex : Int32
  netmask : UInt32
  deriving DecidableEq, Repr

/-- What `msg_name` points at, as far as it is read: bytes 2–3 and bytes 4–7. -/
structure SockAddr where
  half : UInt16
  word : UInt32
  deriving DecidableEq, Repr

/-- `sin_port` of a `struct sockaddr_in`. -/
def SockAddr.sinPort (a : SockAddr) : UInt16 := a.half

/-- `sin_addr.s_addr` of a `struct sockaddr_in`. -/
def SockAddr.sAddr (a : SockAddr) : UInt32 := a.word

/-- `sll_ifindex` of a `struct sockaddr_ll`. -/
def SockAddr.sllIfindex (a : SockAddr) : Int32 := a.word.toInt32

/-- A control message, with the eight bytes at `CMSG_DATA`. -/
structure Cmsg where
  level : Int32
  type : Int32
  data : UInt64
  deriving DecidableEq, Repr

/-- `struct msghdr`: the name, or `none` for `NULL`, the iovecs, and the control messages in the
order of `CMSG_FIRSTHDR` and `CMSG_NXTHDR`. -/
structure Msghdr where
  name : Option SockAddr
  iov : List (List UInt8)
  control : List Cmsg
  deriving DecidableEq, Repr

/-- Source: `libktsn.c` `is_same_subnetwork`. -/
def isSameSubnetwork (addr1 addr2 subnetMask : UInt32) : Bool :=
  addr1 &&& subnetMask = addr2 &&& subnetMask

/-- Source: `libktsn.c` `kt_interface_get_by_net`. -/
def ktInterfaceGetByNet (interfaces : List Interface) (addr : Option SockAddr) : Option Interface := do
  let addr ← addr
  interfaces.find? fun interface => isSameSubnetwork interface.addr addr.sAddr interface.netmask

/-- Source: `libktsn.c` `kt_interface_find`. -/
def ktInterfaceFind (interfaces : List Interface) (ifindex : Int32) : Option Interface :=
  interfaces.find? fun interface => interface.ifindex = ifindex

/-- The transmit time of the first `SCM_TXTIME` message. Source: `libktsn.c` `sendmsg`,
lines 414–426. -/
def firstTxtime (control : List Cmsg) : Option UInt64 :=
  (control.find? fun cmsg => cmsg.level = solSocket ∧ cmsg.type = soTxtime).map Cmsg.data

/-! ## The call -/

/-- How a call ends. -/
inductive Ret where
  | value (v : ℤ)
  /-- The function ends without a `return`. -/
  | nothing
  /-- A read through `NULL` or behind an array, or a copy behind a buffer. -/
  | fault
  deriving DecidableEq, Repr

/-- What a call of `sendmsg` does. -/
structure Outcome (ι : Type) where
  ret : Ret
  /-- The calls of libc's `sendmsg`. -/
  forwarded : List (Int32 × Msghdr × Int32)
  state : State ι

/-- The two lists of the library. -/
structure Library where
  sockets : List KtSocket
  interfaces : List Interface

/-- `sizeof(mbuf->data)`. -/
def mbufSize : ℕ := 2048

section call

variable {ι : Type} [DecidableEq ι] (libc : Int32 → Msghdr → Int32 → ℤ) (lib : Library) (s : State ι)
  (c : ι) (fd : Int32) (msg : Msghdr) (flags : Int32)

/-- `return default_sendmsg(sockfd, msg, flags)`. -/
def forward : Outcome ι := ⟨.value (libc fd msg flags), [(fd, msg, flags)], s⟩

/-- The part that the two paths share: an index from the free ring, the copy of `msg_iov[0]`, and
the index to the tx ring. `none` if a ring never returns.

To copy more than `sizeof(mbuf->data)` bytes is undefined in C. Here, where the question is what the
caller gets, such a call is a fault; `clientFill` alone makes the copy all the same, so that one can
ask what it does to the buffers of others (`send_isolated_iff`). On messages that fit the two agree.
Source: `libktsn.c`, lines 309–344 and 357–389. -/
def sendmsgQueue (req : SendReq) : Option (Outcome ι) := do
  let s ← clientTake s c req
  match s.clients c with
  | .idle (some ret) => some ⟨.value ret, [], s⟩
  | .taken _ _ =>
      match msg.iov with
      | [] => some ⟨.fault, [], s⟩
      | iov0 :: _ =>
          if iov0.length > mbufSize then some ⟨.fault, [], s⟩
          else do
            let s ← clientFill s c
            let s ← clientPut s c
            match s.clients c with
            | .idle (some ret) => some ⟨.value ret, [], s⟩
            | _ => none
  | _ => none

/-- The request of a path; `iov0` is read only after the list of iovecs was found not to be empty. -/
def sendReq (path : SendPath) (interface : Interface) (txtime : UInt64) : SendReq :=
  ⟨path, interface.toKtInterface, msg.iov.headD [], txtime⟩

/-- Source: `libktsn.c` `sendmsg_inet`. -/
def sendmsgInet (txtime : UInt64) : Option (Outcome ι) :=
  match msg.name, ktInterfaceGetByNet lib.interfaces msg.name with
  | some addr, some interface =>
      sendmsgQueue s c msg (sendReq msg (.inet addr.sAddr addr.sinPort) interface txtime)
  | _, _ => some (forward libc s fd msg flags)

/-- Source: `libktsn.c` `sendmsg_packet`, which reads `sll_ifindex` before it tests anything. -/
def sendmsgPacket (txtime : UInt64) : Option (Outcome ι) :=
  match msg.name with
  | none => some ⟨.fault, [], s⟩
  | some addr =>
      match ktInterfaceFind lib.interfaces addr.sllIfindex with
      | some interface => sendmsgQueue s c msg (sendReq msg .packet interface txtime)
      | none => some (forward libc s fd msg flags)

/-- Source: `libktsn.c` `sendmsg`, called by client `c`. The `switch` over the domain has no
default. -/
def sendmsg : Option (Outcome ι) :=
  match ktSocketFind lib.sockets fd with
  | none => some (forward libc s fd msg flags)
  | some node =>
      if node.txtime = 0 then some (forward libc s fd msg flags)
      else
        match firstTxtime msg.control with
        | none => some (forward libc s fd msg flags)
        | some txtime =>
            if node.domain = pfPacket then sendmsgPacket libc lib s c fd msg flags txtime
            else if node.domain = afInet then sendmsgInet libc lib s c fd msg flags txtime
            else some ⟨.nothing, [], s⟩

/-! ## What it should do -/

/-- The interface that a message of a socket with this domain goes out on. -/
def matchingInterface (domain : Int32) : Option Interface :=
  if domain = pfPacket then msg.name.bind fun addr => ktInterfaceFind lib.interfaces addr.sllIfindex
  else if domain = afInet then ktInterfaceGetByNet lib.interfaces msg.name
  else none

/-- The library does not schedule this message. -/
def Unscheduled : Prop :=
  ktSocketFind lib.sockets fd = none ∨
    ∃ node, ktSocketFind lib.sockets fd = some node ∧
      (node.txtime = 0 ∨ firstTxtime msg.control = none ∨
        matchingInterface lib msg node.domain = none ∨
        (node.domain ≠ afInet ∧ node.domain ≠ pfPacket))

/-- The three ways in which a call should end. -/
inductive Fate where
  | queued
  | refused
  | forwarded
  deriving DecidableEq, Repr

/-- One packet was put on the tx ring, with the first transmit time, and its length returned; or a
negative number was returned, and nothing put there; or the call was handed on to libc, once and
unchanged, and its answer returned. -/
def Fate.Holds (o : Outcome ι) : Fate → Prop
  | .queued => o.forwarded = [] ∧ ∃ i iov0 txtime, msg.iov.head? = some iov0 ∧
      firstTxtime msg.control = some txtime ∧ o.ret = .value iov0.length ∧
      contents s.freeRing = i :: contents o.state.freeRing ∧
      contents o.state.txRing = contents s.txRing ++ [i] ∧
      (o.state.packet i).payload = iov0 ∧ (o.state.packet i).metadata.txtime = txtime
  | .refused => o.forwarded = [] ∧ (∃ v < 0, o.ret = .value v) ∧
      contents o.state.txRing = contents s.txRing
  | .forwarded => o.forwarded = [(fd, msg, flags)] ∧ o.ret = .value (libc fd msg flags) ∧ o.state = s

/-- A call is transparent: it returns, with exactly one of the three fates, and it is handed on if
the library does not schedule the message. -/
def Transparent : Prop :=
  ∃ o, sendmsg libc lib s c fd msg flags = some o ∧ (∃! f, Fate.Holds libc s fd msg flags o f) ∧
    (Unscheduled lib fd msg → Fate.Holds libc s fd msg flags o .forwarded)

/-- There is a first iovec, and it fits a buffer. -/
def FirstFits : Prop := ∃ iov0 rest, msg.iov = iov0 :: rest ∧ iov0.length ≤ mbufSize

/-- If the socket uses transmit times and the message carries one: the domain is `AF_INET`, or it
is `PF_PACKET` and there is a name; and if there is also an interface and a free buffer, the first
iovec is there and fits. -/
def Harmless : Prop :=
  ∀ node txtime, ktSocketFind lib.sockets fd = some node → node.txtime ≠ 0 →
    firstTxtime msg.control = some txtime →
      (node.domain = pfPacket ∧ msg.name.isSome ∨ node.domain = afInet) ∧
      ((matchingInterface lib msg node.domain).isSome → contents s.freeRing ≠ [] → FirstFits msg)

end call

/-! ## The fates -/

variable {ι : Type} [DecidableEq ι] {libc : Int32 → Msghdr → Int32 → ℤ} {lib : Library} {s : State ι}
  {c : ι} {fd : Int32} {msg : Msghdr} {flags : Int32} {o : Outcome ι}

omit [DecidableEq ι] in
/-- **A call meets at most one fate.** -/
theorem fate_unique {f g : Fate} (hf : Fate.Holds libc s fd msg flags o f)
    (hg : Fate.Holds libc s fd msg flags o g) : f = g := by
  have hsplit : ∀ f, Fate.Holds libc s fd msg flags o f →
      (o.forwarded = [] ↔ f ≠ .forwarded) ∧ ((∃ v < 0, o.ret = .value v) → f ≠ .queued) ∧
        (f = .refused → ∃ v < 0, o.ret = .value v) := by
    intro f h
    cases f with
    | queued =>
        obtain ⟨hnone, i, iov0, txtime, -, -, hret, -⟩ := h
        refine ⟨by simp [hnone], ?_, by simp⟩
        rintro ⟨v, hneg, hv⟩ -
        rw [hret, Ret.value.injEq] at hv
        omega
    | refused => exact ⟨by simp [h.1], by simp, fun _ => h.2.1⟩
    | forwarded => exact ⟨by simp [h.1], by simp, by simp⟩
  obtain ⟨hf₁, hf₂, hf₃⟩ := hsplit f hf
  obtain ⟨hg₁, hg₂, hg₃⟩ := hsplit g hg
  cases f <;> cases g <;> simp_all

omit [DecidableEq ι] in
/-- A call that returns nothing meets no fate. -/
theorem not_fate (h : ∀ v, o.ret ≠ .value v) (f : Fate) : ¬ Fate.Holds libc s fd msg flags o f := by
  cases f with
  | queued =>
      rintro ⟨-, i, iov0, txtime, -, -, hret, -⟩
      exact h _ hret
  | refused =>
      rintro ⟨-, ⟨v, -, hret⟩, -⟩
      exact h _ hret
  | forwarded =>
      rintro ⟨-, hret, -⟩
      exact h _ hret

/-- A call that is handed on is transparent. -/
theorem transparent_forward
    (h : sendmsg libc lib s c fd msg flags = some (forward libc s fd msg flags)) :
    Transparent libc lib s c fd msg flags := by
  have hfate : Fate.Holds libc s fd msg flags (forward libc s fd msg flags) .forwarded :=
    ⟨rfl, rfl, rfl⟩
  exact ⟨_, h, ⟨.forwarded, hfate, fun f hf => fate_unique hf hfate⟩, fun _ => hfate⟩

/-- A call that returns nothing is not transparent. -/
theorem not_transparent (h : sendmsg libc lib s c fd msg flags = some o)
    (hret : ∀ v, o.ret ≠ .value v) :
    ¬ Transparent libc lib s c fd msg flags := by
  rintro ⟨o', ho', ⟨f, hf, -⟩, -⟩
  rw [h] at ho'
  cases ho'
  exact not_fate hret f hf

/-! ## The paths -/

variable {k P C k' P' C' : ℕ} {ret : Option ℤ}

theorem not_firstFits_of_nil (h : msg.iov = []) : ¬ FirstFits msg := by
  rintro ⟨iov0, rest, heq, -⟩
  rw [h] at heq
  cases heq

theorem firstFits_iff_of_cons {iov0 : List UInt8} {rest : List (List UInt8)}
    (h : msg.iov = iov0 :: rest) : FirstFits msg ↔ iov0.length ≤ mbufSize := by
  simp [FirstFits, h]

/-- What the second and the third action do together: the packet goes to the tx ring, or that is
full. -/
theorem fill_put {i : UInt64} {req : SendReq} (htx : RingAt s.txRing k' P' C')
    (hc : s.clients c = .taken i req) (hlt : req.iov0.length < 2 ^ 64) :
    ∃ s₁ s₂, clientFill s c = some s₁ ∧ clientPut s₁ c = some s₂ ∧ s₂.freeRing = s.freeRing ∧
      ((s₂.clients c = .idle (some req.iov0.length) ∧
          contents s₂.txRing = contents s.txRing ++ [i] ∧
          s₂.packet i = ⟨req.iov0, req.metadata (s.metadataPool i.toNat)⟩) ∨
        (2 ^ k' - 1 ≤ (contents s.txRing).length ∧
          s₂.clients c = .idle (some enobufs) ∧ contents s₂.txRing = contents s.txRing)) := by
  simp only [clientFill, hc, Option.some.injEq, exists_and_left, exists_eq_left', clientPut,
    Function.update_self]
  by_cases hroom : (contents s.txRing).length < 2 ^ k' - 1
  · obtain ⟨r, hr, hn, happ⟩ := htx.enqueue_one hroom i
    simp only [hr, hn]
    refine ⟨_, rfl, rfl, .inl ⟨?_, happ.contents_eq, ?_⟩⟩
    · simp
    · exact packet_of_filled hlt rfl (Function.update_self ..)
  · obtain ⟨r, hr, hn, hrb⟩ := htx.enqueue_full (not_lt.mp hroom) i
    simp only [hr, hn]
    refine ⟨_, rfl, rfl, .inr ⟨not_lt.mp hroom, ?_, congrArg contents hrb⟩⟩
    simp

/-- How a path ends that has found its interface, with room for `2^k' - 1` indices on the tx ring. -/
inductive QueueEnd (k' : ℕ) (s : State ι) (msg : Msghdr) (txtime : UInt64) (o : Outcome ι) : Prop
  /-- No buffer is free, or the tx ring is full. -/
  | refused (hfull : contents s.freeRing = [] ∨ 2 ^ k' - 1 ≤ (contents s.txRing).length)
      (hfits : contents s.freeRing ≠ [] → FirstFits msg)
      (hret : o.ret = .value enobufs) (hnone : o.forwarded = [])
      (htx : contents o.state.txRing = contents s.txRing)
  /-- There is no first iovec, or it does not fit a buffer. -/
  | fault (hbuffer : contents s.freeRing ≠ []) (hnot : ¬ FirstFits msg) (hret : o.ret = .fault)
  /-- The first iovec was put on the tx ring. -/
  | queued {i : UInt64} {iov0 : List UInt8} {rest : List (List UInt8)}
      (hiov : msg.iov = iov0 :: rest) (hfits : iov0.length ≤ mbufSize)
      (hret : o.ret = .value iov0.length) (hnone : o.forwarded = [])
      (hfree : contents s.freeRing = i :: contents o.state.freeRing)
      (htx : contents o.state.txRing = contents s.txRing ++ [i])
      (hpayload : (o.state.packet i).payload = iov0)
      (htxtime : (o.state.packet i).metadata.txtime = txtime)
      (hsize : (o.state.packet i).metadata.size = UInt64.ofNat iov0.length)

/-- **What a path does once it has found its interface.** With no free buffer it refuses the
message; with one, it reads the first iovec, and either it has a fault there, or it refuses or
queues the packet. -/
theorem sendmsgQueue_spec (msg : Msghdr) (hfree : RingAt s.freeRing k P C)
    (htx : RingAt s.txRing k' P' C') (hc : s.clients c = .idle ret) (path : SendPath)
    (interface : Interface) (txtime : UInt64) :
    ∃ o, sendmsgQueue s c msg (sendReq msg path interface txtime) = some o ∧
      QueueEnd k' s msg txtime o := by
  obtain ⟨r, hr, hone⟩ := hfree.dequeue_one fun _ => 0
  simp only [sendmsgQueue, clientTake, hc, hr, Option.bind_eq_bind, Option.bind_some,
    Function.update_self]
  rcases hone with ⟨hempty, hn, -⟩ | ⟨hi, hn, -⟩
  · simp only [hn, if_pos]
    exact ⟨_, rfl, .refused (.inl hempty) (fun hne => absurd hempty hne) rfl rfl rfl⟩
  · have hne : contents s.freeRing ≠ [] := by
      rw [hi]
      exact List.cons_ne_nil _ _
    simp only [hn, if_neg (show (1 : UInt32) ≠ 0 by decide)]
    cases hiov : msg.iov with
    | nil => exact ⟨_, rfl, .fault hne (not_firstFits_of_nil hiov) rfl⟩
    | cons iov0 rest =>
        dsimp only
        split_ifs with hlong
        · exact ⟨_, rfl, .fault hne ((firstFits_iff_of_cons hiov).not.mpr (not_le.mpr hlong)) rfl⟩
        · have hfits := not_lt.mp hlong
          have hreq : (sendReq msg path interface txtime).iov0 = iov0 := by
            simp [sendReq, hiov]
          have hlt : (sendReq msg path interface txtime).iov0.length < 2 ^ 64 := by
            have hsize : mbufSize = 2048 := rfl
            rw [hreq]
            omega
          obtain ⟨s₁, s₂, hfill, hput, hring, hend⟩ := fill_put htx
            (s := { s with
              freeRing := r.rb
              clients := Function.update s.clients c
                (.taken (r.table 0) (sendReq msg path interface txtime)) })
            (Function.update_self ..) hlt
          rw [hfill, Option.bind_some, hput, Option.bind_some]
          rcases hend with ⟨hidle, happ, hpacket⟩ | ⟨hfull, hidle, hsame⟩
          · rw [hidle, hreq]
            refine ⟨_, rfl, .queued hiov hfits rfl rfl (i := r.table 0) ?_ happ ?_ ?_ ?_⟩
            · rw [hi, hring]
            · rw [hpacket, hreq]
            · rw [hpacket]
              exact SendReq.metadata_txtime _ _
            · rw [hpacket, ← hreq]
              exact SendReq.metadata_size _ _
          · rw [hidle]
            exact ⟨_, rfl, .refused (.inr hfull) (fun _ => (firstFits_iff_of_cons hiov).mpr hfits)
              rfl rfl hsame⟩

/-- A path that has found its interface is transparent exactly when it has no fault. -/
theorem transparent_queue_iff (hfree : RingAt s.freeRing k P C) (htx : RingAt s.txRing k' P' C')
    (hc : s.clients c = .idle ret) {path : SendPath} {interface : Interface} {txtime : UInt64}
    (htxtime : firstTxtime msg.control = some txtime) (hsched : ¬ Unscheduled lib fd msg)
    (h : sendmsg libc lib s c fd msg flags =
      sendmsgQueue s c msg (sendReq msg path interface txtime)) :
    Transparent libc lib s c fd msg flags ↔ (contents s.freeRing ≠ [] → FirstFits msg) := by
  obtain ⟨o, ho, hend⟩ := sendmsgQueue_spec msg hfree htx hc path interface txtime
  rw [← h] at ho
  have htransparent : ∀ f, Fate.Holds libc s fd msg flags o f →
      Transparent libc lib s c fd msg flags := by
    intro f hf
    exact ⟨o, ho, ⟨f, hf, fun g hg => fate_unique hg hf⟩, fun hun => absurd hun hsched⟩
  cases hend with
  | refused hfull hfits hret hnone hsame =>
      refine iff_of_true (htransparent .refused ⟨hnone, ⟨_, ?_, hret⟩, hsame⟩) hfits
      decide
  | fault hbuffer hnot hret =>
      exact iff_of_false (not_transparent ho (by simp [hret])) fun h => hnot (h hbuffer)
  | queued hiov hfits hret hnone hbuffer happ hpayload hpktTxtime hsize =>
      refine iff_of_true (htransparent .queued ?_) fun _ => ⟨_, _, hiov, hfits⟩
      exact ⟨hnone, _, _, txtime, by simp [hiov], htxtime, hret, hbuffer, happ, hpayload, hpktTxtime⟩

section scheduled

variable {node : KtSocket} {txtime : UInt64} (hfind : ktSocketFind lib.sockets fd = some node)
  (hflag : node.txtime ≠ 0) (htxtime : firstTxtime msg.control = some txtime)

include hfind hflag htxtime

omit [DecidableEq ι] in
/-- The condition for a socket that uses transmit times and a message that carries one. -/
theorem harmless_iff :
    Harmless lib s fd msg ↔
      (node.domain = pfPacket ∧ msg.name.isSome ∨ node.domain = afInet) ∧
      ((matchingInterface lib msg node.domain).isSome → contents s.freeRing ≠ [] → FirstFits msg) := by
  simp [Harmless, hfind, hflag, htxtime]

theorem unscheduled_iff :
    Unscheduled lib fd msg ↔
      matchingInterface lib msg node.domain = none ∨
        (node.domain ≠ afInet ∧ node.domain ≠ pfPacket) := by
  simp [Unscheduled, hfind, hflag, htxtime]

/-- With an interface, the message is scheduled. -/
theorem scheduled_of_interface {interface : Interface}
    (hmatch : matchingInterface lib msg node.domain = some interface) :
    ¬ Unscheduled lib fd msg := by
  rw [unscheduled_iff hfind hflag htxtime, hmatch]
  rintro (hnone | ⟨hinet, hpacket⟩)
  · cases hnone
  · simp [matchingInterface, hinet, hpacket] at hmatch

/-- The `switch` over the domain. -/
theorem sendmsg_dispatch :
    sendmsg libc lib s c fd msg flags =
      if node.domain = pfPacket then sendmsgPacket libc lib s c fd msg flags txtime
      else if node.domain = afInet then sendmsgInet libc lib s c fd msg flags txtime
      else some ⟨.nothing, [], s⟩ := by
  simp only [sendmsg, hfind, if_neg hflag, htxtime]

/-- With an interface, either path puts the message on the tx ring. -/
theorem sendmsg_of_interface {interface : Interface}
    (hmatch : matchingInterface lib msg node.domain = some interface) :
    ∃ path, sendmsg libc lib s c fd msg flags =
      sendmsgQueue s c msg (sendReq msg path interface txtime) := by
  rw [sendmsg_dispatch hfind hflag htxtime]
  unfold matchingInterface at hmatch
  split_ifs at hmatch ⊢ with hpacket hinet
  · obtain ⟨addr, hname, hif⟩ := Option.bind_eq_some_iff.mp hmatch
    refine ⟨.packet, ?_⟩
    simp only [sendmsgPacket, hname, hif]
  · obtain ⟨addr, hname, -⟩ := Option.bind_eq_some_iff.mp hmatch
    refine ⟨.inet addr.sAddr addr.sinPort, ?_⟩
    simp only [sendmsgInet, hmatch]
    rw [hname]

variable (hfree : RingAt s.freeRing k P C) (htx : RingAt s.txRing k' P' C')
  (hc : s.clients c = .idle ret)

include hfree htx hc

/-- With an interface, only a fault disturbs. -/
theorem transparent_iff_of_interface {interface : Interface}
    (hmatch : matchingInterface lib msg node.domain = some interface) :
    Transparent libc lib s c fd msg flags ↔ (contents s.freeRing ≠ [] → FirstFits msg) := by
  have hsched := scheduled_of_interface hfind hflag htxtime hmatch
  obtain ⟨path, hqueue⟩ : ∃ path, sendmsg libc lib s c fd msg flags =
      sendmsgQueue s c msg (sendReq msg path interface txtime) :=
    sendmsg_of_interface hfind hflag htxtime hmatch
  exact transparent_queue_iff hfree htx hc htxtime hsched hqueue

/-- The path of a packet socket: a fault without a name. -/
theorem packet_transparent_iff (hdomain : node.domain = pfPacket) :
    Transparent libc lib s c fd msg flags ↔ Harmless lib s fd msg := by
  have hcall : sendmsg libc lib s c fd msg flags = sendmsgPacket libc lib s c fd msg flags txtime := by
    rw [sendmsg_dispatch hfind hflag htxtime, if_pos hdomain]
  rw [harmless_iff hfind hflag htxtime]
  cases hname : msg.name with
  | none =>
      have hfault : sendmsg libc lib s c fd msg flags = some ⟨.fault, [], s⟩ := by
        simp only [hcall, sendmsgPacket, hname]
      refine iff_of_false (not_transparent hfault (by simp)) fun h => ?_
      rcases h.1 with ⟨-, hsome⟩ | hinet
      · simp at hsome
      · exact absurd (hdomain.symm.trans hinet) (by decide)
  | some addr =>
      have hmatch : matchingInterface lib msg node.domain =
          ktInterfaceFind lib.interfaces addr.sllIfindex := by
        rw [matchingInterface, if_pos hdomain, hname, Option.bind_some]
      rw [hmatch]
      cases hif : ktInterfaceFind lib.interfaces addr.sllIfindex with
      | none =>
          refine iff_of_true (transparent_forward ?_) ⟨Or.inl ⟨hdomain, rfl⟩, fun h => by simp at h⟩
          simp only [hcall, sendmsgPacket, hname, hif]
      | some interface =>
          rw [transparent_iff_of_interface hfind hflag htxtime hfree htx hc (hmatch.trans hif)]
          simp [hdomain]

/-- The path of an internet socket. -/
theorem inet_transparent_iff (hdomain : node.domain = afInet) :
    Transparent libc lib s c fd msg flags ↔ Harmless lib s fd msg := by
  have hother : node.domain ≠ pfPacket := by
    rw [hdomain]
    decide
  have hcall : sendmsg libc lib s c fd msg flags = sendmsgInet libc lib s c fd msg flags txtime := by
    rw [sendmsg_dispatch hfind hflag htxtime, if_neg hother, if_pos hdomain]
  have hmatch : matchingInterface lib msg node.domain = ktInterfaceGetByNet lib.interfaces msg.name := by
    rw [matchingInterface, if_neg hother, if_pos hdomain]
  rw [harmless_iff hfind hflag htxtime, hmatch]
  cases hif : ktInterfaceGetByNet lib.interfaces msg.name with
  | none =>
      refine iff_of_true (transparent_forward ?_) ⟨Or.inr hdomain, fun h => by simp at h⟩
      simp only [hcall, sendmsgInet, hif]
      cases msg.name <;> rfl
  | some interface =>
      rw [transparent_iff_of_interface hfind hflag htxtime hfree htx hc (hmatch.trans hif)]
      simp [hdomain]

end scheduled

/-- **When `sendmsg` is transparent**: for every socket table and interface list, and with the
rings at rest. -/
theorem sendmsg_transparent_iff (hfree : RingAt s.freeRing k P C) (htx : RingAt s.txRing k' P' C')
    (hc : s.clients c = .idle ret) :
    Transparent libc lib s c fd msg flags ↔ Harmless lib s fd msg := by
  cases hfind : ktSocketFind lib.sockets fd with
  | none =>
      refine iff_of_true (transparent_forward ?_) ?_
      · simp only [sendmsg, hfind]
      · simp [Harmless, hfind]
  | some node =>
      by_cases hflag : node.txtime = 0
      · refine iff_of_true (transparent_forward ?_) ?_
        · simp only [sendmsg, hfind, if_pos hflag]
        · intro node' txtime hnode hne
          rw [hfind, Option.some.injEq] at hnode
          exact absurd hflag (hnode ▸ hne)
      · cases htxtime : firstTxtime msg.control with
        | none =>
            refine iff_of_true (transparent_forward ?_) ?_
            · simp only [sendmsg, hfind, if_neg hflag, htxtime]
            · simp [Harmless, htxtime]
        | some txtime =>
            by_cases hpacket : node.domain = pfPacket
            · exact packet_transparent_iff hfind hflag htxtime hfree htx hc hpacket
            by_cases hinet : node.domain = afInet
            · exact inet_transparent_iff hfind hflag htxtime hfree htx hc hinet
            -- the `switch` falls through
            have hcall : sendmsg libc lib s c fd msg flags = some ⟨.nothing, [], s⟩ := by
              rw [sendmsg_dispatch hfind hflag htxtime, if_neg hpacket, if_neg hinet]
            refine iff_of_false (not_transparent hcall (by simp)) ?_
            simp [harmless_iff hfind hflag htxtime, hpacket, hinet]

/-- `socket` returns nothing when it succeeds. -/
theorem socket_ret_iff (l : List KtSocket) (domain fd : Int32) :
    (socket l domain fd).1 = some fd ↔ fd < 0 := by
  unfold socket
  split_ifs with hneg
  · simp [hneg]
  · cases ktSocketFind l fd <;> simp [hneg]

/-- **When the preloaded library is transparent.** For every socket table and interface list and
every call, with the rings at rest: `socket` returns what libc answered if and only if that is an
error; and `sendmsg` returns with exactly one of the three fates, and hands every message on that
it does not schedule, if and only if the call is harmless. -/
theorem preload_transparent_iff (hfree : RingAt s.freeRing k P C) (htx : RingAt s.txRing k' P' C')
    (hc : s.clients c = .idle ret) :
    (∀ l domain answer, (socket l domain answer).1 = some answer ↔ answer < 0) ∧
      ∀ libc lib fd msg flags,
        Transparent libc lib s c fd msg flags ↔ Harmless lib s fd msg :=
  ⟨socket_ret_iff, fun _ _ _ _ _ => sendmsg_transparent_iff hfree htx hc⟩

/-- A state with one free buffer and nothing on the tx ring. -/
def oneFree : State Unit where
  freeRing := { ringOfFour with prod := ⟨1, 1⟩ }
  txRing := ringOfFour
  mbufPool := fun _ => 0
  metadataPool := fun _ => ⟨.ethernet, 0, Vector.replicate 6 0, Vector.replicate 6 0, 0, 0, 0, 0⟩
  prioQueue := ⟨fun _ => ⟨0, 0⟩, 0, 4⟩
  clients := fun _ => .idle none
  daemon := .top
  wire := []

/-- Its rings are at rest. -/
theorem oneFree_rings : RingAt oneFree.freeRing 2 1 0 ∧ RingAt oneFree.txRing 2 0 0 :=
  ⟨⟨⟨by decide, rfl, rfl, rfl⟩, rfl, rfl, by decide, by decide⟩,
    ⟨⟨by decide, rfl, rfl, rfl⟩, rfl, rfl, by decide, by decide⟩⟩

/-- A library with one socket of the given domain that uses transmit times, and one interface. -/
def oneSocket (domain : Int32) : Library where
  sockets := [⟨3, -1, 1, domain⟩]
  interfaces := [⟨⟨0x0100a8c0, #v[2, 0, 0, 0, 0, 1]⟩, 2, 0x00ffffff⟩]

/-- A message of one byte with a transmit time. -/
def timedMessage (name : Option SockAddr) : Msghdr := ⟨name, [[7]], [⟨solSocket, soTxtime, 5⟩]⟩

/-- A message to an address in the network of the interface. -/
theorem preload_transparent_iff_inet :
    Transparent (fun _ _ _ => 0) (oneSocket afInet) oneFree () 3
      (timedMessage (some ⟨0x3930, 0x0200a8c0⟩)) 0 := by
  obtain ⟨hfree, htx⟩ := oneFree_rings
  refine ((preload_transparent_iff hfree htx rfl).2 _ _ _ _ _).mpr ?_
  rintro node txtime ⟨⟩ - -
  exact ⟨Or.inr rfl, fun _ _ => ⟨[7], [], rfl, by decide⟩⟩

/-- A `socket` that succeeds returns nothing; neither does a `sendmsg` with a transmit time on a socket
of another domain (10 is `AF_INET6`), and on a packet socket without a name it reads through `NULL`. -/
theorem unusual_calls_undefined :
    (socket [] afInet 3).1 = none ∧
      ∀ s : State Unit,
        sendmsg (fun _ _ _ => 0) (oneSocket 10) s () 3 (timedMessage none) 0 =
          some ⟨.nothing, [], s⟩ ∧
        sendmsg (fun _ _ _ => 0) (oneSocket pfPacket) s () 3 (timedMessage none) 0 =
          some ⟨.fault, [], s⟩ := by
  exact ⟨rfl, fun s => ⟨rfl, rfl⟩⟩

end KuberneTSN.Preload
