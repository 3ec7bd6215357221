import KuberneTSN.Queue.Basic
import KuberneTSN.Ring.Fifo

/-!
# The daemon and its clients

`ktsnd` and any number of clients of `libktsn` share two rings of buffer indices and the pools that
the indices point into. A client inside `sendmsg` takes an index from the free ring, fills the
buffer and its metadata, and puts the index on the tx ring. The daemon moves indices from the tx
ring into its priority queue, and then waits, drops the packet with the smallest transmit time as
late, or sends it and puts its index back on the free ring.

`schedStep` is one action of one party; between any two actions any other party may run. Each call
of the rings and of the queue is one action. The calls of `sendmsg` that never reach the rings (no
socket, no transmit time, no interface) are left out.
-/

namespace KuberneTSN.Sched

open KuberneTSN.Ring KuberneTSN.Queue

/-! ## Packets -/

/-- Source: `kt_memory.h` `KT_METADATA_TRANSPORT_ETHERNET` and `KT_METADATA_TRANSPORT_UDP`. -/
inductive Transport where
  | ethernet
  | udp
  deriving DecidableEq, Repr

/-- Source: `kt_memory.h` `struct kt_metadata`. -/
structure KtMetadata where
  transport : Transport
  txtime : UInt64
  ethSrc : Vector UInt8 6
  ethDst : Vector UInt8 6
  ipSrc : UInt32
  ipDst : UInt32
  udpDport : UInt16
  size : UInt64
  deriving DecidableEq, Repr

/-- Source: `libktsn.c` `struct kt_interface`, the fields that the send paths read: the address, in
network byte order, and the MAC. -/
structure KtInterface where
  addr : UInt32
  mac : Vector UInt8 6
  deriving DecidableEq, Repr

/-- Which of `sendmsg_inet` and `sendmsg_packet` runs, with the destination address and port of the
former, in network byte order. -/
inductive SendPath where
  | inet (sAddr : UInt32) (sinPort : UInt16)
  | packet
  deriving DecidableEq, Repr

/-- A scheduled `sendmsg`, once its interface is found: `iov0` is what `msg_iov[0]` points at. -/
structure SendReq where
  path : SendPath
  interface : KtInterface
  iov0 : List UInt8
  txtime : UInt64
  deriving DecidableEq, Repr

/-- Source: `libktsn.c` `kt_default_dst_mac`. -/
def ktDefaultDstMac : Vector UInt8 6 := #v[0xff, 0xff, 0xff, 0xff, 0xff, 0xff]

/-- Source: `libktsn.c` `kt_multicast_mac`. -/
def ktMulticastMac : Vector UInt8 6 := #v[0x01, 0x00, 0x5e, 0x00, 0x00, 0x01]

/-- `ntohs` on a little-endian host. -/
def ntohs (x : UInt16) : UInt16 := (x <<< 8) ||| (x >>> 8)

/-- `ntohl` on a little-endian host. -/
def ntohl (x : UInt32) : UInt32 :=
  (x <<< 24) ||| ((x <<< 8) &&& (0x00ff0000 : UInt32)) ||| ((x >>> 8) &&& (0x0000ff00 : UInt32)) |||
    (x >>> 24)

/-- The metadata after the assignments of `sendmsg_inet`, over the record `m` of the index. -/
def sendmsgInetMetadata (req : SendReq) (sAddr : UInt32) (sinPort : UInt16) (m : KtMetadata) :
    KtMetadata :=
  { m with
    txtime := req.txtime
    size := UInt64.ofNat req.iov0.length
    ethSrc := req.interface.mac
    ethDst := ktDefaultDstMac
    ipDst := ntohl sAddr
    ipSrc := ntohl req.interface.addr
    udpDport := ntohs sinPort
    transport := .udp }

/-- The metadata after the assignments of `sendmsg_packet`; the addresses of an earlier packet stay. -/
def sendmsgPacketMetadata (req : SendReq) (m : KtMetadata) : KtMetadata :=
  { m with
    txtime := req.txtime
    size := UInt64.ofNat req.iov0.length
    transport := .ethernet
    ethSrc := req.interface.mac
    ethDst := ktMulticastMac }

/-- The metadata that either send path leaves. -/
def SendReq.metadata (req : SendReq) (m : KtMetadata) : KtMetadata :=
  match req.path with
  | .inet sAddr sinPort => sendmsgInetMetadata req sAddr sinPort m
  | .packet => sendmsgPacketMetadata req m

theorem SendReq.metadata_size (req : SendReq) (m : KtMetadata) :
    (req.metadata m).size = UInt64.ofNat req.iov0.length := by
  unfold SendReq.metadata
  cases req.path <;> rfl

theorem SendReq.metadata_txtime (req : SendReq) (m : KtMetadata) :
    (req.metadata m).txtime = req.txtime := by
  unfold SendReq.metadata
  cases req.path <;> rfl

/-- `memcpy(dst, src, n)` into a memory of bytes. -/
def memcpy (mem : ℕ → UInt8) (dst : ℕ) (src : List UInt8) : ℕ → UInt8 :=
  fun a => if h : dst ≤ a ∧ a < dst + src.length then src[a - dst] else mem a

/-- The offset in the mbuf pool of the buffer with index `i`. Source: `kt_memory.h`
`struct kt_mbuf`. -/
def mbufAt (i : UInt64) : ℕ := 2048 * i.toNat

/-- `-ENOBUFS`. -/
def enobufs : ℤ := -105

/-! ## The parties -/

/-- Where a client is. -/
inductive Client where
  /-- Outside `sendmsg`, with the value that its last call returned. -/
  | idle (ret : Option ℤ)
  /-- It has taken an index from the free ring. -/
  | taken (i : UInt64) (req : SendReq)
  /-- It has filled the buffer. -/
  | filled (i : UInt64) (req : SendReq)
  deriving DecidableEq, Repr

/-- Where the loop of the daemon is. -/
inductive Daemon where
  /-- Before `kt_ringbuf_dequeue_burst`. -/
  | top
  /-- Before the insertion of the indices `pending`, which are still in its table. -/
  | insert (pending : List UInt64)
  /-- Before sending the packet with the index `i`, which it has extracted. -/
  | transmit (i : UInt64)
  /-- Before `kt_ringbuf_enqueue_burst` of the index `i` on the free ring. -/
  | recycle (i : UInt64)
  deriving DecidableEq, Repr

/-- What `prepare_packet` is given: the payload, cut to the size in the metadata, and the metadata. -/
structure Packet where
  payload : List UInt8
  metadata : KtMetadata
  deriving DecidableEq, Repr

/-- The shared memory, the queue of the daemon, the parties, and the packets sent so far. The two
pools are memories of their own without an end; `KuberneTSN.Sched.Segment` is about how they lie in
the segment, one behind the other, and `KuberneTSN.Sched.Access` shows that in runs with messages
that fit in a buffer nothing beyond their ends is accessed. -/
structure State (ι : Type) where
  freeRing : KtRingbuf
  txRing : KtRingbuf
  mbufPool : ℕ → UInt8
  metadataPool : ℕ → KtMetadata
  prioQueue : KtPrioQueue
  clients : ι → Client
  daemon : Daemon
  wire : List Packet

/-- The packet in the buffer with index `i`. -/
def State.packet {ι : Type} (s : State ι) (i : UInt64) : Packet where
  payload := (List.range (s.metadataPool i.toNat).size.toNat).map fun j => s.mbufPool (mbufAt i + j)
  metadata := s.metadataPool i.toNat

/-- What was copied is read back. -/
theorem map_memcpy (mem : ℕ → UInt8) (dst : ℕ) (src : List UInt8) :
    (List.range src.length).map (fun j => memcpy mem dst src (dst + j)) = src := by
  refine List.ext_getElem (by simp) fun j hj hj' => ?_
  have hin : dst ≤ dst + j ∧ dst + j < dst + src.length := by omega
  simp [memcpy, hj']

/-- The packet in a buffer that was filled. -/
theorem packet_of_filled {ι : Type} {s : State ι} {i : UInt64} {req : SendReq} {mem : ℕ → UInt8}
    {m : KtMetadata} (hlt : req.iov0.length < 2 ^ 64)
    (hmem : s.mbufPool = memcpy mem (mbufAt i) req.iov0)
    (hm : s.metadataPool i.toNat = req.metadata m) :
    s.packet i = ⟨req.iov0, req.metadata m⟩ := by
  unfold State.packet
  simp only [hm, hmem, req.metadata_size, UInt64.toNat_ofNat', Nat.mod_eq_of_lt hlt, map_memcpy]

/-! ## Start-up -/

/-- The loop that fills the free ring, from index `i` on and with `n` rounds to go. -/
def fillFreeRing : ℕ → ℕ → KtRingbuf → Except Halt KtRingbuf
  | 0, _, rb => .ok rb
  | n + 1, i, rb => do
      let r ← ktRingbufEnqueueBurst rb (fun _ => UInt64.ofNat i) 8 1
      fillFreeRing n (i + 1) r.rb

/-- Source: `ktsnd.c` `main`, lines 252–271. The shared memory is fresh, so the slots of the rings, and
the cells behind them, hold `0`; what the pools and the array of the queue hold does not matter. -/
def ktsndStart {ι : Type} (mbufPool : ℕ → UInt8) (metadataPool : ℕ → KtMetadata)
    (junk : ℕ → KtPqNode) : Option (State ι) := do
  let ringElemCount := 128
  let txRing ← ktRingbufCreate (fun _ => some fun _ => 0) ringElemCount 1
  let freeRing ← ktRingbufCreate (fun _ => some fun _ => 0) ringElemCount 1
  let freeRing ← (fillFreeRing (ktRingbufGetCapacity freeRing).toNat 0 freeRing).toOption
  some
    { freeRing := freeRing
      txRing := txRing
      mbufPool := mbufPool
      metadataPool := metadataPool
      prioQueue := ktPrioQueueInit junk (ktRingbufGetCapacity freeRing).toNat
      clients := fun _ => .idle none
      daemon := .top
      wire := [] }

/-! ## Actions -/

/-- The actions of the parties. -/
inductive Act (ι : Type) where
  /-- Client `c` calls `sendmsg` and takes an index from the free ring. -/
  | take (c : ι) (req : SendReq)
  /-- Client `c` fills its buffer. -/
  | fill (c : ι)
  /-- Client `c` puts its index on the tx ring and returns. -/
  | put (c : ι)
  /-- The daemon takes up to eight indices from the tx ring. -/
  | dequeue
  /-- The daemon inserts one of them in its queue. -/
  | insert
  /-- The daemon looks at the head of its queue when the clock shows `now`. -/
  | schedule (now : Int64)
  /-- The daemon sends the packet that it has extracted. -/
  | transmit
  /-- The daemon puts its index on the free ring. -/
  | recycle
  deriving DecidableEq, Repr

/-- Source: `kt_common.c` `kt_get_time_diff_ns`. -/
def ktGetTimeDiffNs (start stop : Int64) : Int64 := stop - start

/-- Source: `ktsnd.c` `tx_delta_ns`. -/
def txDeltaNs : Int64 := 50000

variable {ι : Type} [DecidableEq ι]

/-- The first action of `sendmsg_inet` and `sendmsg_packet`.
Source: `libktsn.c`, lines 309–315 and 357–363. -/
def clientTake (s : State ι) (c : ι) (req : SendReq) : Option (State ι) :=
  match s.clients c with
  | .idle _ =>
      match ktRingbufDequeueBurst s.freeRing (fun _ => 0) 8 1 with
      | .ok r =>
          let client := if r.n = 0 then .idle (some enobufs) else .taken (r.table 0) req
          some { s with freeRing := r.rb, clients := Function.update s.clients c client }
      | .error _ => none
  | _ => none

/-- The second action: the copy of the payload, whatever its length, and the metadata. A message
that is longer than a record runs on into the memory behind it; whether the language allows that is
left to `KuberneTSN.Preload`. Source: `libktsn.c`, lines 317–334 and 365–379. -/
def clientFill (s : State ι) (c : ι) : Option (State ι) :=
  match s.clients c with
  | .taken i req => some
      { s with
        mbufPool := memcpy s.mbufPool (mbufAt i) req.iov0
        metadataPool := Function.update s.metadataPool i.toNat
          (req.metadata (s.metadataPool i.toNat))
        clients := Function.update s.clients c (.filled i req) }
  | _ => none

/-- The third action, after which the call returns.
Source: `libktsn.c`, lines 336–344 and 381–389. -/
def clientPut (s : State ι) (c : ι) : Option (State ι) :=
  match s.clients c with
  | .filled i req =>
      match ktRingbufEnqueueBurst s.txRing (fun _ => i) 8 1 with
      | .ok r =>
          let ret := if r.n ≠ 1 then enobufs else req.iov0.length
          some
            { s with txRing := r.rb, clients := Function.update s.clients c (.idle (some ret)) }
      | .error _ => none
  | _ => none

/-- The call at the top of the loop. Source: `ktsnd.c` `main`, lines 321–322. -/
def daemonDequeue (s : State ι) : Option (State ι) :=
  match s.daemon with
  | .top =>
      match ktRingbufDequeueBurst s.txRing (fun _ => 0) 8 8 with
      | .ok r => some { s with txRing := r.rb, daemon := .insert (firstOf r.table r.n.toNat) }
      | .error _ => none
  | _ => none

/-- One round of the `for` loop, which ignores what `kt_prio_queue_insert` returns.
Source: `ktsnd.c` `main`, lines 325–330. -/
def daemonInsert (s : State ι) : Option (State ι) :=
  match s.daemon with
  | .insert (offset :: rest) => do
      let metadata := s.metadataPool offset.toNat
      let (_, q) ← ktPrioQueueInsert s.prioQueue metadata.txtime.toInt64 offset
      some { s with prioQueue := q, daemon := .insert rest }
  | _ => none

/-- The decision when the clock shows `now`. Source: `ktsnd.c` `main`, lines 333–384. -/
def daemonSchedule (s : State ι) (now : Int64) : Option (State ι) :=
  match s.daemon with
  | .insert [] =>
      if ktPrioQueueIsEmpty s.prioQueue then some { s with daemon := .top }
      else
        let txtime := ktPrioQueueGetmin s.prioQueue
        let diff := ktGetTimeDiffNs now txtime
        if diff > txDeltaNs then some { s with daemon := .top }
        else if diff < 0 then do
          let (_, _, q) ← ktPrioQueueExtractMin s.prioQueue none
          some { s with prioQueue := q, daemon := .top }
        else do
          let (_, mbufIndex, q) ← ktPrioQueueExtractMin s.prioQueue (some 0)
          some { s with prioQueue := q, daemon := .transmit (mbufIndex.getD 0) }
  | _ => none

/-- The packet goes out. Source: `ktsnd.c` `main`, lines 386–406. -/
def daemonTransmit (s : State ι) : Option (State ι) :=
  match s.daemon with
  | .transmit i => some { s with wire := s.wire ++ [s.packet i], daemon := .recycle i }
  | _ => none

/-- The last call of the loop, whose result is ignored. Source: `ktsnd.c` `main`, lines 408–409. -/
def daemonRecycle (s : State ι) : Option (State ι) :=
  match s.daemon with
  | .recycle i =>
      match ktRingbufEnqueueBurst s.freeRing (fun _ => i) 8 1 with
      | .ok r => some { s with freeRing := r.rb, daemon := .top }
      | .error _ => none
  | _ => none

/-- One action. -/
def schedStep (s : State ι) : Act ι → Option (State ι)
  | .take c req => clientTake s c req
  | .fill c => clientFill s c
  | .put c => clientPut s c
  | .dequeue => daemonDequeue s
  | .insert => daemonInsert s
  | .schedule now => daemonSchedule s now
  | .transmit => daemonTransmit s
  | .recycle => daemonRecycle s

end KuberneTSN.Sched
