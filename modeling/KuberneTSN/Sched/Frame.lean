import KuberneTSN.Lib.Wire
import KuberneTSN.Sched.Basic

/-!
# The frame of a packet

The daemon builds the frame of a packet in a DPDK buffer, from the payload and the metadata that a
client has left in the shared memory. Here the buffer is a memory of bytes, whose old contents are
arbitrary, and every assignment to a field of a header is a write of the bytes that a little-endian
host puts there. `rte_ipv4_cksum` is a parameter.

* `bytesAt_prepareIpv4`, `bytesAt_prepareUdp` — the headers that the daemon writes;
* `frame_udp`, `frame_ethernet` — the frame of a UDP packet is a well-formed UDP frame, and the
  frame of a raw packet is its payload;
* `frame_agreement` — so the frame of what a client wrote is read back as what the client was
  given.
-/

namespace KuberneTSN.Sched

open Lib.Wire

/-! ## The memory of a little-endian host -/

/-- A 16-bit number in memory. -/
def le16 (x : UInt16) : List UInt8 := [x.toUInt8, (x >>> 8).toUInt8]

/-- A 32-bit number in memory. -/
def le32 (x : UInt32) : List UInt8 :=
  [x.toUInt8, (x >>> 8).toUInt8, (x >>> 16).toUInt8, (x >>> 24).toUInt8]

/-- The 16-bit number at an address. -/
def loadU16 (mem : ℕ → UInt8) (a : ℕ) : UInt16 :=
  (mem a).toUInt16 ||| ((mem (a + 1)).toUInt16 <<< 8)

/-- The `n` bytes from an address on. -/
def bytesAt (mem : ℕ → UInt8) (a n : ℕ) : List UInt8 := (List.range n).map fun j => mem (a + j)

/-- `htons` on a little-endian host. -/
def htons (x : UInt16) : UInt16 := ntohs x

/-- `rte_cpu_to_be_16` on a little-endian host. -/
def rteCpuToBe16 (x : UInt16) : UInt16 := ntohs x

/-- `rte_cpu_to_be_32` on a little-endian host. -/
def rteCpuToBe32 (x : UInt32) : UInt32 := ntohl x

/-! ## The buffer -/

/-- `struct rte_mbuf`, as far as `prepare_packet` writes it; `data` is what `rte_pktmbuf_mtod`
gives, without an end: what fits in a buffer is up to the statements (`dataRoom`). -/
structure RteMbuf where
  data : ℕ → UInt8
  dataLen : UInt16
  pktLen : UInt32
  next : Option ℕ
  nbSegs : UInt16

/-- The bytes that the driver sends. -/
def RteMbuf.frame (buf : RteMbuf) : List UInt8 := bytesAt buf.data 0 buf.pktLen.toNat

/-- The data room of a DPDK buffer, behind its headroom. -/
def dataRoom : ℕ := 2048

/-- Source: `ktsnd.c` `SRC_PORT`. -/
def srcPort : UInt16 := 9999

section prepare

variable (rteIpv4Cksum : List UInt8 → UInt16) (metadata : KtMetadata)

/-- The assignments to the IPv4 header, from byte 14 on, before the checksum. The identification is
what the buffer held, with its bytes swapped. Source: `ktsnd.c`, lines 149–160. -/
def ipv4Fields (data : ℕ → UInt8) : ℕ → UInt8 :=
  let data := memcpy data 30 (le32 (rteCpuToBe32 metadata.ipDst))
  let data := memcpy data 26 (le32 (rteCpuToBe32 metadata.ipSrc))
  -- `version` and `ihl` are the high and the low half of one byte.
  let data := memcpy data 14 [(data 14 &&& 0x0f) ||| 0x40]
  let data := memcpy data 14 [(data 14 &&& 0xf0) ||| 0x05]
  let data := memcpy data 15 [0]
  let data := memcpy data 16 (le16 (rteCpuToBe16 (20 + 6 + 2 + metadata.size).toUInt16))
  let data := memcpy data 20 (le16 0)
  let data := memcpy data 22 [64]
  let data := memcpy data 23 [17]
  let data := memcpy data 24 (le16 0)
  memcpy data 18 (le16 (rteCpuToBe16 (loadU16 data 18)))

/-- The IPv4 header. Source: `ktsnd.c`, lines 149–163. -/
def prepareIpv4 (data : ℕ → UInt8) : ℕ → UInt8 :=
  let data := ipv4Fields metadata data
  memcpy data 24 (le16 (rteIpv4Cksum (bytesAt data 14 20)))

/-- The UDP header, from byte 34 on. Source: `ktsnd.c`, lines 166–170. -/
def prepareUdp (data : ℕ → UInt8) : ℕ → UInt8 :=
  let data := memcpy data 36 (le16 (rteCpuToBe16 metadata.udpDport))
  let data := memcpy data 34 (le16 (rteCpuToBe16 srcPort))
  let data := memcpy data 38 (le16 (rteCpuToBe16 (8 + metadata.size).toUInt16))
  memcpy data 40 (le16 0)

/-- Source: `ktsnd.c` `prepare_packet`. -/
def preparePacket (txBuf : RteMbuf) (pkt : Packet) : RteMbuf :=
  let metadata := pkt.metadata
  let data := memcpy txBuf.data 6 metadata.ethSrc.toList
  let data := memcpy data 0 metadata.ethDst.toList
  if metadata.transport = .udp then
    let data := memcpy data 12 (le16 (htons 0x0800))
    let data := prepareIpv4 rteIpv4Cksum metadata data
    let data := prepareUdp metadata data
    let data := memcpy data 42 pkt.payload
    let pktLen := (14 + 20 + 8 + metadata.size).toUInt32
    ⟨data, pktLen.toUInt16, pktLen, none, 1⟩
  else
    let data := memcpy data 0 pkt.payload
    let pktLen := metadata.size.toUInt32
    ⟨data, pktLen.toUInt16, pktLen, none, 1⟩

end prepare

/-! ## Reading after writing -/

theorem byte_eq_of_bits {x y : UInt8} (h : ∀ i, (hi : i < 8) → x.toBitVec[i] = y.toBitVec[i]) :
    x = y :=
  UInt8.toBitVec_inj.mp (BitVec.eq_of_getElem_eq h)

theorem le16_ntohs (x : UInt16) : le16 (ntohs x) = be16 x := by
  simp only [le16, be16, List.cons.injEq, and_true]
  refine ⟨byte_eq_of_bits fun i hi => ?_, byte_eq_of_bits fun i hi => ?_⟩
  all_goals interval_cases i <;> simp [ntohs]

theorem le16_zero : le16 0 = be16 0 := by decide

theorem le32_ntohl (x : UInt32) : le32 (ntohl x) = be32 x := by
  simp only [le32, be32, List.cons.injEq, and_true]
  refine ⟨byte_eq_of_bits fun i hi => ?_, byte_eq_of_bits fun i hi => ?_,
    byte_eq_of_bits fun i hi => ?_, byte_eq_of_bits fun i hi => ?_⟩
  all_goals interval_cases i <;> simp [ntohl]

/-- The two bit fields of the first byte of an IPv4 header. -/
theorem version_ihl (b : UInt8) : ((b &&& 0x0f) ||| 0x40) &&& 0xf0 ||| 0x05 = 0x45 := by
  obtain ⟨b⟩ := b
  revert b
  decide

theorem bytesAt_add (mem : ℕ → UInt8) (a m n : ℕ) :
    bytesAt mem a (m + n) = bytesAt mem a m ++ bytesAt mem (a + m) n := by
  simp [bytesAt, List.range_add, add_assoc]

/-- Less is read of the same bytes. -/
theorem take_bytesAt (mem : ℕ → UInt8) (a : ℕ) {m n : ℕ} (h : m ≤ n) :
    (bytesAt mem a n).take m = bytesAt mem a m := by
  rw [bytesAt, ← List.map_take, List.take_range, min_eq_left h, bytesAt]

/-- What was written is read. -/
theorem bytesAt_memcpy (h : src.length = n) : bytesAt (memcpy mem a src) a n = src := by
  subst h
  exact map_memcpy mem a src

/-- A write elsewhere is not seen. -/
theorem bytesAt_memcpy_of_disjoint (h : a + n ≤ dst ∨ dst + src.length ≤ a) :
    bytesAt (memcpy mem dst src) a n = bytesAt mem a n := by
  refine List.map_congr_left fun j hj => ?_
  have hj := List.mem_range.mp hj
  exact dif_neg (by omega)

theorem loadU16_memcpy_of_disjoint (h : a + 2 ≤ dst ∨ dst + src.length ≤ a) :
    loadU16 (memcpy mem dst src) a = loadU16 mem a := by
  have hlow : memcpy mem dst src a = mem a := dif_neg (by omega)
  have hhigh : memcpy mem dst src (a + 1) = mem (a + 1) := dif_neg (by omega)
  rw [loadU16, hlow, hhigh, loadU16]

theorem memcpy_singleton (mem : ℕ → UInt8) (a : ℕ) (b : UInt8) : memcpy mem a [b] a = b := by
  simp [memcpy]

@[simp] theorem length_le16 (x : UInt16) : (le16 x).length = 2 := by simp [le16]

@[simp] theorem length_le32 (x : UInt32) : (le32 x).length = 4 := by simp [le32]

/-! ## The headers -/

/-- The IPv4 header of a packet, with some identification. -/
def ipv4HeaderOf (metadata : KtMetadata) (packetId : UInt16) : Ipv4Header where
  tos := 0
  totalLength := (20 + 6 + 2 + metadata.size).toUInt16
  packetId := packetId
  fragment := 0
  ttl := 64
  protocol := 17
  src := metadata.ipSrc
  dst := metadata.ipDst

/-- The frame of a UDP packet, with some identification. -/
def udpFrameOf (pkt : Packet) (packetId : UInt16) : UdpFrame :=
  udpFrame pkt.metadata.ethDst.toList pkt.metadata.ethSrc.toList (ipv4HeaderOf pkt.metadata packetId)
    srcPort pkt.metadata.udpDport pkt.payload

/-- The header before its checksum; the identification is what the buffer held. -/
theorem bytesAt_ipv4Fields (metadata : KtMetadata) (data : ℕ → UInt8) :
    bytesAt (ipv4Fields metadata data) 14 20 =
      (ipv4HeaderOf metadata (loadU16 data 18)).bytesWith 0 := by
  have hfields : ∀ mem, bytesAt mem 14 20 =
      bytesAt mem 14 1 ++ bytesAt mem 15 1 ++ bytesAt mem 16 2 ++ bytesAt mem 18 2 ++
        bytesAt mem 20 2 ++ bytesAt mem 22 1 ++ bytesAt mem 23 1 ++ bytesAt mem 24 2 ++
        bytesAt mem 26 4 ++ bytesAt mem 30 4 := fun _ => rfl
  rw [hfields]
  simp only [ipv4Fields, rteCpuToBe16, rteCpuToBe32, le16_ntohs, le32_ntohl, le16_zero,
    memcpy_singleton, version_ihl]
  simp (disch := simp) only [bytesAt_memcpy, bytesAt_memcpy_of_disjoint, loadU16_memcpy_of_disjoint]
  rfl

section headers

variable {rteIpv4Cksum : List UInt8 → UInt16} {metadata : KtMetadata} {data : ℕ → UInt8}

/-- What the documentation of `rte_ipv4_cksum` says: over a header of twenty bytes whose checksum
field is zero it computes the checksum of RFC 1071, and returns it such that it can be stored as it
is. -/
def IsIpv4Cksum (rteIpv4Cksum : List UInt8 → UInt16) : Prop :=
  ∀ header : List UInt8, header.length = 20 → header.head? = some 0x45 →
    (header.drop 10).take 2 = [0, 0] → le16 (rteIpv4Cksum header) = be16 (checksum header)

/-- The parts of the header before its checksum. -/
theorem bytesAt_ipv4Fields_parts (metadata : KtMetadata) (data : ℕ → UInt8) :
    bytesAt (ipv4Fields metadata data) 14 10 = (ipv4HeaderOf metadata (loadU16 data 18)).front ∧
      bytesAt (ipv4Fields metadata data) 26 8 = (ipv4HeaderOf metadata (loadU16 data 18)).back := by
  have hparts := bytesAt_ipv4Fields metadata data
  rw [bytesAt_add _ 14 10 10, bytesAt_add _ 24 2 8] at hparts
  obtain ⟨hfront, hrest⟩ := List.append_inj hparts rfl
  exact ⟨hfront, (List.append_inj hrest rfl).2⟩

/-- The header in front of its checksum, whatever the checksum is. -/
theorem bytesAt_prepareIpv4_front :
    bytesAt (prepareIpv4 rteIpv4Cksum metadata data) 14 10 =
      (ipv4HeaderOf metadata (loadU16 data 18)).front := by
  rw [prepareIpv4, bytesAt_memcpy_of_disjoint (.inl (by norm_num))]
  exact (bytesAt_ipv4Fields_parts metadata data).1

theorem bytesAt_prepareIpv4 (hcksum : IsIpv4Cksum rteIpv4Cksum) :
    bytesAt (prepareIpv4 rteIpv4Cksum metadata data) 14 20 =
      (ipv4HeaderOf metadata (loadU16 data 18)).bytes := by
  set h := ipv4HeaderOf metadata (loadU16 data 18)
  have hstored : le16 (rteIpv4Cksum (h.bytesWith 0)) = be16 (checksum (h.bytesWith 0)) :=
    hcksum _ rfl rfl rfl
  rw [bytesAt_add _ 14 10 10, bytesAt_add _ 24 2 8, bytesAt_prepareIpv4_front, prepareIpv4,
    bytesAt_ipv4Fields, hstored, bytesAt_memcpy (length_be16 _),
    bytesAt_memcpy_of_disjoint (.inr (by simp)), (bytesAt_ipv4Fields_parts metadata data).2]
  rfl

/-- What the IPv4 header leaves alone. -/
theorem bytesAt_prepareIpv4_of_disjoint (h : a + n ≤ 14 ∨ 34 ≤ a) :
    bytesAt (prepareIpv4 rteIpv4Cksum metadata data) a n = bytesAt data a n := by
  simp only [prepareIpv4, ipv4Fields]
  rcases h with h | h
  all_goals
    simp (disch := simp; omega) only [bytesAt_memcpy_of_disjoint]

theorem bytesAt_prepareUdp :
    bytesAt (prepareUdp metadata data) 34 8 = be16 srcPort ++ (be16 metadata.udpDport ++
      (be16 (8 + metadata.size).toUInt16 ++ be16 0)) := by
  have hfields : ∀ mem, bytesAt mem 34 8 = bytesAt mem 34 2 ++ (bytesAt mem 36 2 ++
      (bytesAt mem 38 2 ++ bytesAt mem 40 2)) := fun _ => rfl
  rw [hfields]
  simp only [prepareUdp, rteCpuToBe16, le16_ntohs, le16_zero]
  simp (disch := simp) only [bytesAt_memcpy, bytesAt_memcpy_of_disjoint]

/-- What the UDP header leaves alone. -/
theorem bytesAt_prepareUdp_of_disjoint (h : a + n ≤ 34 ∨ 42 ≤ a) :
    bytesAt (prepareUdp metadata data) a n = bytesAt data a n := by
  simp only [prepareUdp]
  rcases h with h | h
  all_goals
    simp (disch := simp; omega) only [bytesAt_memcpy_of_disjoint]

end headers

/-! ## The frame -/

section frames

variable {rteIpv4Cksum : List UInt8 → UInt16} (txBuf : RteMbuf) (pkt : Packet)

/-- A length field, computed in 64 bits from the size of the payload. -/
theorem toNat_length_field (hsize : pkt.metadata.size.toNat = pkt.payload.length)
    (hlt : 42 + pkt.payload.length < 2 ^ 16) {k : UInt64} (hk : k.toNat ≤ 42) :
    (k + pkt.metadata.size).toNat = k.toNat + pkt.payload.length := by
  rw [UInt64.toNat_add, hsize, Nat.mod_eq_of_lt (by omega)]

/-- The length of the frame of a UDP packet, in the 32 bits of its field. -/
theorem toNat_pktLen_udp (hudp : pkt.metadata.transport = .udp)
    (hsize : pkt.metadata.size.toNat = pkt.payload.length) :
    (preparePacket rteIpv4Cksum txBuf pkt).pktLen.toNat = (42 + pkt.payload.length) % 2 ^ 32 := by
  have hsum : (14 + 20 + 8 + pkt.metadata.size).toNat = (42 + pkt.payload.length) % 2 ^ 64 := by
    rw [UInt64.toNat_add, hsize]
    rfl
  simp only [preparePacket, hudp, if_true]
  rw [UInt64.toNat_toUInt32, hsum, Nat.mod_mod_of_dvd _ (by norm_num)]

/-- The bytes that are written for a UDP packet, layer by layer. -/
theorem bytesAt_preparePacket_udp (hcksum : IsIpv4Cksum rteIpv4Cksum)
    (hudp : pkt.metadata.transport = .udp) :
    bytesAt (preparePacket rteIpv4Cksum txBuf pkt).data 0 (42 + pkt.payload.length) =
      pkt.metadata.ethDst.toList ++ (pkt.metadata.ethSrc.toList ++ (be16 0x0800 ++
        ((ipv4HeaderOf pkt.metadata (loadU16 txBuf.data 18)).bytes ++
          ((be16 srcPort ++ (be16 pkt.metadata.udpDport ++
            (be16 (8 + pkt.metadata.size).toUInt16 ++ be16 0))) ++ pkt.payload)))) := by
  have hsplit : ∀ mem n, bytesAt mem 0 (42 + n) = bytesAt mem 0 6 ++ (bytesAt mem 6 6 ++
      (bytesAt mem 12 2 ++ (bytesAt mem 14 20 ++ (bytesAt mem 34 8 ++ bytesAt mem 42 n)))) := by
    intro mem n
    have hheaders : bytesAt mem 0 42 = bytesAt mem 0 6 ++ (bytesAt mem 6 6 ++ (bytesAt mem 12 2 ++
        (bytesAt mem 14 20 ++ bytesAt mem 34 8))) := rfl
    rw [bytesAt_add, hheaders]
    simp only [List.append_assoc, zero_add]
  rw [hsplit]
  simp only [preparePacket, hudp, if_true, htons, le16_ntohs]
  simp (disch := simp) only [bytesAt_memcpy, bytesAt_memcpy_of_disjoint, bytesAt_prepareUdp,
    bytesAt_prepareUdp_of_disjoint, bytesAt_prepareIpv4 hcksum, bytesAt_prepareIpv4_of_disjoint,
    loadU16_memcpy_of_disjoint]

/-- **The frame of a UDP packet** is the frame of a datagram with the addresses and the port of its
metadata, whatever the buffer held; only the identification comes from there. -/
theorem frame_udp (hcksum : IsIpv4Cksum rteIpv4Cksum) (hudp : pkt.metadata.transport = .udp)
    (hsize : pkt.metadata.size.toNat = pkt.payload.length) (hlt : 42 + pkt.payload.length < 2 ^ 16) :
    let buf := preparePacket rteIpv4Cksum txBuf pkt
    let f := udpFrameOf pkt (loadU16 txBuf.data 18)
    buf.frame = f.eth.bytes ∧ parseFrame buf.frame = some f ∧
      f.ip.totalLength.toNat = 28 + pkt.payload.length ∧
      buf.pktLen.toNat = 42 + pkt.payload.length ∧ buf.dataLen.toNat = 42 + pkt.payload.length := by
  intro buf f
  have hlength {k : UInt64} (hk : k.toNat ≤ 42) := toNat_length_field pkt hsize hlt hk
  have htotal : (20 + 6 + 2 + pkt.metadata.size).toUInt16.toNat = 28 + pkt.payload.length := by
    rw [UInt64.toNat_toUInt16, hlength (by decide), Nat.mod_eq_of_lt (by simp; omega)]
    rfl
  have hdgram : (8 + pkt.metadata.size).toUInt16 = UInt16.ofNat (8 + pkt.payload.length) := by
    refine UInt16.toNat_inj.mp ?_
    rw [UInt64.toNat_toUInt16, hlength (by decide), UInt16.toNat_ofNat']
    rfl
  have hpktLen : buf.pktLen.toNat = 42 + pkt.payload.length := by
    rw [toNat_pktLen_udp txBuf pkt hudp hsize, Nat.mod_eq_of_lt (by omega)]
  have hdataLen : buf.dataLen = buf.pktLen.toUInt16 := by
    simp only [buf, preparePacket, hudp, if_true]
  have hframe : buf.frame = f.eth.bytes := by
    rw [RteMbuf.frame, hpktLen, bytesAt_preparePacket_udp txBuf pkt hcksum hudp, hdgram]
    simp only [f, udpFrameOf, udpFrame, Ethernet.bytes, udpBytes, List.append_assoc]
  refine ⟨hframe, ?_, htotal, hpktLen, ?_⟩
  · rw [hframe]
    exact parseFrame_udpFrame (Vector.length_toList ..) (Vector.length_toList ..) rfl rfl _ _ htotal
  · rw [hdataLen, UInt32.toNat_toUInt16, hpktLen, Nat.mod_eq_of_lt hlt]

/-- A raw frame is made of its payload alone: the addresses that were written first lie under it or
behind the frame. -/
theorem frame_eq_take (hraw : pkt.metadata.transport = .ethernet)
    (hsize : pkt.metadata.size.toNat = pkt.payload.length) :
    (preparePacket rteIpv4Cksum txBuf pkt).frame =
      pkt.payload.take (pkt.payload.length % 2 ^ 32) := by
  have hother : pkt.metadata.transport ≠ .udp := by simp [hraw]
  have hlen : pkt.metadata.size.toUInt32.toNat = pkt.payload.length % 2 ^ 32 := by
    rw [UInt64.toNat_toUInt32, hsize]
  simp only [RteMbuf.frame, preparePacket, hother, if_false, hlen]
  rw [← take_bytesAt _ 0 (Nat.mod_le pkt.payload.length (2 ^ 32)), bytesAt_memcpy rfl]

/-- **The frame of a raw packet** is its payload. -/
theorem frame_ethernet (hraw : pkt.metadata.transport = .ethernet)
    (hsize : pkt.metadata.size.toNat = pkt.payload.length) (hlt : pkt.payload.length < 2 ^ 32) :
    (preparePacket rteIpv4Cksum txBuf pkt).frame = pkt.payload := by
  rw [frame_eq_take txBuf pkt hraw hsize, Nat.mod_eq_of_lt hlt, List.take_length]

end frames

/-- What the receiver of a frame should read out of it, for a message to a destination in network
byte order. -/
structure Carries (buf : RteMbuf) (f : UdpFrame) (req : SendReq) (sAddr : UInt32) (sinPort : UInt16) :
    Prop where
  srcMac : f.eth.src = req.interface.mac.toList
  dstMac : f.eth.dst = List.replicate 6 0xff
  etherType : f.eth.etherType = 0x0800
  version : f.ip.version = 4
  headerLength : f.ip.headerLength = 20
  srcAddr : f.ip.src = ntohl req.interface.addr
  dstAddr : f.ip.dst = ntohl sAddr
  dstPort : f.udp.dstPort = ntohs sinPort
  lengths : f.ip.totalLength.toNat = f.ip.headerLength + f.udp.length ∧
    f.udp.length = 8 + f.udp.body.length ∧ buf.pktLen.toNat = 14 + f.ip.totalLength.toNat ∧
    buf.dataLen.toNat = buf.pktLen.toNat
  cksum : Verifies ((buf.frame.drop 14).take 20)
  payload : f.udp.body = req.iov0

section agreement

variable {rteIpv4Cksum : List UInt8 → UInt16} (txBuf : RteMbuf) {req : SendReq}

theorem toNat_metadata_size (m : KtMetadata) (hfits : req.iov0.length ≤ dataRoom) :
    (req.metadata m).size.toNat = req.iov0.length := by
  have hroom : dataRoom = 2048 := rfl
  rw [req.metadata_size, UInt64.toNat_ofNat', Nat.mod_eq_of_lt (by omega)]

/-- The frame of what `sendmsg_inet` writes. -/
theorem carries_inet (hcksum : IsIpv4Cksum rteIpv4Cksum) {sAddr : UInt32} {sinPort : UInt16}
    (hpath : req.path = .inet sAddr sinPort) (hfits : 42 + req.iov0.length ≤ dataRoom)
    (m : KtMetadata) :
    let buf := preparePacket rteIpv4Cksum txBuf ⟨req.iov0, req.metadata m⟩
    ∃ f, parseFrame buf.frame = some f ∧ Carries buf f req sAddr sinPort := by
  intro buf
  have hroom : dataRoom = 2048 := rfl
  have hmetadata : req.metadata m = sendmsgInetMetadata req sAddr sinPort m := by
    simp only [SendReq.metadata, hpath]
  have hsize := toNat_metadata_size m (show req.iov0.length ≤ dataRoom by omega)
  rw [hmetadata] at hsize
  obtain ⟨hframe, hparse, htotal, hpktLen, hdataLen⟩ := frame_udp txBuf
    ⟨req.iov0, sendmsgInetMetadata req sAddr sinPort m⟩ hcksum rfl hsize
    (show 42 + req.iov0.length < 2 ^ 16 by omega)
  simp only [buf, hmetadata]
  refine ⟨_, hparse, ?_⟩
  exact
    { srcMac := rfl
      dstMac := rfl
      etherType := rfl
      version := rfl
      headerLength := rfl
      srcAddr := rfl
      dstAddr := rfl
      dstPort := rfl
      lengths := by
        refine ⟨htotal.trans (add_assoc 20 8 _), rfl, ?_, hdataLen.trans hpktLen.symm⟩
        rw [hpktLen, htotal]
        exact add_assoc 14 28 _
      cksum := by
        rw [hframe, udpFrameOf,
          ipv4Header_udpFrame (Vector.length_toList ..) (Vector.length_toList ..)]
        exact Ipv4Header.verifies_bytes _
      payload := rfl }

/-- The frame of what `sendmsg_packet` writes. -/
theorem frame_packet (hpath : req.path = .packet) (hfits : req.iov0.length ≤ dataRoom)
    (m : KtMetadata) :
    (preparePacket rteIpv4Cksum txBuf ⟨req.iov0, req.metadata m⟩).frame = req.iov0 := by
  have hroom : dataRoom = 2048 := rfl
  have hraw : (req.metadata m).transport = .ethernet := by
    simp only [SendReq.metadata, hpath, sendmsgPacketMetadata]
  have hsize := toNat_metadata_size m hfits
  exact frame_ethernet txBuf ⟨_, _⟩ hraw hsize (show req.iov0.length < 2 ^ 32 by omega)

end agreement

/-- **Sender and daemon agree on the frame.** Whatever the buffers held: for an IPv4 destination,
the frame that the daemon builds from what the client has written is accepted by the reader of UDP
frames and carries the message; for a raw packet it is the payload. -/
theorem frame_agreement {ι : Type} [DecidableEq ι] {rteIpv4Cksum : List UInt8 → UInt16}
    (hcksum : IsIpv4Cksum rteIpv4Cksum) (txBuf : RteMbuf) {s s' : State ι} {c : ι} {i : UInt64}
    {req : SendReq} (hc : s.clients c = .taken i req) (hfill : clientFill s c = some s') :
    let buf := preparePacket rteIpv4Cksum txBuf (s'.packet i)
    (∀ sAddr sinPort, req.path = .inet sAddr sinPort → 42 + req.iov0.length ≤ dataRoom →
      ∃ f, parseFrame buf.frame = some f ∧ Carries buf f req sAddr sinPort) ∧
    (req.path = .packet → req.iov0.length ≤ dataRoom → buf.frame = req.iov0) := by
  intro buf
  have hroom : dataRoom = 2048 := rfl
  have hbuf : req.iov0.length ≤ dataRoom →
      buf = preparePacket rteIpv4Cksum txBuf ⟨req.iov0, req.metadata (s.metadataPool i.toNat)⟩ := by
    intro hfits
    simp only [clientFill, hc, Option.some.injEq] at hfill
    subst hfill
    exact congrArg (preparePacket rteIpv4Cksum txBuf)
      (packet_of_filled (by omega) rfl (Function.update_self ..))
  refine ⟨?_, ?_⟩
  · intro sAddr sinPort hpath hfits
    rw [hbuf (by omega)]
    exact carries_inet txBuf hcksum hpath hfits _
  · intro hpath hfits
    rw [hbuf hfits]
    exact frame_packet txBuf hpath hfits _

/-- A client that has taken the buffer with index 5, and nothing else. -/
def oneTaken (req : SendReq) : State Unit where
  freeRing := ⟨4, 1, 3, 3, ⟨0, 0⟩, ⟨0, 0⟩, fun _ => 0⟩
  txRing := ⟨4, 1, 3, 3, ⟨0, 0⟩, ⟨0, 0⟩, fun _ => 0⟩
  mbufPool := fun _ => 0
  metadataPool := fun _ => ⟨.ethernet, 0, ktMulticastMac, ktMulticastMac, 0, 0, 0, 0⟩
  prioQueue := ⟨fun _ => ⟨0, 0⟩, 3, 0⟩
  clients := fun _ => .taken 5 req
  daemon := .top
  wire := []

/-- A byte from 192.168.0.1 to port 12345 of 192.168.0.2, and the same byte as a raw packet, in a
buffer full of ones. -/
theorem frame_agreement_one_byte :
    let interface : KtInterface := ⟨0x0100a8c0, #v[2, 0, 0, 0, 0, 1]⟩
    let datagram : SendReq := ⟨.inet 0x0200a8c0 0x3930, interface, [7], 0⟩
    let raw : SendReq := ⟨.packet, interface, [7], 0⟩
    let cksum := fun header => ntohs (checksum header)
    let txBuf : RteMbuf := ⟨fun _ => 0xff, 0, 0, none, 1⟩
    (∃ s', clientFill (oneTaken datagram) () = some s' ∧
      ∃ f, parseFrame (preparePacket cksum txBuf (s'.packet 5)).frame = some f ∧
        Carries (preparePacket cksum txBuf (s'.packet 5)) f datagram 0x0200a8c0 0x3930) ∧
    ∃ s', clientFill (oneTaken raw) () = some s' ∧
      (preparePacket cksum txBuf (s'.packet 5)).frame = [7] := by
  intro interface datagram raw cksum txBuf
  have hcksum : IsIpv4Cksum cksum := fun header _ _ _ => le16_ntohs _
  have htaken : ∀ req, (oneTaken req).clients () = .taken 5 req := fun _ => rfl
  refine ⟨⟨_, rfl, ?_⟩, ⟨_, rfl, ?_⟩⟩
  · exact (frame_agreement hcksum txBuf (htaken datagram) rfl).1 _ _ rfl (by decide)
  · exact (frame_agreement hcksum txBuf (htaken raw) rfl).2 rfl (by decide)

end KuberneTSN.Sched
