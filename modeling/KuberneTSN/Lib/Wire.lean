import Mathlib

/-!
# Ethernet, IPv4 and UDP on the wire

Numbers in network order, the checksum of RFC 1071, and readers for the three layers of a UDP
frame. A reader takes what its layer prescribes and refuses everything else; what a layer carries
is the part of the bytes that its own length fields give.

* `verifies_checksum` — a header with its checksum in place verifies;
* `parseEthernet_bytes`, `parseIpv4_bytes`, `parseUdp_bytes` — each layer is read back;
* `parseFrame_udpFrame` — so is a whole frame.
-/

namespace KuberneTSN.Lib.Wire

/-! ## Numbers in network order -/

/-- The two bytes of a number. -/
def be16 (x : UInt16) : List UInt8 := [(x >>> 8).toUInt8, x.toUInt8]

/-- The four bytes of a number. -/
def be32 (x : UInt32) : List UInt8 :=
  [(x >>> 24).toUInt8, (x >>> 16).toUInt8, (x >>> 8).toUInt8, x.toUInt8]

/-- The number of two bytes. -/
def ofBe16 (a b : UInt8) : UInt16 := UInt16.ofNat (2 ^ 8 * a.toNat + b.toNat)

/-- The number of four bytes. -/
def ofBe32 (a b c d : UInt8) : UInt32 :=
  UInt32.ofNat (2 ^ 24 * a.toNat + 2 ^ 16 * b.toNat + 2 ^ 8 * c.toNat + d.toNat)

@[simp] theorem length_be16 (x : UInt16) : (be16 x).length = 2 := by simp [be16]

@[simp] theorem length_be32 (x : UInt32) : (be32 x).length = 4 := by simp [be32]

@[simp] theorem ofBe16_be16 (x : UInt16) : ofBe16 (x >>> 8).toUInt8 x.toUInt8 = x := by
  have hx := x.toNat_lt
  have hhigh : (x >>> 8).toNat = x.toNat / 2 ^ 8 := by
    rw [UInt16.toNat_shiftRight, Nat.shiftRight_eq_div_pow]
    rfl
  refine UInt16.toNat_inj.mp ?_
  simp only [ofBe16, UInt16.toNat_ofNat', UInt16.toNat_toUInt8, hhigh]
  omega

@[simp] theorem ofBe32_be32 (x : UInt32) :
    ofBe32 (x >>> 24).toUInt8 (x >>> 16).toUInt8 (x >>> 8).toUInt8 x.toUInt8 = x := by
  have hx := x.toNat_lt
  have hshift : ∀ k : UInt32, k.toNat < 32 → (x >>> k).toNat = x.toNat / 2 ^ k.toNat := by
    intro k hk
    rw [UInt32.toNat_shiftRight, Nat.shiftRight_eq_div_pow, Nat.mod_eq_of_lt hk]
  have h₂₄ := hshift 24 (by decide)
  have h₁₆ := hshift 16 (by decide)
  have h₈ := hshift 8 (by decide)
  refine UInt32.toNat_inj.mp ?_
  simp only [ofBe32, UInt32.toNat_ofNat', UInt32.toNat_toUInt8, h₂₄, h₁₆, h₈, UInt32.reduceToNat]
  omega

/-! ## The checksum of RFC 1071 -/

/-- The 16-bit words of some bytes, the last one padded with a zero byte. -/
def words : List UInt8 → List UInt16
  | a :: b :: rest => ofBe16 a b :: words rest
  | [a] => [ofBe16 a 0]
  | [] => []

/-- Addition in ones' complement: the carry comes back at the low end. -/
def onesAdd (a b : ℕ) : ℕ := (a + b) % 2 ^ 16 + (a + b) / 2 ^ 16

/-- The ones' complement sum of some words. -/
def onesSum (ws : List UInt16) : ℕ := ws.foldl (fun sum w => onesAdd sum w.toNat) 0

/-- The checksum of some bytes is the complement of their sum. -/
def checksum (bytes : List UInt8) : UInt16 := UInt16.ofNat (2 ^ 16 - 1 - onesSum (words bytes))

/-- Bytes that hold their checksum sum up to all ones. -/
def Verifies (bytes : List UInt8) : Prop := onesSum (words bytes) = 2 ^ 16 - 1

instance (bytes : List UInt8) : Decidable (Verifies bytes) :=
  inferInstanceAs (Decidable (_ = _))

/-- Ones' complement arithmetic is arithmetic modulo `2 ^ 16 - 1`, with two representatives of
zero: a sum of zeros is `0`, and any other multiple of the modulus is all ones. -/
def onesNorm (n : ℕ) : ℕ := if n = 0 then 0 else (n - 1) % (2 ^ 16 - 1) + 1

theorem onesNorm_lt (n : ℕ) : onesNorm n < 2 ^ 16 := by
  unfold onesNorm
  split_ifs <;> omega

theorem onesAdd_onesNorm (n : ℕ) {w : ℕ} (hw : w < 2 ^ 16) :
    onesAdd (onesNorm n) w = onesNorm (n + w) := by
  unfold onesAdd onesNorm
  split_ifs <;> omega

theorem onesNorm_onesNorm_add (n w : ℕ) : onesNorm (onesNorm n + w) = onesNorm (n + w) := by
  unfold onesNorm
  split_ifs <;> omega

theorem onesSum_eq (ws : List UInt16) : onesSum ws = onesNorm (ws.map UInt16.toNat).sum := by
  suffices h : ∀ n, ws.foldl (fun sum w => onesAdd sum w.toNat) (onesNorm n) =
      onesNorm (n + (ws.map UInt16.toNat).sum) by
    simpa [onesSum, onesNorm] using h 0
  induction ws with
  | nil => simp
  | cons w ws ih =>
      intro n
      rw [List.foldl_cons, onesAdd_onesNorm n w.toNat_lt, ih]
      simp [add_assoc]

theorem words_append {a : List UInt8} (ha : Even a.length) (b : List UInt8) :
    words (a ++ b) = words a ++ words b := by
  induction a using words.induct with
  | case1 x y rest ih =>
      have hrest : Even rest.length := by
        simpa [Nat.even_add_one] using ha
      simp [words, ih hrest]
  | case2 x => simp at ha
  | case3 => rfl

/-- The sum of bytes with a number in their middle. -/
theorem onesSum_words_middle {a : List UInt8} (ha : Even a.length) (x : UInt16) (b : List UInt8) :
    onesSum (words (a ++ (be16 x ++ b))) =
      onesNorm (((words a).map UInt16.toNat).sum + ((words b).map UInt16.toNat).sum + x.toNat) := by
  rw [words_append ha, onesSum_eq]
  congr 1
  simp only [be16, words, List.cons_append, List.nil_append, ofBe16_be16, List.map_append,
    List.map_cons, List.sum_append, List.sum_cons]
  omega

/-- **A header with its checksum in place verifies**, if the checksum was taken with zeros there. -/
theorem verifies_checksum {a : List UInt8} (ha : Even a.length) (b : List UInt8) :
    Verifies (a ++ (be16 (checksum (a ++ (be16 0 ++ b))) ++ b)) := by
  unfold Verifies checksum
  rw [onesSum_words_middle ha, onesSum_words_middle ha]
  generalize ((words a).map UInt16.toNat).sum + ((words b).map UInt16.toNat).sum = n
  have hlt := onesNorm_lt n
  have hzero : (0 : UInt16).toNat = 0 := rfl
  rw [← onesNorm_onesNorm_add, hzero, add_zero, UInt16.toNat_ofNat', Nat.mod_eq_of_lt (by omega),
    Nat.add_sub_cancel' (by omega)]
  rfl

/-! ## The layers -/

/-- The 16-bit number at an offset. -/
def u16At (bytes : List UInt8) (i : ℕ) : Option UInt16 := do
  some (ofBe16 (← bytes[i]?) (← bytes[i + 1]?))

/-- The 32-bit number at an offset. -/
def u32At (bytes : List UInt8) (i : ℕ) : Option UInt32 := do
  some (ofBe32 (← bytes[i]?) (← bytes[i + 1]?) (← bytes[i + 2]?) (← bytes[i + 3]?))

/-- An Ethernet II frame, without its check sequence. -/
structure Ethernet where
  dst : List UInt8
  src : List UInt8
  etherType : UInt16
  body : List UInt8
  deriving DecidableEq, Repr

/-- The bytes of a frame. -/
def Ethernet.bytes (e : Ethernet) : List UInt8 := e.dst ++ (e.src ++ (be16 e.etherType ++ e.body))

/-- The reader of an Ethernet II frame. -/
def parseEthernet (bytes : List UInt8) : Option Ethernet := do
  some ⟨bytes.take 6, (bytes.drop 6).take 6, ← u16At bytes 12, bytes.drop 14⟩

/-- The fields of an IPv4 header, without the version, the header length and the checksum;
`fragment` has the flags and the offset. -/
structure Ipv4Header where
  tos : UInt8
  totalLength : UInt16
  packetId : UInt16
  fragment : UInt16
  ttl : UInt8
  protocol : UInt8
  src : UInt32
  dst : UInt32
  deriving DecidableEq, Repr

/-- An IPv4 packet; its options are not kept. -/
structure Ipv4 extends Ipv4Header where
  version : ℕ
  headerLength : ℕ
  body : List UInt8
  deriving DecidableEq, Repr

/-- What stands before the checksum of a header without options. -/
def Ipv4Header.front (h : Ipv4Header) : List UInt8 :=
  0x45 :: h.tos ::
    (be16 h.totalLength ++ (be16 h.packetId ++ (be16 h.fragment ++ [h.ttl, h.protocol])))

/-- What stands behind it. -/
def Ipv4Header.back (h : Ipv4Header) : List UInt8 := be32 h.src ++ be32 h.dst

/-- A header without options that holds some checksum. -/
def Ipv4Header.bytesWith (h : Ipv4Header) (cksum : UInt16) : List UInt8 :=
  h.front ++ (be16 cksum ++ h.back)

/-- A header without options. -/
def Ipv4Header.bytes (h : Ipv4Header) : List UInt8 := h.bytesWith (checksum (h.bytesWith 0))

/-- The reader of an IPv4 packet. The header has at least twenty bytes and verifies, and the packet
is all there. -/
def parseIpv4 (bytes : List UInt8) : Option Ipv4 := do
  let versionIhl ← bytes[0]?
  let h : Ipv4Header :=
    ⟨← bytes[1]?, ← u16At bytes 2, ← u16At bytes 4, ← u16At bytes 6, ← bytes[8]?, ← bytes[9]?,
      ← u32At bytes 12, ← u32At bytes 16⟩
  let version := versionIhl.toNat / 16
  let headerLength := 4 * (versionIhl.toNat % 16)
  let totalLength := h.totalLength.toNat
  if version = 4 ∧ 20 ≤ headerLength ∧ headerLength ≤ totalLength ∧ totalLength ≤ bytes.length ∧
      Verifies (bytes.take headerLength) then
    some ⟨h, version, headerLength, (bytes.take totalLength).drop headerLength⟩
  else none

/-- A UDP datagram. -/
structure Udp where
  srcPort : UInt16
  dstPort : UInt16
  length : ℕ
  body : List UInt8
  deriving DecidableEq, Repr

/-- A datagram without a checksum. -/
def udpBytes (srcPort dstPort : UInt16) (body : List UInt8) : List UInt8 :=
  be16 srcPort ++ (be16 dstPort ++ (be16 (UInt16.ofNat (8 + body.length)) ++ (be16 0 ++ body)))

/-- The reader of a UDP datagram between two addresses. The checksum, which also covers the
addresses, is tested unless it is zero. -/
def parseUdp (src dst : UInt32) (bytes : List UInt8) : Option Udp := do
  let srcPort ← u16At bytes 0
  let dstPort ← u16At bytes 2
  let length ← u16At bytes 4
  let cksum ← u16At bytes 6
  let datagram := bytes.take length.toNat
  if 8 ≤ length.toNat ∧ length.toNat ≤ bytes.length ∧
      (cksum = 0 ∨ Verifies (be32 src ++ be32 dst ++ [0, 17] ++ be16 length ++ datagram)) then
    some ⟨srcPort, dstPort, length.toNat, datagram.drop 8⟩
  else none

/-- A frame with the packet and the datagram inside it. -/
structure UdpFrame where
  eth : Ethernet
  ip : Ipv4
  udp : Udp
  deriving DecidableEq, Repr

/-- The reader of a frame with an unfragmented UDP datagram over IPv4. -/
def parseFrame (bytes : List UInt8) : Option UdpFrame := do
  let eth ← parseEthernet bytes
  if eth.etherType = 0x0800 then do
    let ip ← parseIpv4 eth.body
    if ip.protocol = 17 ∧ ip.fragment &&& 0x3fff = 0 then
      some ⟨eth, ip, ← parseUdp ip.src ip.dst ip.body⟩
    else none
  else none

/-! ## Round trips -/

theorem u16At_eq {bytes rest : List UInt8} {i : ℕ} {x : UInt16} (h : bytes.drop i = be16 x ++ rest) :
    u16At bytes i = some x := by
  have hget : ∀ j, bytes[i + j]? = (be16 x ++ rest)[j]? := by
    intro j
    rw [← h, List.getElem?_drop]
  rw [u16At, ← add_zero i, add_assoc, hget, hget]
  exact congrArg some (ofBe16_be16 x)

theorem u32At_eq {bytes rest : List UInt8} {i : ℕ} {x : UInt32} (h : bytes.drop i = be32 x ++ rest) :
    u32At bytes i = some x := by
  have hget : ∀ j, bytes[i + j]? = (be32 x ++ rest)[j]? := by
    intro j
    rw [← h, List.getElem?_drop]
  rw [u32At, ← add_zero i, add_assoc, add_assoc, add_assoc, hget, hget, hget, hget]
  exact congrArg some (ofBe32_be32 x)

section ethernet

variable {e : Ethernet} (hdst : e.dst.length = 6) (hsrc : e.src.length = 6)

include hdst hsrc

theorem Ethernet.drop_addresses : e.bytes.drop 12 = be16 e.etherType ++ e.body := by
  rw [Ethernet.bytes, ← List.append_assoc]
  exact List.drop_left' (by simp [hdst, hsrc])

theorem Ethernet.drop_header : e.bytes.drop 14 = e.body := by
  rw [← List.drop_drop (i := 2) (j := 12), e.drop_addresses hdst hsrc]
  exact List.drop_left' (length_be16 _)

theorem parseEthernet_bytes : parseEthernet e.bytes = some e := by
  have hsrc' : (e.bytes.drop 6).take 6 = e.src := by
    rw [Ethernet.bytes, List.drop_left' hdst, List.take_left' hsrc]
  have hdst' : e.bytes.take 6 = e.dst := List.take_left' hdst
  simp [parseEthernet, u16At_eq (e.drop_addresses hdst hsrc), e.drop_header hdst hsrc, hsrc', hdst']

end ethernet

theorem Ipv4Header.verifies_bytes (h : Ipv4Header) : Verifies h.bytes := by
  have hfront : Even h.front.length := ⟨5, rfl⟩
  exact verifies_checksum hfront h.back

theorem parseIpv4_bytes (h : Ipv4Header) {body : List UInt8}
    (hlen : h.totalLength.toNat = 20 + body.length) :
    parseIpv4 (h.bytes ++ body) = some ⟨h, 4, 20, body⟩ := by
  have hheader : h.bytes.length = 20 := rfl
  have hall : (h.bytes ++ body).length = h.totalLength.toNat := by
    rw [hlen, List.length_append, hheader]
  have hfields : parseIpv4 (h.bytes ++ body) =
      if 4 = 4 ∧ 20 ≤ 20 ∧ 20 ≤ h.totalLength.toNat ∧ h.totalLength.toNat ≤ (h.bytes ++ body).length ∧
          Verifies ((h.bytes ++ body).take 20) then
        some ⟨h, 4, 20, ((h.bytes ++ body).take h.totalLength.toNat).drop 20⟩
      else none := by
    rw [parseIpv4, u16At_eq (i := 2) (x := h.totalLength) rfl,
      u16At_eq (i := 4) (x := h.packetId) rfl, u16At_eq (i := 6) (x := h.fragment) rfl,
      u32At_eq (i := 12) (x := h.src) rfl,
      u32At_eq (i := 16) (x := h.dst) rfl]
    rfl
  rw [hfields, List.take_of_length_le hall.le, List.take_left' hheader, List.drop_left' hheader,
    if_pos]
  exact ⟨rfl, le_rfl, by omega, hall.ge, h.verifies_bytes⟩

theorem length_udpBytes (srcPort dstPort : UInt16) (body : List UInt8) :
    (udpBytes srcPort dstPort body).length = 8 + body.length := by
  simp only [udpBytes, List.length_append, length_be16]
  omega

theorem parseUdp_bytes (src dst : UInt32) (srcPort dstPort : UInt16) {body : List UInt8}
    (hlen : 8 + body.length < 2 ^ 16) :
    parseUdp src dst (udpBytes srcPort dstPort body) =
      some ⟨srcPort, dstPort, 8 + body.length, body⟩ := by
  have hlength : (UInt16.ofNat (8 + body.length)).toNat = 8 + body.length := by
    rw [UInt16.toNat_ofNat', Nat.mod_eq_of_lt hlen]
  have hall := length_udpBytes srcPort dstPort body
  have hsrc : u16At (udpBytes srcPort dstPort body) 0 = some srcPort := u16At_eq rfl
  rw [parseUdp, hsrc, u16At_eq (i := 2) (x := dstPort) rfl,
    u16At_eq (i := 4) (x := UInt16.ofNat (8 + body.length)) rfl, u16At_eq (i := 6) (x := 0) rfl]
  simp only [Option.bind_eq_bind, Option.bind_some, hlength, hall, List.take_of_length_le hall.le]
  rw [if_pos ⟨by omega, le_rfl, .inl trivial⟩]
  rfl

/-- A frame with a header without options and a datagram without a checksum. -/
def udpFrame (dst src : List UInt8) (h : Ipv4Header) (srcPort dstPort : UInt16) (body : List UInt8) :
    UdpFrame :=
  let datagram := udpBytes srcPort dstPort body
  { eth := ⟨dst, src, 0x0800, h.bytes ++ datagram⟩
    ip := ⟨h, 4, 20, datagram⟩
    udp := ⟨srcPort, dstPort, 8 + body.length, body⟩ }

/-- Where the IPv4 header stands in a frame. -/
theorem ipv4Header_udpFrame {dst src : List UInt8} (hdst : dst.length = 6) (hsrc : src.length = 6)
    (h : Ipv4Header) (srcPort dstPort : UInt16) (body : List UInt8) :
    ((udpFrame dst src h srcPort dstPort body).eth.bytes.drop 14).take 20 = h.bytes := by
  rw [Ethernet.drop_header hdst hsrc]
  exact List.take_left' rfl

/-- **A frame with an unfragmented datagram is read back.** -/
theorem parseFrame_udpFrame {dst src : List UInt8} (hdst : dst.length = 6) (hsrc : src.length = 6)
    {h : Ipv4Header} (hprotocol : h.protocol = 17) (hfragment : h.fragment = 0)
    (srcPort dstPort : UInt16) {body : List UInt8} (hlen : h.totalLength.toNat = 28 + body.length) :
    parseFrame (udpFrame dst src h srcPort dstPort body).eth.bytes =
      some (udpFrame dst src h srcPort dstPort body) := by
  have hlt := h.totalLength.toNat_lt
  have hdatagram := length_udpBytes srcPort dstPort body
  have hip : parseIpv4 (h.bytes ++ udpBytes srcPort dstPort body) =
      some ⟨h, 4, 20, udpBytes srcPort dstPort body⟩ := parseIpv4_bytes h (by omega)
  have hudp := parseUdp_bytes h.src h.dst srcPort dstPort (show 8 + body.length < 2 ^ 16 by omega)
  rw [parseFrame, parseEthernet_bytes hdst hsrc]
  simp only [udpFrame, Option.bind_eq_bind, Option.bind_some, hip, hudp, hprotocol, hfragment]
  rfl

end KuberneTSN.Lib.Wire
