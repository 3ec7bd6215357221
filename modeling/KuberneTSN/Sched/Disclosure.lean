import KuberneTSN.Sched.Frame

/-!
# What a frame discloses

The daemon takes the DPDK buffer of a frame out of a pool, with whatever the frame before it has
left there. Two runs of `prepare_packet` on one packet and on two buffers are compared, byte by
byte of the frame.

* `bytesAt_preparePacket_parts` — of the first twenty bytes of a UDP frame, eighteen come from the
  metadata, and the last two are what the buffer held, swapped;
* `discloses_payload` — so the identification of a datagram is two bytes of the payload of the raw
  packet that the buffer carried before;
* `independent_iff_raw_of_fits` — of the frames that a buffer has room for, the raw ones alone are
  functions of the packet;
* `frame_independent_iff` — for any length, so are UDP frames that end before the identification.
-/

namespace KuberneTSN.Sched

open Lib.Wire

/-- The frame of a packet is the same in every buffer. -/
def Independent (rteIpv4Cksum : List UInt8 → UInt16) (pkt : Packet) : Prop :=
  ∀ buf₁ buf₂ : RteMbuf,
    (preparePacket rteIpv4Cksum buf₁ pkt).frame = (preparePacket rteIpv4Cksum buf₂ pkt).frame

/-! ## Reading bytes -/

/-- Two memories hold the same bytes from the start on, up to some address. -/
theorem bytesAt_zero_eq_iff {mem mem' : ℕ → UInt8} {n : ℕ} :
    bytesAt mem 0 n = bytesAt mem' 0 n ↔ ∀ a < n, mem a = mem' a := by
  simp only [bytesAt, List.map_inj_left, List.mem_range, zero_add]

/-- A number in memory is sent with its two bytes swapped. -/
theorem be16_loadU16 (mem : ℕ → UInt8) (a : ℕ) : be16 (loadU16 mem a) = [mem (a + 1), mem a] := by
  simp only [be16, loadU16, List.cons.injEq, and_true]
  refine ⟨byte_eq_of_bits fun i hi => ?_, byte_eq_of_bits fun i hi => ?_⟩
  all_goals interval_cases i <;> simp

/-! ## The bytes of a UDP frame -/

section udp

variable (rteIpv4Cksum : List UInt8 → UInt16) (txBuf : RteMbuf) {pkt : Packet}

/-- The bytes up to the checksum, whatever the checksum is. -/
theorem bytesAt_preparePacket_front (hudp : pkt.metadata.transport = .udp) :
    bytesAt (preparePacket rteIpv4Cksum txBuf pkt).data 0 24 =
      pkt.metadata.ethDst.toList ++ (pkt.metadata.ethSrc.toList ++ (be16 0x0800 ++
        (ipv4HeaderOf pkt.metadata (loadU16 txBuf.data 18)).front)) := by
  have hsplit : ∀ mem, bytesAt mem 0 24 =
      bytesAt mem 0 6 ++ (bytesAt mem 6 6 ++ (bytesAt mem 12 2 ++ bytesAt mem 14 10)) :=
    fun _ => rfl
  rw [hsplit]
  simp only [preparePacket, hudp, if_true, htons, le16_ntohs]
  simp (disch := simp) only [bytesAt_memcpy, bytesAt_memcpy_of_disjoint,
    bytesAt_prepareUdp_of_disjoint, bytesAt_prepareIpv4_front, bytesAt_prepareIpv4_of_disjoint,
    loadU16_memcpy_of_disjoint]

/-- The bytes in front of the identification come from the metadata, and the identification from
the buffer. -/
theorem bytesAt_preparePacket_parts (hudp : pkt.metadata.transport = .udp) :
    bytesAt (preparePacket rteIpv4Cksum txBuf pkt).data 0 18 =
        pkt.metadata.ethDst.toList ++ (pkt.metadata.ethSrc.toList ++ (be16 0x0800 ++
          (0x45 :: 0 :: be16 (20 + 6 + 2 + pkt.metadata.size).toUInt16))) ∧
      bytesAt (preparePacket rteIpv4Cksum txBuf pkt).data 18 2 =
        [txBuf.data 19, txBuf.data 18] := by
  have hfront := bytesAt_preparePacket_front rteIpv4Cksum txBuf hudp
  have hregroup : ∀ id, pkt.metadata.ethDst.toList ++ (pkt.metadata.ethSrc.toList ++
      (be16 0x0800 ++ (ipv4HeaderOf pkt.metadata id).front)) =
      (pkt.metadata.ethDst.toList ++ (pkt.metadata.ethSrc.toList ++ (be16 0x0800 ++
        (0x45 :: 0 :: be16 (20 + 6 + 2 + pkt.metadata.size).toUInt16)))) ++
      (be16 id ++ (be16 0 ++ [64, 17])) := by
    intro id
    simp only [Ipv4Header.front, ipv4HeaderOf, List.append_assoc, List.cons_append]
  rw [bytesAt_add _ 0 18 6, bytesAt_add _ 18 2 4, hregroup] at hfront
  obtain ⟨hhead, hrest⟩ := List.append_inj hfront (by simp [bytesAt])
  refine ⟨hhead, ?_⟩
  rw [← be16_loadU16]
  exact (List.append_inj hrest (by simp [bytesAt])).1

end udp

/-! ## Two buffers -/

section buffers

variable (rteIpv4Cksum : List UInt8 → UInt16) {pkt : Packet}

/-- A UDP frame that reaches beyond byte 18 shows byte 19 of the buffer. -/
theorem frame_ne_of_old_byte (hudp : pkt.metadata.transport = .udp)
    (hsize : pkt.metadata.size.toNat = pkt.payload.length)
    (hlong : 18 < (42 + pkt.payload.length) % 2 ^ 32) (buf₁ buf₂ : RteMbuf)
    (hold : buf₁.data 19 ≠ buf₂.data 19) :
    (preparePacket rteIpv4Cksum buf₁ pkt).frame ≠ (preparePacket rteIpv4Cksum buf₂ pkt).frame := by
  have hbyte : ∀ buf, (preparePacket rteIpv4Cksum buf pkt).data 18 = buf.data 19 := fun buf =>
    (List.cons.inj (bytesAt_preparePacket_parts rteIpv4Cksum buf hudp).2).1
  intro heq
  rw [RteMbuf.frame, RteMbuf.frame, toNat_pktLen_udp buf₁ pkt hudp hsize,
    toNat_pktLen_udp buf₂ pkt hudp hsize, bytesAt_zero_eq_iff] at heq
  apply hold
  rw [← hbyte buf₁, ← hbyte buf₂]
  exact heq 18 hlong

/-- A UDP frame that ends before its identification comes from the metadata alone. -/
theorem independent_of_short (hudp : pkt.metadata.transport = .udp)
    (hsize : pkt.metadata.size.toNat = pkt.payload.length)
    (hshort : (42 + pkt.payload.length) % 2 ^ 32 ≤ 18) : Independent rteIpv4Cksum pkt := by
  intro buf₁ buf₂
  rw [RteMbuf.frame, RteMbuf.frame, toNat_pktLen_udp buf₁ pkt hudp hsize,
    toNat_pktLen_udp buf₂ pkt hudp hsize, ← take_bytesAt _ 0 hshort,
    ← take_bytesAt _ 0 hshort, (bytesAt_preparePacket_parts rteIpv4Cksum buf₁ hudp).1,
    (bytesAt_preparePacket_parts rteIpv4Cksum buf₂ hudp).1]

/-- A raw frame is the payload alone. -/
theorem independent_of_raw (hraw : pkt.metadata.transport = .ethernet)
    (hsize : pkt.metadata.size.toNat = pkt.payload.length) : Independent rteIpv4Cksum pkt := by
  intro buf₁ buf₂
  rw [frame_eq_take buf₁ pkt hraw hsize, frame_eq_take buf₂ pkt hraw hsize]

/-- A UDP frame with an identification depends on the buffer. -/
theorem not_independent_of_long (hudp : pkt.metadata.transport = .udp)
    (hsize : pkt.metadata.size.toNat = pkt.payload.length)
    (hlong : 18 < (42 + pkt.payload.length) % 2 ^ 32) : ¬ Independent rteIpv4Cksum pkt := by
  intro hind
  -- a buffer full of zeros and one full of ones differ in byte 19
  exact frame_ne_of_old_byte rteIpv4Cksum hudp hsize hlong
    ⟨fun _ => 0, 0, 0, none, 1⟩ ⟨fun _ => 0xff, 0, 0, none, 1⟩ (by decide) (hind _ _)

/-- **When a frame that fits in the data room of a buffer discloses nothing**: it is too short for
its length to wrap, and so exactly when it is raw. -/
theorem independent_iff_raw_of_fits (hsize : pkt.metadata.size.toNat = pkt.payload.length)
    (hfits : 42 + pkt.payload.length ≤ dataRoom) :
    Independent rteIpv4Cksum pkt ↔ pkt.metadata.transport = .ethernet := by
  have hroom : dataRoom = 2048 := rfl
  cases htransport : pkt.metadata.transport with
  | ethernet => exact iff_of_true (independent_of_raw rteIpv4Cksum htransport hsize) rfl
  | udp =>
    refine iff_of_false ?_ Transport.noConfusion
    exact not_independent_of_long rteIpv4Cksum htransport hsize (by omega)

/-- **When a frame discloses nothing.** The frame is a function of the payload and the metadata if
and only if the packet is a raw packet, or the length of the datagram wraps in 32 bits to one that
ends before the identification.

The memory of the buffer has no end here, so that this is about every length; for the lengths that a
buffer has room for, see `independent_iff_raw_of_fits`. -/
theorem frame_independent_iff (pkt : Packet)
    (hsize : pkt.metadata.size.toNat = pkt.payload.length) :
    Independent rteIpv4Cksum pkt ↔
      pkt.metadata.transport = .ethernet ∨ (42 + pkt.payload.length) % 2 ^ 32 ≤ 18 := by
  cases htransport : pkt.metadata.transport with
  | ethernet => exact iff_of_true (independent_of_raw rteIpv4Cksum htransport hsize) (.inl rfl)
  | udp =>
    refine ⟨fun hind => .inr ?_, fun h => ?_⟩
    · by_contra hlong
      exact not_independent_of_long rteIpv4Cksum htransport hsize (not_le.mp hlong) hind
    · have hshort := h.resolve_left (by simp)
      exact independent_of_short rteIpv4Cksum htransport hsize hshort

/-- The byte 7 as a packet of either kind, between two hosts. -/
def oneByte (transport : Transport) : Packet :=
  ⟨[7], ⟨transport, 0, ktMulticastMac, ktMulticastMac, 0xc0a80001, 0xc0a80002, 12345, 1⟩⟩

/-- Nothing is disclosed by the raw frame of one byte. -/
theorem frame_independent_raw_byte :
    Independent (fun header => ntohs (checksum header)) (oneByte .ethernet) :=
  (frame_independent_iff _ (oneByte .ethernet) rfl).mpr (.inl rfl)

/-- **A datagram discloses the packet before it.** In a buffer that has carried a raw packet of at
least twenty bytes, the identification of a datagram is two bytes of that packet. -/
theorem discloses_payload (txBuf : RteMbuf) {prev : Packet}
    (hraw : prev.metadata.transport = .ethernet) (hlong : 20 ≤ prev.payload.length)
    (hudp : pkt.metadata.transport = .udp) :
    let buf := preparePacket rteIpv4Cksum txBuf prev
    bytesAt (preparePacket rteIpv4Cksum buf pkt).data 18 2 =
      [prev.payload[19], prev.payload[18]] := by
  intro buf
  have hother : prev.metadata.transport ≠ .udp := by simp [hraw]
  have hbuf : ∀ a, (ha : a < prev.payload.length) → buf.data a = prev.payload[a] := by
    intro a ha
    simp only [buf, preparePacket, hother, if_false]
    exact dif_pos ⟨Nat.zero_le a, by omega⟩
  rw [(bytesAt_preparePacket_parts rteIpv4Cksum buf hudp).2, hbuf 19 (by omega),
    hbuf 18 (by omega)]

/-- One datagram, in the buffer that has carried a raw packet of twenty bytes: its frame tells
whether these were zeros or ones. -/
theorem frame_discloses_last_packet :
    let cksum := fun header => ntohs (checksum header)
    let raw (b : UInt8) : Packet := ⟨List.replicate 20 b, { (oneByte .ethernet).metadata with
      size := 20 }⟩
    let txBuf : RteMbuf := ⟨fun _ => 0, 0, 0, none, 1⟩
    let after (b : UInt8) := preparePacket cksum txBuf (raw b)
    (preparePacket cksum (after 0) (oneByte .udp)).frame ≠
      (preparePacket cksum (after 1) (oneByte .udp)).frame := by
  intro cksum raw txBuf after
  apply frame_ne_of_old_byte cksum rfl rfl (by decide)
  have hbyte : ∀ b, (after b).data 19 = b := by
    intro b
    rfl
  rw [hbyte, hbyte]
  decide

end buffers

end KuberneTSN.Sched
