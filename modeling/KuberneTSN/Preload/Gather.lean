import KuberneTSN.Preload.Sendmsg

/-!
# Gathered messages

A `struct msghdr` describes its message by a list of iovecs, which libc sends one after the other
as a whole. The preloaded `sendmsg` hands the list on as it is, or schedules the message itself, and
then looks at the first iovec only.

* `sendmsg_first` — a message that is scheduled, with a free buffer and room on the tx ring, is sent
  as its first iovec, and the length of that is returned;
* `gathered_whole_iff` — so it is sent whole if and only if there is a first iovec and nothing in
  the others.
-/

namespace KuberneTSN.Preload

open KuberneTSN.Ring KuberneTSN.Sched

/-- The message of a list of iovecs. -/
def Msghdr.gathered (msg : Msghdr) : List UInt8 := msg.iov.flatten

/-- The call returns the length of the message, and has put it on the tx ring as one packet. -/
def SentWhole {ι : Type} [DecidableEq ι] (libc : Int32 → Msghdr → Int32 → ℤ) (lib : Library)
    (s : State ι) (c : ι) (fd : Int32) (msg : Msghdr) (flags : Int32) : Prop :=
  ∃ o i, sendmsg libc lib s c fd msg flags = some o ∧ o.ret = .value msg.gathered.length ∧
    contents o.state.txRing = contents s.txRing ++ [i] ∧
    (o.state.packet i).payload = msg.gathered ∧
    (o.state.packet i).metadata.size.toNat = msg.gathered.length

variable {ι : Type} [DecidableEq ι] (libc : Int32 → Msghdr → Int32 → ℤ) (flags : Int32)
  {lib : Library} {s : State ι} {c : ι} {fd : Int32} {msg : Msghdr} {k P C k' P' C' : ℕ}
  {ret : Option ℤ}

/-- A message that is scheduled goes to the tx ring, or fails to. -/
theorem sendmsg_of_scheduled (hfree : RingAt s.freeRing k P C) (htx : RingAt s.txRing k' P' C')
    (hc : s.clients c = .idle ret) (hsched : ¬ Unscheduled lib fd msg) :
    ∃ o txtime, sendmsg libc lib s c fd msg flags = some o ∧ QueueEnd k' s msg txtime o := by
  unfold Unscheduled at hsched
  push Not at hsched
  obtain ⟨hsocket, hnode⟩ := hsched
  obtain ⟨node, hfind⟩ := Option.ne_none_iff_exists'.mp hsocket
  obtain ⟨hflag, htimed, hinterface, -⟩ := hnode node hfind
  obtain ⟨txtime, htxtime⟩ := Option.ne_none_iff_exists'.mp htimed
  obtain ⟨interface, hmatch⟩ := Option.ne_none_iff_exists'.mp hinterface
  obtain ⟨path, hqueue⟩ : ∃ path, sendmsg libc lib s c fd msg flags =
      sendmsgQueue s c msg (sendReq msg path interface txtime) :=
    sendmsg_of_interface hfind hflag htxtime hmatch
  obtain ⟨o, ho, hend⟩ := sendmsgQueue_spec msg hfree htx hc path interface txtime
  exact ⟨o, txtime, hqueue.trans ho, hend⟩

section accepted

variable (hfree : RingAt s.freeRing k P C) (htx : RingAt s.txRing k' P' C')
  (hc : s.clients c = .idle ret) (hsched : ¬ Unscheduled lib fd msg)
  (hbuffer : contents s.freeRing ≠ []) (hroom : (contents s.txRing).length < 2 ^ k' - 1)

include hfree htx hc hsched hbuffer hroom

/-- **What is sent of a message** is its first iovec. -/
theorem sendmsg_first {iov0 : List UInt8} {rest : List (List UInt8)}
    (hiov : msg.iov = iov0 :: rest) (hfits : iov0.length ≤ mbufSize) :
    ∃ o i, sendmsg libc lib s c fd msg flags = some o ∧ o.ret = .value iov0.length ∧
      contents o.state.txRing = contents s.txRing ++ [i] ∧
      (o.state.packet i).payload = iov0 ∧
      (o.state.packet i).metadata.size.toNat = iov0.length := by
  obtain ⟨o, txtime, ho, hend⟩ := sendmsg_of_scheduled libc flags hfree htx hc hsched
  cases hend with
  | refused hfull => exact absurd hfull (not_or.mpr ⟨hbuffer, not_le.mpr hroom⟩)
  | fault _ hnot => exact absurd ((firstFits_iff_of_cons hiov).mpr hfits) hnot
  | queued hiov' hfits' hret _ _ happ hpayload _ hsize =>
      obtain ⟨rfl, rfl⟩ := List.cons.inj (hiov.symm.trans hiov')
      refine ⟨o, _, ho, hret, happ, hpayload, ?_⟩
      have hsmall : mbufSize = 2048 := rfl
      rw [hsize, UInt64.toNat_ofNat', Nat.mod_eq_of_lt (by omega)]

/-- **When a gathered message is sent whole.** A message of at most 2048 bytes that is scheduled,
with a free buffer and room on the tx ring, is sent whole if and only if there is a first iovec and
all others are empty. -/
theorem gathered_whole_iff (htotal : msg.gathered.length ≤ mbufSize) :
    SentWhole libc lib s c fd msg flags ↔
      ∃ iov0 rest, msg.iov = iov0 :: rest ∧ ∀ iov ∈ rest, iov = [] := by
  cases hiov : msg.iov with
  | nil =>
      -- the source reads an iovec behind the empty list
      refine iff_of_false ?_ (by simp)
      rintro ⟨o', i, ho', hret', -⟩
      obtain ⟨o, txtime, ho, hend⟩ := sendmsg_of_scheduled libc flags hfree htx hc hsched
      obtain rfl := Option.some.inj (ho.symm.trans ho')
      cases hend with
      | refused hfull => exact absurd hfull (not_or.mpr ⟨hbuffer, not_le.mpr hroom⟩)
      | fault _ _ hret => exact absurd (hret.symm.trans hret') (by simp)
      | queued hiov' => exact absurd (hiov.symm.trans hiov') (by simp)
  | cons iov0 rest =>
      have hgathered : msg.gathered = iov0 ++ rest.flatten := by
        rw [Msghdr.gathered, hiov, List.flatten_cons]
      rw [hgathered, List.length_append] at htotal
      obtain ⟨o, i, ho, hret, happ, hpayload, hsize⟩ := sendmsg_first libc flags hfree htx hc hsched
        hbuffer hroom hiov (by omega)
      constructor
      · rintro ⟨o', i', ho', hret', -⟩
        obtain rfl := Option.some.inj (ho.symm.trans ho')
        rw [hret, hgathered, List.length_append, Ret.value.injEq] at hret'
        have hnil : rest.flatten = [] := List.eq_nil_of_length_eq_zero (by omega)
        exact ⟨iov0, rest, rfl, List.flatten_eq_nil_iff.mp hnil⟩
      · rintro ⟨_, _, ⟨rfl, rfl⟩, hempty⟩
        have hwhole : msg.gathered = iov0 := by
          rw [hgathered, List.flatten_eq_nil_iff.mpr hempty, List.append_nil]
        unfold SentWhole
        rw [hwhole]
        exact ⟨o, i, ho, hret, happ, hpayload, hsize⟩

end accepted

/-! ## Two messages -/

/-- The message of `timedMessage` in several iovecs. -/
def gatherMessage (name : SockAddr) (iov : List (List UInt8)) : Msghdr :=
  { timedMessage (some name) with iov := iov }

/-- An iovec of one byte and an empty one are sent whole. -/
theorem gathered_whole_iff_one_byte :
    SentWhole (fun _ _ _ => 0) (oneSocket afInet) oneFree () 3
      (gatherMessage ⟨0x3930, 0x0200a8c0⟩ [[7], []]) 0 := by
  obtain ⟨hfree, htx⟩ := oneFree_rings
  have hsched : ¬ Unscheduled (oneSocket afInet) 3 (gatherMessage ⟨0x3930, 0x0200a8c0⟩ [[7], []]) :=
    scheduled_of_interface rfl (by decide) rfl rfl
  refine (gathered_whole_iff _ _ hfree htx rfl hsched (by decide) (by decide) (by decide)).mpr ?_
  exact ⟨[7], [[]], rfl, by simp⟩

/-- **Of two iovecs of one byte the second is lost**, on either path, and the call returns 1. -/
theorem gathered_truncated :
    let inet := gatherMessage ⟨0x3930, 0x0200a8c0⟩ [[7], [8]]
    let packet := gatherMessage ⟨0, 2⟩ [[7], [8]]
    inet.gathered = [7, 8] ∧ packet.gathered = [7, 8] ∧
      (∃ o i, sendmsg (fun _ _ _ => 0) (oneSocket afInet) oneFree () 3 inet 0 = some o ∧
        o.ret = .value 1 ∧ contents o.state.txRing = [i] ∧ (o.state.packet i).payload = [7] ∧
        (o.state.packet i).metadata.size.toNat = 1) ∧
      (∃ o i, sendmsg (fun _ _ _ => 0) (oneSocket pfPacket) oneFree () 3 packet 0 = some o ∧
        o.ret = .value 1 ∧ contents o.state.txRing = [i] ∧ (o.state.packet i).payload = [7] ∧
        (o.state.packet i).metadata.size.toNat = 1) := by
  intro inet packet
  obtain ⟨hfree, htx⟩ := oneFree_rings
  have hinet : ¬ Unscheduled (oneSocket afInet) 3 inet :=
    scheduled_of_interface rfl (by decide) rfl rfl
  have hpacket : ¬ Unscheduled (oneSocket pfPacket) 3 packet :=
    scheduled_of_interface rfl (by decide) rfl rfl
  refine ⟨rfl, rfl, ?_, ?_⟩
  · exact sendmsg_first _ _ hfree htx rfl hinet (by decide) (by decide) rfl (by decide)
  · exact sendmsg_first _ _ hfree htx rfl hpacket (by decide) (by decide) rfl (by decide)

end KuberneTSN.Preload
