import KuberneTSN.Sched.Basic

/-!
# Isolation of the buffers

The buffers of all clients lie side by side in one pool, as records of 2048 bytes, and a client
copies its message into its record without asking how long the message is.

* `clientTake_eq_some`, `clientPut_eq_some` — what the actions of a call that returns have changed,
  in any state;
* `send_isolated_iff` — a call changes nothing but its own two records and the rings, if and only
  if every byte that does not fit in the record stands already where it is copied;
* `KeepsOthers.packet` — such a call leaves the packets of all other indices as they are;
* `run_keeps_packet` — and so does any interleaving of calls whose messages fit, with the actions of
  the daemon between them.
-/

namespace KuberneTSN.Sched

open Lib KuberneTSN.Ring KuberneTSN.Queue

/-! ## Frames -/

/-- The ring `rb'` has the geometry of `rb`, and behind its slots the same cells. -/
structure SameRoom (rb rb' : KtRingbuf) : Prop where
  size : rb'.size = rb.size
  esize : rb'.esize = rb.esize
  mask : rb'.mask = rb.mask
  capacity : rb'.capacity = rb.capacity
  beyond : ∀ a, rb.size.toNat ≤ a → rb'.slots a = rb.slots a

theorem SameRoom.refl (rb : KtRingbuf) : SameRoom rb rb := ⟨rfl, rfl, rfl, rfl, fun _ _ => rfl⟩

section frames

variable {ι : Type}

/-- Outside the mbuf pool, only the metadata record `i`, the counters and the slots of the rings,
and client `c` itself have changed. -/
structure KeepsRest (s s' : State ι) (c : ι) (i : UInt64) : Prop where
  metadata : ∀ j, j ≠ i.toNat → s'.metadataPool j = s.metadataPool j
  freeRing : SameRoom s.freeRing s'.freeRing
  txRing : SameRoom s.txRing s'.txRing
  prioQueue : s'.prioQueue = s.prioQueue
  clients : ∀ c', c' ≠ c → s'.clients c' = s.clients c'
  daemon : s'.daemon = s.daemon
  wire : s'.wire = s.wire

/-- In the mbuf pool, only the record `i` has changed. -/
structure KeepsOthers (s s' : State ι) (c : ι) (i : UInt64) : Prop extends KeepsRest s s' c i where
  mbufs : ∀ a, a < mbufAt i ∨ mbufAt i + 2048 ≤ a → s'.mbufPool a = s.mbufPool a

/-- A packet is made of the metadata of its index and of the bytes of its buffer. -/
theorem packet_congr {s s' : State ι} {j : UInt64}
    (hmetadata : s'.metadataPool j.toNat = s.metadataPool j.toNat)
    (hbytes : ∀ n < (s.metadataPool j.toNat).size.toNat,
      s'.mbufPool (mbufAt j + n) = s.mbufPool (mbufAt j + n)) : s'.packet j = s.packet j := by
  unfold State.packet
  rw [hmetadata]
  congr 1
  apply List.map_congr_left
  intro n hn
  exact hbytes n (List.mem_range.mp hn)

/-- The records of two indices do not overlap. -/
theorem mbufAt_disjoint {i j : UInt64} (hne : j ≠ i) {n : ℕ} (hn : n < 2048) :
    mbufAt j + n < mbufAt i ∨ mbufAt i + 2048 ≤ mbufAt j + n := by
  have hnat : j.toNat ≠ i.toNat := fun h => hne (UInt64.toNat_inj.mp h)
  unfold mbufAt
  omega

/-- **The packets of other indices stay as they are.** -/
theorem KeepsOthers.packet {s s' : State ι} {c : ι} {i j : UInt64} (h : KeepsOthers s s' c i)
    (hne : j ≠ i) (hfits : (s.metadataPool j.toNat).size.toNat ≤ 2048) :
    s'.packet j = s.packet j := by
  apply packet_congr
  · exact h.metadata _ fun heq => hne (UInt64.toNat_inj.mp heq)
  · intro n hn
    exact h.mbufs _ (mbufAt_disjoint hne (hn.trans_le hfits))

/-- A copy to `d` changes nothing outside of the `r` bytes from there on, exactly when every further
byte stands already where it is copied. -/
theorem memcpy_outside_iff {mem : ℕ → UInt8} {d r : ℕ} {src : List UInt8} :
    (∀ a, a < d ∨ d + r ≤ a → memcpy mem d src a = mem a) ↔
      ∀ j, r ≤ j → (hj : j < src.length) → mem (d + j) = src[j] := by
  constructor
  · intro h j hrj hj
    have hsame := h (d + j) (.inr (by omega))
    rw [memcpy, dif_pos ⟨by omega, by omega⟩] at hsame
    simpa using hsame.symm
  · intro h a ha
    by_cases hin : d ≤ a ∧ a < d + src.length
    · have hsame := h (a - d) (by omega) (by omega)
      rw [Nat.add_sub_cancel' hin.1] at hsame
      rw [memcpy, dif_pos hin, hsame]
    · rw [memcpy, dif_neg hin]

end frames

/-! ## The actions of a call -/

section call

variable {ι : Type} [DecidableEq ι] {s s' s₁ s₂ : State ι} {c : ι} {i : UInt64} {req : SendReq}

/-- What the first action has changed. -/
theorem clientTake_eq_some (h : clientTake s c req = some s') :
    ∃ cons client, s' = { s with
      freeRing := { s.freeRing with cons := cons }
      clients := Function.update s.clients c client } := by
  unfold clientTake at h
  split at h
  · split at h
    · rename_i r hr
      obtain ⟨cons, hrb⟩ := ktRingbufDequeueBurst_frame hr
      cases h
      exact ⟨cons, _, by rw [hrb]⟩
    · cases h
  · cases h

/-- What the second action has changed. -/
theorem clientFill_eq_some (hc : s.clients c = .taken i req) (h : clientFill s c = some s') :
    s' = { s with
      mbufPool := memcpy s.mbufPool (mbufAt i) req.iov0
      metadataPool := Function.update s.metadataPool i.toNat (req.metadata (s.metadataPool i.toNat))
      clients := Function.update s.clients c (.filled i req) } := by
  unfold clientFill at h
  rw [hc] at h
  exact (Option.some.inj h).symm

/-- What the third action has changed. -/
theorem clientPut_eq_some (h : clientPut s c = some s') :
    ∃ prod slots client, s' = { s with
        txRing := { s.txRing with prod := prod, slots := slots }
        clients := Function.update s.clients c client } ∧
      ∀ a, a ≠ (s.txRing.prod.head &&& s.txRing.mask).toNat → slots a = s.txRing.slots a := by
  unfold clientPut at h
  split at h
  · split at h
    · rename_i r hr
      obtain ⟨prod, slots, hrb, hslots⟩ := ktRingbufEnqueueBurst_one_frame hr
      cases h
      exact ⟨prod, slots, _, by rw [hrb], hslots⟩
    · cases h
  · cases h

/-- Until its message is copied, a call has changed its metadata record and the free ring. -/
theorem keepsRest_fill (htake : clientTake s c req = some s₁) (hi : s₁.clients c = .taken i req)
    (hfill : clientFill s₁ c = some s₂) : KeepsRest s s₂ c i := by
  obtain ⟨cons, client, rfl⟩ := clientTake_eq_some htake
  obtain rfl := clientFill_eq_some hi hfill
  exact
    { metadata := fun j hj => Function.update_of_ne hj _ _
      freeRing := ⟨rfl, rfl, rfl, rfl, fun _ _ => rfl⟩
      txRing := .refl _
      prioQueue := rfl
      clients := fun c' hc' => by
        dsimp only
        rw [Function.update_of_ne hc', Function.update_of_ne hc']
      daemon := rfl
      wire := rfl }

/-- Then it changes the tx ring. -/
theorem KeepsRest.put {k : ℕ} (h : KeepsRest s s₂ c i) (hshape : Shape s.txRing k)
    (hput : clientPut s₂ c = some s') : KeepsRest s s' c i := by
  obtain ⟨prod, slots, client, rfl, hslots⟩ := clientPut_eq_some hput
  have hslot : ∀ a, s.txRing.size.toNat ≤ a → slots a = s.txRing.slots a := by
    intro a ha
    have hhead := hshape.slot_lt s₂.txRing.prod.head
    rw [← h.txRing.mask] at hhead
    exact (hslots a (hhead.trans_le ha).ne').trans (h.txRing.beyond a ha)
  exact
    { metadata := h.metadata
      freeRing := h.freeRing
      txRing := ⟨h.txRing.size, h.txRing.esize, h.txRing.mask, h.txRing.capacity, hslot⟩
      prioQueue := h.prioQueue
      clients := fun c' hc' => (Function.update_of_ne hc' _ _).trans (h.clients c' hc')
      daemon := h.daemon
      wire := h.wire }

/-- **When sending does not disturb other packets.** A call that takes the index `i`, once it has
copied its message or returned, has changed nothing but the records `i` of the two pools and the
counters and slots of the rings, if and only if every byte of the message that does not fit in a
record stands already where it is copied.

The pool has no end here. In the segment it ends after 127 records, with the metadata records behind
it: for a message that runs over its end, the bytes beyond are those of the metadata, so that
`s.mbufPool` has to show what these hold. -/
theorem send_isolated_iff {k : ℕ} (hshape : Shape s.txRing k)
    (htake : clientTake s c req = some s₁) (hi : s₁.clients c = .taken i req)
    (hfill : clientFill s₁ c = some s₂) (hput : s' = s₂ ∨ clientPut s₂ c = some s') :
    KeepsOthers s s' c i ↔
      ∀ j, 2048 ≤ j → (hj : j < req.iov0.length) → s.mbufPool (mbufAt i + j) = req.iov0[j] := by
  have hrest : KeepsRest s s' c i := by
    have hfilled := keepsRest_fill htake hi hfill
    rcases hput with rfl | hput
    · exact hfilled
    · exact hfilled.put hshape hput
  have hpool : s'.mbufPool = memcpy s.mbufPool (mbufAt i) req.iov0 := by
    have hfilled : s₂.mbufPool = memcpy s.mbufPool (mbufAt i) req.iov0 := by
      obtain ⟨cons, client, rfl⟩ := clientTake_eq_some htake
      rw [clientFill_eq_some hi hfill]
    rcases hput with rfl | hput
    · exact hfilled
    · obtain ⟨prod, slots, client, rfl, -⟩ := clientPut_eq_some hput
      exact hfilled
  rw [← memcpy_outside_iff, ← hpool]
  exact ⟨fun h => h.mbufs, fun h => ⟨hrest, h⟩⟩

end call

/-! ## Any interleaving -/

section interleaving

variable {ι : Type} [DecidableEq ι] {s s' s₀ : State ι} {a : Act ι} {tr : List (State ι × Act ι)}

/-- Only the second action of a call writes to the pools. -/
theorem schedStep_pools (hfill : ∀ c, a ≠ .fill c) (hs : schedStep s a = some s') :
    s'.mbufPool = s.mbufPool ∧ s'.metadataPool = s.metadataPool := by
  cases a with
  | take c req =>
      obtain ⟨cons, client, rfl⟩ := clientTake_eq_some hs
      exact ⟨rfl, rfl⟩
  | fill c => exact absurd rfl (hfill c)
  | put c =>
      obtain ⟨prod, slots, client, rfl, -⟩ := clientPut_eq_some hs
      exact ⟨rfl, rfl⟩
  | dequeue =>
      simp only [schedStep, daemonDequeue] at hs
      split at hs <;> [split at hs; skip] <;> cases hs
      exact ⟨rfl, rfl⟩
  | insert =>
      simp only [schedStep, daemonInsert] at hs
      split at hs
      · obtain ⟨⟨ret, q⟩, -, hq⟩ := Option.bind_eq_some_iff.mp hs
        cases hq
        exact ⟨rfl, rfl⟩
      · cases hs
  | schedule now =>
      simp only [schedStep, daemonSchedule] at hs
      split at hs
      · split_ifs at hs
        · cases hs
          exact ⟨rfl, rfl⟩
        · cases hs
          exact ⟨rfl, rfl⟩
        all_goals
          obtain ⟨⟨ret, i, q⟩, -, hq⟩ := Option.bind_eq_some_iff.mp hs
          cases hq
          exact ⟨rfl, rfl⟩
      · cases hs
  | transmit =>
      simp only [schedStep, daemonTransmit] at hs
      split at hs <;> cases hs
      exact ⟨rfl, rfl⟩
  | recycle =>
      simp only [schedStep, daemonRecycle] at hs
      split at hs <;> [split at hs; skip] <;> cases hs
      exact ⟨rfl, rfl⟩

/-- The action does not fill the buffer `j`, and what it copies elsewhere fits. -/
def Spares (j : UInt64) (s : State ι) (a : Act ι) : Prop :=
  ∀ c i req, a = .fill c → s.clients c = .taken i req → i ≠ j ∧ req.iov0.length ≤ 2048

/-- One action. -/
theorem schedStep_keeps_packet {j : UInt64}
    (hfits : (s.metadataPool j.toNat).size.toNat ≤ 2048) (hok : Spares j s a)
    (hs : schedStep s a = some s') : s'.packet j = s.packet j := by
  by_cases hfill : ∃ c, a = .fill c
  · obtain ⟨c, rfl⟩ := hfill
    cases hc : s.clients c with
    | idle ret => simp [schedStep, clientFill, hc] at hs
    | filled i req => simp [schedStep, clientFill, hc] at hs
    | taken i req =>
        obtain ⟨hne, hlen⟩ := hok c i req rfl hc
        obtain rfl := clientFill_eq_some hc hs
        apply packet_congr
        · exact Function.update_of_ne (fun heq => hne (UInt64.toNat_inj.mp heq).symm) _ _
        · intro n hn
          refine memcpy_outside_iff.mpr ?_ _ (mbufAt_disjoint hne.symm (hn.trans_le hfits))
          intro b hb hlt
          exact absurd (hb.trans_lt hlt) hlen.not_gt
  · obtain ⟨hmbufs, hmetadata⟩ := schedStep_pools (fun c hc => hfill ⟨c, hc⟩) hs
    exact packet_congr (by rw [hmetadata]) fun n _ => by rw [hmbufs]

/-- **Packets survive any interleaving**: while nobody fills its buffer and all messages fit, a
packet stays as it is, whatever the clients and the daemon do. -/
theorem run_keeps_packet {j : UInt64} (hrun : Run schedStep s₀ tr s)
    (hfits : (s₀.metadataPool j.toNat).size.toNat ≤ 2048) (hok : ∀ p ∈ tr, Spares j p.1 p.2) :
    s.packet j = s₀.packet j := by
  refine hrun.invariant (I := fun t => t.packet j = s₀.packet j) rfl ?_ hok
  intro t a t' hsame hspares hs
  have hmetadata : t.metadataPool j.toNat = s₀.metadataPool j.toNat :=
    congrArg Packet.metadata hsame
  exact (schedStep_keeps_packet (by rwa [hmetadata]) hspares hs).trans hsame

end interleaving

/-! ## Two records -/

/-- Record 0 is free, and record 1 holds a packet of one byte that waits in the tx ring. -/
def oneWaiting : State Unit where
  freeRing := ⟨4, 1, 3, 3, ⟨1, 1⟩, ⟨0, 0⟩, fun _ => 0⟩
  txRing := ⟨4, 1, 3, 3, ⟨1, 1⟩, ⟨0, 0⟩, fun _ => 1⟩
  mbufPool := fun _ => 5
  metadataPool := fun _ => ⟨.ethernet, 0, ktMulticastMac, ktMulticastMac, 0, 0, 0, 1⟩
  prioQueue := ⟨fun _ => ⟨0, 0⟩, 3, 0⟩
  clients := fun _ => .idle none
  daemon := .top
  wire := []

/-- A call in this state takes the index 0 and succeeds. -/
theorem oneWaiting_send (req : SendReq) :
    ∃ s₁ s₂ s', clientTake oneWaiting () req = some s₁ ∧ s₁.clients () = .taken 0 req ∧
      clientFill s₁ () = some s₂ ∧ clientPut s₂ () = some s' ∧
      s'.clients () = .idle (some req.iov0.length) ∧
      s'.mbufPool = memcpy oneWaiting.mbufPool 0 req.iov0 ∧
      s'.metadataPool 1 = oneWaiting.metadataPool 1 := by
  let s₁ : State Unit :=
    { oneWaiting with
      freeRing := ⟨4, 1, 3, 3, ⟨1, 1⟩, ⟨1, 1⟩, fun _ => 0⟩
      clients := Function.update oneWaiting.clients () (.taken 0 req) }
  let s₂ : State Unit :=
    { s₁ with
      mbufPool := memcpy oneWaiting.mbufPool 0 req.iov0
      metadataPool := Function.update oneWaiting.metadataPool 0
        (req.metadata (oneWaiting.metadataPool 0))
      clients := Function.update s₁.clients () (.filled 0 req) }
  let s' : State Unit :=
    { s₂ with
      txRing := ⟨4, 1, 3, 3, ⟨2, 2⟩, ⟨0, 0⟩, Function.update (fun _ => 1) 1 0⟩
      clients := Function.update s₂.clients () (.idle (some req.iov0.length)) }
  have hburst : ktRingbufEnqueueBurst ⟨4, 1, 3, 3, ⟨1, 1⟩, ⟨0, 0⟩, fun _ => 1⟩ (fun _ => 0) 8 1 =
      .ok ⟨s'.txRing, 1, 1, [1]⟩ := rfl
  have hput : clientPut s₂ () = some s' := by
    rw [clientPut, show s₂.clients () = .filled 0 req from rfl,
      show s₂.txRing = ⟨4, 1, 3, 3, ⟨1, 1⟩, ⟨0, 0⟩, fun _ => 1⟩ from rfl]
    simp only [hburst]
    rfl
  exact ⟨s₁, s₂, s', rfl, rfl, rfl, hput, rfl, rfl, rfl⟩

/-- A raw message of `n` sevens. -/
def sevens (n : ℕ) : SendReq := ⟨.packet, ⟨0, ktMulticastMac⟩, List.replicate n 7, 0⟩

/-- A message of one byte does not disturb the packet that waits. -/
theorem send_isolated_iff_one_byte :
    ∃ s₁ s₂ s', clientTake oneWaiting () (sevens 1) = some s₁ ∧
      clientFill s₁ () = some s₂ ∧ clientPut s₂ () = some s' ∧ KeepsOthers oneWaiting s' () 0 := by
  obtain ⟨s₁, s₂, s', htake, hi, hfill, hput, -⟩ := oneWaiting_send (sevens 1)
  have hshape : Shape oneWaiting.txRing 2 := ⟨by decide, rfl, rfl, rfl⟩
  refine ⟨s₁, s₂, s', htake, hfill, hput, ?_⟩
  refine (send_isolated_iff hshape htake hi hfill (.inr hput)).mpr ?_
  intro j hj hlt
  rw [sevens, List.length_replicate] at hlt
  omega

/-- **A message of 2049 bytes changes the packet of the next index**, and the call succeeds. -/
theorem send_overwrites_next_packet :
    ∃ s₁ s₂ s', clientTake oneWaiting () (sevens 2049) = some s₁ ∧
      s₁.clients () = .taken 0 (sevens 2049) ∧
      clientFill s₁ () = some s₂ ∧ clientPut s₂ () = some s' ∧
      s'.clients () = .idle (some 2049) ∧
      (oneWaiting.packet 1).payload = [5] ∧ (s'.packet 1).payload = [7] := by
  obtain ⟨s₁, s₂, s', htake, hi, hfill, hput, hret, hpool, hmetadata⟩ :=
    oneWaiting_send (sevens 2049)
  have hlength : (sevens 2049).iov0.length = 2049 := List.length_replicate
  rw [hlength] at hret
  have hbyte : s'.mbufPool 2048 = 7 := by
    rw [hpool, memcpy, dif_pos ⟨Nat.zero_le _, by omega⟩]
    exact List.getElem_replicate _
  have hpayload : (s'.packet 1).payload = [s'.mbufPool 2048] := by
    simp only [State.packet]
    rw [show (1 : UInt64).toNat = 1 from rfl, hmetadata]
    rfl
  refine ⟨s₁, s₂, s', htake, hi, hfill, hput, hret, rfl, ?_⟩
  rw [hpayload, hbyte]

end KuberneTSN.Sched
