import KuberneTSN.Sched.Intact
import KuberneTSN.Sched.Refinement
import KuberneTSN.Sched.Segment

/-!
# What the parties touch in the shared segment

Each action of a client or of the daemon reads and writes bytes of the two rings and the two pools:
a call on a ring its header and the slots of its burst, a client the bytes of its message and the
metadata of its buffer, the daemon the same when it sends.

* `lt_of_mem_owned` — the indices in the system are those of the 127 buffers;
* `accesses_inside` — in every run whose steps are sound, what is touched lies in the areas that the
  set-up has laid out, so that the arrays of the model are those of the segment (`segment_shared`).
-/

set_option linter.unusedSectionVars false

namespace KuberneTSN.Sched

open Lib KuberneTSN.Ring KuberneTSN.Queue

variable {ι : Type} [DecidableEq ι] [Fintype ι] {s s₀ : State ι} {a : Act ι} {c : ι} {i : UInt64}
  {req : SendReq} {tr : List (State ι × Act ι)}

/-! ## Accesses -/

/-- The bytes of a ring that a call touches: those of its header, and those of the slots of its
burst. -/
def ringBytes (slots : List ℕ) : Set ℕ :=
  {j | j < 128 ∨ ∃ k ∈ slots, 128 + 8 * k ≤ j ∧ j < 128 + 8 * k + 8}

/-- The bytes that a burst of one index into the ring touches. -/
def enqueueBytes (rb : KtRingbuf) (i : UInt64) : Set ℕ :=
  match ktRingbufEnqueueBurst rb (fun _ => i) 8 1 with
  | .ok r => ringBytes r.touched
  | .error _ => ∅

/-- The bytes that a burst of up to `n` indices out of the ring touches. -/
def dequeueBytes (rb : KtRingbuf) (n : UInt32) : Set ℕ :=
  match ktRingbufDequeueBurst rb (fun _ => 0) 8 n with
  | .ok r => ringBytes r.touched
  | .error _ => ∅

/-- The first `len` bytes of buffer `i`. -/
def mbufBytes (i : UInt64) (len : ℕ) : Set ℕ := Set.Ico (mbufAt i) (mbufAt i + len)

/-- The bytes of the metadata of buffer `i`, with `sizeof(struct kt_metadata) = 48`. -/
def metadataBytes (i : UInt64) : Set ℕ := Set.Ico (48 * i.toNat) (48 * i.toNat + 48)

/-- The bytes of an area that an action touches. Source: `libktsn.c`, lines 309–344 and 357–389, and
`ktsnd.c` `main`, lines 321–409. -/
def accessed (s : State ι) : Act ι → Area → Set ℕ
  | .take _ _, .freeRing => dequeueBytes s.freeRing 1
  | .fill c, .mbufPool =>
      match s.clients c with
      | .taken i req => mbufBytes i req.iov0.length
      | _ => ∅
  | .fill c, .metadataPool =>
      match s.clients c with
      | .taken i _ => metadataBytes i
      | _ => ∅
  | .put c, .txRing =>
      match s.clients c with
      | .filled i _ => enqueueBytes s.txRing i
      | _ => ∅
  | .dequeue, .txRing => dequeueBytes s.txRing 8
  | .insert, .metadataPool =>
      match s.daemon with
      | .insert (i :: _) => metadataBytes i
      | _ => ∅
  | .transmit, .mbufPool =>
      match s.daemon with
      | .transmit i => mbufBytes i (s.metadataPool i.toNat).size.toNat
      | _ => ∅
  | .transmit, .metadataPool =>
      match s.daemon with
      | .transmit i => metadataBytes i
      | _ => ∅
  | .recycle, .freeRing =>
      match s.daemon with
      | .recycle i => enqueueBytes s.freeRing i
      | _ => ∅
  | _, _ => ∅

/-! ## Bounds -/

/-- The indices in the system are those of the 127 buffers. -/
theorem lt_of_mem_owned (h : Started s₀) (hrun : Run schedStep s₀ tr s)
    (hfits : ∀ p ∈ tr, DequeueFits p.1 p.2) (hi : i ∈ s.owned) : i.toNat < poolCount := by
  have hmem : i ∈ ((List.range 127).map UInt64.ofNat : List UInt64) := by
    rw [← Multiset.mem_coe, ← run_owned_balance h hrun hfits]
    exact Multiset.mem_add.mpr (.inl hi)
  obtain ⟨n, hn, rfl⟩ := List.mem_map.mp hmem
  rw [List.mem_range] at hn
  rw [UInt64.toNat_ofNat_of_lt' (hn.trans (by decide))]
  exact hn

/-- The slots of a burst that starts in the array and has at most eight elements. -/
theorem ringBytes_subset {slots : List ℕ} {P m : ℕ} (hslots : slots = (List.range m).map (P % 2 ^ 7 + ·))
    (hm : m ≤ 8) : ringBytes slots ⊆ Set.Iio (slotRoom 128) := by
  have hroom : slotRoom 128 = 2160 := by decide
  rintro j (hj | ⟨k, hk, -, hj⟩)
  · rw [Set.mem_Iio]
    omega
  · rw [hslots, List.mem_map] at hk
    obtain ⟨n, hn, rfl⟩ := hk
    rw [List.mem_range] at hn
    rw [Set.mem_Iio]
    omega

theorem enqueueBytes_subset {rb : KtRingbuf} {P C : ℕ} (h : RingAt rb 7 P C) (i : UInt64) :
    enqueueBytes rb i ⊆ Set.Iio (slotRoom 128) := by
  obtain ⟨r, hr, hspec⟩ := ktRingbufEnqueueBurst_spec h (fun _ => i) 1
  unfold enqueueBytes
  rw [hr]
  exact ringBytes_subset hspec.touched ((Nat.min_le_left _ _).trans (by decide))

theorem dequeueBytes_subset {rb : KtRingbuf} {P C : ℕ} (h : RingAt rb 7 P C) {n : UInt32}
    (hn : n.toNat ≤ 8) : dequeueBytes rb n ⊆ Set.Iio (slotRoom 128) := by
  obtain ⟨r, hr, hspec⟩ := ktRingbufDequeueBurst_spec h (fun _ => 0) n
  unfold dequeueBytes
  rw [hr]
  exact ringBytes_subset hspec.touched ((Nat.min_le_left _ _).trans hn)

/-- A message that fits in its buffer. -/
theorem mbufBytes_subset {len : ℕ} (hi : i.toNat < poolCount) (hlen : len ≤ 2048) :
    mbufBytes i len ⊆ Set.Iio Area.mbufPool.bytes := by
  rintro j ⟨-, hj⟩
  have hbytes : Area.mbufPool.bytes = 2048 * poolCount := rfl
  rw [mbufAt] at hj
  rw [Set.mem_Iio, hbytes]
  omega

theorem metadataBytes_subset (hi : i.toNat < poolCount) :
    metadataBytes i ⊆ Set.Iio Area.metadataPool.bytes := by
  rintro j ⟨-, hj⟩
  have hbytes : Area.metadataPool.bytes = 48 * poolCount := rfl
  rw [Set.mem_Iio, hbytes]
  omega

/-! ## Runs -/

theorem mem_owned_of_held (hi : i ∈ (s.clients c).held) : i ∈ s.owned := by
  simp only [State.owned, Multiset.mem_add]
  exact .inl (.inr (Multiset.mem_of_le (held_le_clientsHeld s.clients c) hi))

theorem mem_owned_of_daemon (hi : i ∈ s.daemon.held) : i ∈ s.owned := by
  simp only [State.owned, Multiset.mem_add]
  exact .inr hi

/-- What one action touches, in a state on the way. -/
theorem Intact.accessed_subset (h : Intact s) (hlt : ∀ i ∈ s.owned, i.toNat < poolCount) (a : Act ι)
    (x : Area) : accessed s a x ⊆ Set.Iio x.bytes := by
  obtain ⟨P, C, hfree⟩ := h.inv.free
  obtain ⟨P', C', htx⟩ := h.inv.tx
  cases a with
  | take c req =>
      cases x with
      | freeRing => exact dequeueBytes_subset hfree (by decide)
      | _ => exact Set.empty_subset _
  | fill c =>
      cases hc : s.clients c with
      | taken i req =>
          have hi : i ∈ (s.clients c).held := by
            rw [hc]
            exact Multiset.mem_singleton_self i
          have hin := hlt i (mem_owned_of_held hi)
          cases x with
          | mbufPool =>
              simp only [accessed, hc]
              exact mbufBytes_subset hin (h.taken c i req hc).length
          | metadataPool =>
              simp only [accessed, hc]
              exact metadataBytes_subset hin
          | _ => exact Set.empty_subset _
      | idle | filled => cases x <;> simp [accessed, hc]
  | put c =>
      cases hc : s.clients c with
      | filled i req =>
          cases x with
          | txRing =>
              simp only [accessed, hc]
              exact enqueueBytes_subset htx i
          | _ => exact Set.empty_subset _
      | idle | taken => cases x <;> simp [accessed, hc]
  | dequeue =>
      cases x with
      | txRing => exact dequeueBytes_subset htx (by decide)
      | _ => exact Set.empty_subset _
  | insert =>
      cases x with
      | metadataPool =>
          simp only [accessed]
          split
          next i rest hd =>
            refine metadataBytes_subset (hlt i (mem_owned_of_daemon ?_))
            rw [hd]
            exact Multiset.mem_coe.mpr List.mem_cons_self
          next => exact Set.empty_subset _
      | _ => exact Set.empty_subset _
  | schedule now => exact Set.empty_subset _
  | transmit =>
      cases hd : s.daemon with
      | transmit i =>
          have hin := hlt i (mem_owned_of_daemon (by rw [hd]; exact Multiset.mem_singleton_self i))
          cases x with
          | mbufPool =>
              simp only [accessed, hd]
              have hflight : i ∈ s.inFlight := by
                simp only [State.inFlight, Multiset.mem_add, hd, Daemon.unsent]
                exact .inr (Multiset.mem_singleton_self i)
              exact mbufBytes_subset hin (h.flight i hflight).size
          | metadataPool =>
              simp only [accessed, hd]
              exact metadataBytes_subset hin
          | _ => exact Set.empty_subset _
      | top | insert | recycle => cases x <;> simp [accessed, hd]
  | recycle =>
      cases hd : s.daemon with
      | recycle i =>
          cases x with
          | freeRing =>
              simp only [accessed, hd]
              exact enqueueBytes_subset hfree i
          | _ => exact Set.empty_subset _
      | top | insert | transmit => cases x <;> simp [accessed, hd]

/-- **Nobody leaves the shared arrays.** In every run from start-up whose steps are sound, every byte
that a client or the daemon reads or writes lies in the area of the segment that it is meant for. -/
theorem accesses_inside {mbufPool : ℕ → UInt8} {metadataPool : ℕ → KtMetadata} {junk : ℕ → KtPqNode}
    (hstart : ktsndStart mbufPool metadataPool junk = some s₀) (hrun : Run schedStep s₀ tr s)
    (hok : ∀ p ∈ tr, SoundStep p.1 p.2) :
    ∀ p ∈ tr, ∀ x, accessed p.1 p.2 x ⊆ Set.Iio x.bytes := by
  intro p hp x
  have hstarted := started_of_start hstart
  obtain ⟨tr₁, hpre, hrun₁⟩ := hrun.exists_run_to p hp
  have hok₁ : ∀ q ∈ tr₁, SoundStep q.1 q.2 := fun q hq => hok q (hpre.subset hq)
  refine (intact_run hstarted hrun₁ hok₁).accessed_subset ?_ p.2 x
  exact fun i hi => lt_of_mem_owned hstarted hrun₁ (fun q hq => (hok₁ q hq).fits) hi

/-- The cycle of one packet. -/
theorem accesses_inside_one :
    ∃ tr : List (State Unit × Act Unit), tr.map Prod.snd = cycleActs () blankReq ∧
      ∀ p ∈ tr, ∀ x, accessed p.1 p.2 x ⊆ Set.Iio x.bytes := by
  obtain ⟨s₀, s, tr, hstart, hrun, hok, hacts⟩ := exists_sound_cycle blankReq_sound
  exact ⟨tr, hacts, accesses_inside hstart hrun hok⟩

end KuberneTSN.Sched
