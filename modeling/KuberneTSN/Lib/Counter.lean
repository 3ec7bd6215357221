import Mathlib

/-!
# Free-running 32-bit counters

A counter that only grows and is kept in 32 bits holds `UInt32.ofNat p` after `p` increments. As
long as two counters are less than `2^32` apart, their difference and their equality can be read
off the stored values (`toNat_ofNat_sub`, `ofNat_inj`); masking with a power of two gives the slot
of a position (`toNat_ofNat_and_mask`), and with another number it makes two positions closer than
that number share a slot (`exists_clear_bit`, `toNat_ofNat_and_of_clear`).
-/

namespace KuberneTSN.Lib

/-- What a counter stores. -/
theorem toNat_ofNat_mod (p : ℕ) : (UInt32.ofNat p).toNat = p % 2 ^ 32 := UInt32.toNat_ofNat'

/-- A counter that has not wrapped. -/
theorem toNat_ofNat_of_lt {p : ℕ} (h : p < 2 ^ 32) : (UInt32.ofNat p).toNat = p := by
  rw [toNat_ofNat_mod]
  exact Nat.mod_eq_of_lt h

/-- The stored difference of two counters is their distance. -/
theorem toNat_ofNat_sub {p c : ℕ} (h : c ≤ p) (h' : p < c + 2 ^ 32) :
    (UInt32.ofNat p - UInt32.ofNat c).toNat = p - c := by
  rw [UInt32.toNat_sub, toNat_ofNat_mod, toNat_ofNat_mod]
  omega

/-- The stored value of a counter determines it among those less than `2^32` ahead. -/
theorem ofNat_inj {p c : ℕ} (h : c ≤ p) (h' : p < c + 2 ^ 32) :
    UInt32.ofNat p = UInt32.ofNat c ↔ p = c := by
  constructor
  · intro heq
    have hsub := toNat_ofNat_sub h h'
    rw [heq, UInt32.sub_self] at hsub
    have hzero : (0 : UInt32).toNat = 0 := rfl
    omega
  · rintro rfl
    rfl

/-- Advancing a counter. -/
theorem ofNat_add_eq {p : ℕ} {n : UInt32} : UInt32.ofNat p + n = UInt32.ofNat (p + n.toNat) := by
  rw [UInt32.ofNat_add, UInt32.ofNat_toNat]

/-- The stored values from counter `a` up to counter `b`. -/
theorem sub_lt_sub_iff {a b : ℕ} (hle : a ≤ b) (hlt : b < a + 2 ^ 32) (x : UInt32) :
    (x - UInt32.ofNat a).toNat < (UInt32.ofNat b - UInt32.ofNat a).toNat ↔
      ∃ p, a ≤ p ∧ p < b ∧ x = UInt32.ofNat p := by
  rw [toNat_ofNat_sub hle hlt]
  constructor
  · intro hx
    refine ⟨a + (x - UInt32.ofNat a).toNat, Nat.le_add_right _ _, by omega, ?_⟩
    rw [← ofNat_add_eq, add_comm, sub_add_cancel]
  · rintro ⟨p, hp, hpb, rfl⟩
    rw [toNat_ofNat_sub hp (by omega)]
    omega

/-- Masking with `2^k - 1` is the remainder modulo `2^k`. -/
theorem toNat_and_mask {x m : UInt32} {k : ℕ} (hm : m.toNat = 2 ^ k - 1) :
    (x &&& m).toNat = x.toNat % 2 ^ k := by
  rw [UInt32.toNat_and, hm, Nat.and_two_pow_sub_one_eq_mod]

/-- The slot of a position is read off the stored counter. -/
theorem toNat_ofNat_and_mask {p k : ℕ} {m : UInt32} (hk : k ≤ 32) (hm : m.toNat = 2 ^ k - 1) :
    (UInt32.ofNat p &&& m).toNat = p % 2 ^ k := by
  rw [toNat_and_mask hm, toNat_ofNat_mod]
  exact Nat.mod_mod_of_dvd p (Nat.pow_dvd_pow 2 hk)

/-- A mask that is not one less than a power of two has a clear bit below its highest one. -/
theorem exists_clear_bit {m : ℕ} (hpos : 0 < m) (h : ∀ k, m + 1 ≠ 2 ^ k) :
    ∃ j, 2 ^ j < m ∧ m.testBit j = false := by
  by_contra hnone
  have hset : ∀ j, 2 ^ j < m → m.testBit j = true := fun j hj =>
    Bool.of_not_eq_false fun hclear => hnone ⟨j, hj, hclear⟩
  have hle : 2 ^ m.log2 ≤ m := Nat.log2_self_le hpos.ne'
  have hlt : m < 2 ^ (m.log2 + 1) := Nat.lt_log2_self
  -- with every bit up to the highest one set, the mask is one less than a power of two
  have hones : m = 2 ^ (m.log2 + 1) - 1 := by
    refine Nat.eq_of_testBit_eq fun i => ?_
    rw [Nat.testBit_two_pow_sub_one]
    rcases lt_trichotomy i m.log2 with hi | rfl | hi
    · rw [decide_eq_true (by omega)]
      exact hset i ((Nat.pow_lt_pow_right Nat.one_lt_two hi).trans_le hle)
    · rw [decide_eq_true (Nat.lt_succ_self _)]
      exact Nat.testBit_log2 hpos.ne'
    · rw [decide_eq_false (by omega)]
      exact Nat.testBit_lt_two_pow (hlt.trans_le (Nat.pow_le_pow_right Nat.two_pos hi))
  refine h (m.log2 + 1) ?_
  have hpow := Nat.two_pow_pos (m.log2 + 1)
  omega

/-- A position with only that bit falls into slot `0`. -/
theorem toNat_ofNat_and_of_clear {j : ℕ} {m : UInt32} (hlt : 2 ^ j < m.toNat)
    (hclear : m.toNat.testBit j = false) : (UInt32.ofNat (2 ^ j) &&& m).toNat = 0 := by
  rw [UInt32.toNat_and, toNat_ofNat_of_lt (hlt.trans m.toNat_lt), Nat.and_comm, Nat.and_two_pow,
    hclear]
  exact Nat.zero_mul _

end KuberneTSN.Lib
