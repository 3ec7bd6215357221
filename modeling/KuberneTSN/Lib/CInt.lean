import Mathlib

/-!
# C integer conversions on an LP64 target

`int` has 32 bits and `size_t` has 64. A conversion to `int`, and an `int` operation that leaves its
range, reduce to the two's-complement representative (`wrapInt`); a conversion from `int` to
`size_t` reduces modulo `2^64` (`sizeT`). The lemmas say where these are the identity. For 64 bits,
the representative is `Int.bmod` itself.
-/

namespace KuberneTSN.Lib

/-- The value of an `int` that stores `z`. -/
def wrapInt (z : ℤ) : ℤ := z.bmod (2 ^ 32)

/-- The conversion `(size_t)z` of an `int`. -/
def sizeT (z : ℤ) : ℕ := (z % 2 ^ 64).toNat

/-- An `int` stores the values of its range. -/
theorem wrapInt_of_range {z : ℤ} (h₁ : -2 ^ 31 ≤ z) (h₂ : z < 2 ^ 31) : wrapInt z = z := by
  unfold wrapInt
  rw [Int.bmod_def]
  split <;> omega

/-- A position below `2^31` survives the conversion to `int`. -/
theorem wrapInt_natCast {i : ℕ} (h : i < 2 ^ 31) : wrapInt i = i :=
  wrapInt_of_range (by omega) (by omega)

/-- Converting a non-negative `int` to `size_t` keeps it. -/
theorem sizeT_natCast {i : ℕ} (h : i < 2 ^ 64) : sizeT i = i := by
  unfold sizeT
  omega

/-- An `int` result in `[2^31, 2^32)` becomes negative and, as a `size_t`, huge. -/
theorem le_sizeT_wrapInt {z : ℤ} (h₁ : 2 ^ 31 ≤ z) (h₂ : z < 2 ^ 32) :
    2 ^ 63 ≤ sizeT (wrapInt z) := by
  unfold sizeT wrapInt
  rw [Int.bmod_def]
  split <;> omega

/-- An `int64_t` stores the values of its range. -/
theorem bmod_of_range {z : ℤ} (h₁ : -2 ^ 63 ≤ z) (h₂ : z < 2 ^ 63) : z.bmod (2 ^ 64) = z := by
  rw [Int.bmod_def]
  split <;> omega

/-- An `int64_t` result in `[2^63, 2^64)` becomes negative. -/
theorem bmod_of_ge {z : ℤ} (h₁ : 2 ^ 63 ≤ z) (h₂ : z < 2 ^ 64) :
    z.bmod (2 ^ 64) = z - 2 ^ 64 := by
  rw [Int.bmod_def]
  split <;> omega

end KuberneTSN.Lib
