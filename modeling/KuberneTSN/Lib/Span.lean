import Mathlib

/-!
# Spans of addresses

`span M start len` are the addresses of `len` bytes from `start` on, in an address space of `M`
addresses that wraps.

* `span_subset_span_iff` — when a span at an offset lies in the span of its base;
* `disjoint_span` — spans at offsets that do not overlap have no address in common.
-/

namespace KuberneTSN.Lib

/-- The addresses of `len` bytes from `start` on. -/
def span (M start len : ℕ) : Set ℕ := {a | ∃ i < len, a = (start + i) % M}

variable {M base off off' n n' len : ℕ}

/-- Only the address of the start matters. -/
theorem span_mod (M start len : ℕ) : span M (start % M) len = span M start len := by
  simp only [span, Nat.mod_add_mod]

/-- Bytes at two offsets from one base that have the same address. -/
theorem eq_of_add_mod_eq {i j : ℕ} (hi : i < M) (hj : j < M) (h : (base + i) % M = (base + j) % M) :
    i = j :=
  Nat.ModEq.eq_of_lt_of_lt (Nat.ModEq.add_left_cancel' base h) hi hj

/-- A span at an offset lies in the span of its base exactly when it ends in it. -/
theorem span_subset_span_iff (hpos : 0 < n) (hM : off + n ≤ M) :
    span M (base + off) n ⊆ span M base len ↔ off + n ≤ len := by
  constructor
  · intro hsub
    obtain ⟨j, hj, heq⟩ := hsub ⟨n - 1, by omega, rfl⟩
    by_contra hlen
    rw [add_assoc] at heq
    have hsame := eq_of_add_mod_eq (by omega) (by omega) heq
    omega
  · rintro hle a ⟨i, hi, rfl⟩
    exact ⟨off + i, by omega, by rw [add_assoc]⟩

/-- Spans at offsets that do not overlap are disjoint. -/
theorem disjoint_span (h : off + n ≤ off' ∨ off' + n' ≤ off) (hM : off + n ≤ M) (hM' : off' + n' ≤ M) :
    Disjoint (span M (base + off) n) (span M (base + off') n') := by
  rw [Set.disjoint_left]
  rintro a ⟨i, hi, rfl⟩ ⟨j, hj, heq⟩
  rw [add_assoc, add_assoc] at heq
  have hsame := eq_of_add_mod_eq (by omega) (by omega) heq
  omega

end KuberneTSN.Lib
