import Mathlib

/-!
# Intervals that tile a range

Threads that reserve intervals of positions at the upper end of a range and release them at its
lower end. `own i = some (a, n)` says that thread `i` holds the positions `a, …, a + n - 1`;
`Tiles own lo hi` that the intervals held partition `lo, …, hi - 1`.

* `Tiles.reserve` — taking an interval at the upper end;
* `Tiles.release` — giving one back at the lower end;
* `Tiles.owner_unique` — a position has one owner.
-/

namespace KuberneTSN.Lib

variable {ι : Type*} {own : ι → Option (ℕ × ℕ)} {lo hi : ℕ}

/-- The intervals held by the threads partition the range from `lo` to `hi`. -/
structure Tiles (own : ι → Option (ℕ × ℕ)) (lo hi : ℕ) : Prop where
  le : lo ≤ hi
  inside : ∀ ⦃i a n⦄, own i = some (a, n) → 0 < n ∧ lo ≤ a ∧ a + n ≤ hi
  cover : ∀ ⦃x⦄, lo ≤ x → x < hi → ∃ i a n, own i = some (a, n) ∧ a ≤ x ∧ x < a + n
  disjoint : ∀ ⦃i j a n b m⦄, i ≠ j → own i = some (a, n) → own j = some (b, m) →
    a + n ≤ b ∨ b + m ≤ a

/-- Nobody holds anything of an empty range. -/
theorem Tiles.empty (p : ℕ) : Tiles (fun _ : ι => none) p p where
  le := le_rfl
  inside _ _ _ h := nomatch h
  cover _ h₁ h₂ := absurd h₂ (not_lt.mpr h₁)
  disjoint _ _ _ _ _ _ _ h := nomatch h

/-- A position has one owner. -/
theorem Tiles.owner_unique (h : Tiles own lo hi) {i j : ι} {a n b m x : ℕ}
    (hi : own i = some (a, n)) (hj : own j = some (b, m)) (hx : a ≤ x ∧ x < a + n)
    (hx' : b ≤ x ∧ x < b + m) : i = j := by
  by_contra hne
  rcases h.disjoint hne hi hj with hd | hd
  · exact absurd hx.2 (not_lt.mpr (hd.trans hx'.1))
  · exact absurd hx'.2 (not_lt.mpr (hd.trans hx.1))

variable [DecidableEq ι]

/-- A thread that holds nothing takes the next `n` positions. -/
theorem Tiles.reserve (h : Tiles own lo hi) {i : ι} (hnone : own i = none) {n : ℕ} (hn : 0 < n) :
    Tiles (Function.update own i (some (hi, n))) lo (hi + n) where
  le := h.le.trans (Nat.le_add_right hi n)
  inside := by
    intro j a m hj
    by_cases hji : j = i
    · subst hji
      rw [Function.update_self] at hj
      cases hj
      exact ⟨hn, h.le, le_rfl⟩
    · rw [Function.update_of_ne hji] at hj
      obtain ⟨hm, hlo, hhi⟩ := h.inside hj
      exact ⟨hm, hlo, hhi.trans (Nat.le_add_right hi n)⟩
  cover := by
    intro x hlo hx
    rcases lt_or_ge x hi with hlt | hge
    · obtain ⟨j, a, m, hj, hax⟩ := h.cover hlo hlt
      have hji : j ≠ i := by
        rintro rfl
        rw [hnone] at hj
        cases hj
      exact ⟨j, a, m, by rw [Function.update_of_ne hji, hj], hax⟩
    · exact ⟨i, hi, n, Function.update_self _ _ _, hge, hx⟩
  disjoint := by
    intro j l a m b m' hne hj hl
    by_cases hji : j = i
    · subst hji
      rw [Function.update_self] at hj
      rw [Function.update_of_ne hne.symm] at hl
      cases hj
      exact Or.inr (h.inside hl).2.2
    · rw [Function.update_of_ne hji] at hj
      by_cases hli : l = i
      · subst hli
        rw [Function.update_self] at hl
        cases hl
        exact Or.inl (h.inside hj).2.2
      · rw [Function.update_of_ne hli] at hl
        exact h.disjoint hne hj hl

/-- The thread at the lower end gives its positions back. -/
theorem Tiles.release (h : Tiles own lo hi) {i : ι} {n : ℕ} (howns : own i = some (lo, n)) :
    Tiles (Function.update own i none) (lo + n) hi where
  le := (h.inside howns).2.2
  inside := by
    intro j a m hj
    by_cases hji : j = i
    · subst hji
      rw [Function.update_self] at hj
      cases hj
    · rw [Function.update_of_ne hji] at hj
      obtain ⟨hm, hlo, hhi⟩ := h.inside hj
      rcases h.disjoint hji hj howns with hd | hd
      · omega
      · exact ⟨hm, hd, hhi⟩
  cover := by
    intro x hlo hx
    obtain ⟨j, a, m, hj, hax⟩ := h.cover ((Nat.le_add_right lo n).trans hlo) hx
    have hji : j ≠ i := by
      rintro rfl
      rw [howns] at hj
      cases hj
      omega
    exact ⟨j, a, m, by rw [Function.update_of_ne hji, hj], hax⟩
  disjoint := by
    intro j l a m b m' hne hj hl
    have hne_i : ∀ {j : ι} {p : ℕ × ℕ}, Function.update own i none j = some p → own j = some p := by
      intro j p hj
      by_cases hji : j = i
      · subst hji
        rw [Function.update_self] at hj
        cases hj
      · rwa [Function.update_of_ne hji] at hj
    exact h.disjoint hne (hne_i hj) (hne_i hl)

end KuberneTSN.Lib
