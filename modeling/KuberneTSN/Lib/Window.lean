import Mathlib

/-!
# Windows of a circular buffer

A circular buffer of `size` slots stores position `p` in slot `p % size`.
`Window slots size start q` says that the positions `start, start + 1, …` hold the elements of the
list `q`.

* `Window.read` — reading a window, position by position;
* `Window.drop` — advancing its start;
* `Window.write` — appending to it, when the positions written do not run into its start: distinct
  positions of one window are distinct slots (`mod_ne_of_lt`);
* `add_mod_of_fits` — a block that does not cross the end of the array lies in consecutive slots.
-/

namespace KuberneTSN.Lib

variable {α : Type*} {slots slots' : ℕ → α} {size start : ℕ} {q : List α}

/-- Positions less than `size` apart lie in distinct slots. -/
theorem mod_ne_of_lt {p p' : ℕ} (h₁ : p < p') (h₂ : p' < p + size) : p % size ≠ p' % size := by
  intro h
  have hmod : (p' - p) % size = 0 := Nat.sub_mod_eq_zero_of_mod_eq h.symm
  rw [Nat.mod_eq_of_lt (by omega)] at hmod
  omega

/-- The slots of a block that stays inside the array are consecutive. -/
theorem add_mod_of_fits {p m j : ℕ} (hfits : p % size + m ≤ size) (hj : j < m) :
    (p + j) % size = p % size + j := by
  rw [Nat.add_mod, Nat.mod_eq_of_lt (show j < size by omega),
    Nat.mod_eq_of_lt (show p % size + j < size by omega)]

/-- The positions from `start` on hold the elements of `q`. -/
def Window (slots : ℕ → α) (size start : ℕ) (q : List α) : Prop :=
  ∀ j (h : j < q.length), slots ((start + j) % size) = q[j]

/-- An empty window. -/
theorem Window.nil (slots : ℕ → α) (size start : ℕ) : Window slots size start [] := by
  intro j h
  simp at h

/-- Reading the first `m` positions of a window. -/
theorem Window.read (h : Window slots size start q) {m : ℕ} (hm : m ≤ q.length) :
    (List.range m).map (fun j => slots ((start + j) % size)) = q.take m := by
  apply List.ext_getElem
  · simp [hm]
  · intro i h₁ h₂
    simp only [List.length_map, List.length_range] at h₁
    rw [List.getElem_map, List.getElem_range, List.getElem_take]
    exact h i (by omega)

/-- Advancing the start of a window. -/
theorem Window.drop (h : Window slots size start q) (m : ℕ) :
    Window slots size (start + m) (q.drop m) := by
  intro j hj
  rw [List.length_drop] at hj
  rw [List.getElem_drop, add_assoc]
  exact h (m + j) (by omega)

/-- **Appending to a window**: writing the elements `xs` behind it keeps what it holds, when there
is room for them. -/
theorem Window.write (h : Window slots size start q) {xs : List α}
    (hroom : q.length + xs.length ≤ size)
    (hnew : ∀ j (hj : j < xs.length), slots' ((start + q.length + j) % size) = xs[j])
    (hold : ∀ s, (∀ j < xs.length, s ≠ (start + q.length + j) % size) → slots' s = slots s) :
    Window slots' size start (q ++ xs) := by
  intro j hj
  rw [List.length_append] at hj
  by_cases hjq : j < q.length
  · rw [List.getElem_append_left hjq, ← h j hjq]
    refine hold _ fun i hi => ?_
    exact mod_ne_of_lt (by omega) (by omega)
  · rw [List.getElem_append_right (by omega), ← hnew (j - q.length) (by omega)]
    congr 2
    omega

end KuberneTSN.Lib
