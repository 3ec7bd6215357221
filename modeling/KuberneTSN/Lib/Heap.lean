import Mathlib

/-!
# Binary heaps laid out in an array

An array is a function `a : ℕ → β`, of which the first `n` entries count; its keys are
`key : ℕ → κ` in a linear order. `parent i = (i - 1) / 2`, so the children of `i` are `2i + 1` and
`2i + 2` (`parent_eq_iff`).

* `HeapOrdered key n` — every entry's key is at least its parent's; `HeapOrdered.root_le`.
* `UpOrder key n i` — the order with *one* edge suspended, the one from `i` to its parent: what a
  sift-up keeps. `UpOrder.swap` is the step, `UpOrder.heapOrdered` the exit.
* `DownOrder key n i` — the order with the edges from `i` to its children suspended: what a
  sift-down keeps. `DownOrder.swap` is the step (to a child that is minimal among the children),
  `DownOrder.heapOrdered_iff` the exit.
* `entries a n` — the multiset of the first `n` entries, unchanged by swaps (`entries_swap`), with
  the rules for growing, shrinking and overwriting an array (`entries_update`).
-/

namespace KuberneTSN.Lib

/-! ## Parents and children -/

/-- The parent of position `i`; position `0` is its own parent. -/
def parent (i : ℕ) : ℕ := (i - 1) / 2

/-- A non-root position comes after its parent. -/
theorem parent_lt {i : ℕ} (h : 0 < i) : parent i < i := by
  unfold parent
  omega

/-- The positions with parent `i` are `2i + 1` and `2i + 2`. -/
theorem parent_eq_iff {c i : ℕ} (h : 0 < c) : parent c = i ↔ c = 2 * i + 1 ∨ c = 2 * i + 2 := by
  unfold parent
  omega

/-! ## The heap order -/

section order

variable {κ : Type*} [LinearOrder κ] {key : ℕ → κ} {n i : ℕ}

/-- Every entry's key is at least its parent's. -/
def HeapOrdered (key : ℕ → κ) (n : ℕ) : Prop :=
  ∀ c, 0 < c → c < n → key (parent c) ≤ key c

/-- The root of an ordered heap has a minimal key. -/
theorem HeapOrdered.root_le (h : HeapOrdered key n) : ∀ c, c < n → key 0 ≤ key c := by
  intro c
  induction c using Nat.strongRecOn with
  | ind c ih =>
      intro hc
      rcases Nat.eq_zero_or_pos c with rfl | hpos
      · exact le_rfl
      · have hp := parent_lt hpos
        exact (ih (parent c) hp (by omega)).trans (h c hpos hc)

/-- The order of a sift-up at `i`: every edge holds except the one from `i` up, and the children
of `i` are at least the parent of `i`. -/
structure UpOrder (key : ℕ → κ) (n i : ℕ) : Prop where
  except : ∀ c, 0 < c → c < n → c ≠ i → key (parent c) ≤ key c
  grand : ∀ c, 0 < c → c < n → parent c = i → 0 < i → key (parent i) ≤ key c

/-- Lowering the key of one entry of a heap leaves the order of a sift-up there. -/
theorem HeapOrdered.upOrder_update (h : HeapOrdered key n) {v : κ} (hv : v ≤ key i) :
    UpOrder (Function.update key i v) n i where
  except c hc hcn hci := by
    rw [Function.update_of_ne hci]
    by_cases hp : parent c = i
    · rw [hp, Function.update_self]
      exact hv.trans (hp ▸ h c hc hcn)
    · rw [Function.update_of_ne hp]
      exact h c hc hcn
  grand c hc hcn hp hi := by
    have hci : c ≠ i := by have := parent_lt hc; omega
    have hpi : parent i ≠ i := by have := parent_lt hi; omega
    rw [Function.update_of_ne hci, Function.update_of_ne hpi]
    have hin : i < n := by have := parent_lt hc; omega
    exact (h i hi hin).trans (hp ▸ h c hc hcn)

/-- **One step of a sift-up**: an entry smaller than its parent is exchanged with it. -/
theorem UpOrder.swap (h : UpOrder key n i) (hi : 0 < i) (hin : i < n)
    (hlt : key i < key (parent i)) : UpOrder (key ∘ Equiv.swap i (parent i)) n (parent i) where
  except c hc hcn hcp := by
    have hpi := parent_lt hi
    by_cases hci : c = i
    · subst hci
      simp only [Function.comp_apply, Equiv.swap_apply_left, Equiv.swap_apply_right]
      exact hlt.le
    · have hcc : (key ∘ Equiv.swap i (parent i)) c = key c := by
        simp [Equiv.swap_apply_of_ne_of_ne hci hcp]
      rw [hcc]
      by_cases hpci : parent c = i
      · rw [hpci]
        simp only [Function.comp_apply, Equiv.swap_apply_left]
        exact h.grand c hc hcn hpci hi
      · by_cases hpcp : parent c = parent i
        · rw [hpcp]
          simp only [Function.comp_apply, Equiv.swap_apply_right]
          exact hlt.le.trans (hpcp ▸ h.except c hc hcn hci)
        · simp only [Function.comp_apply, Equiv.swap_apply_of_ne_of_ne hpci hpcp]
          exact h.except c hc hcn hci
  grand c hc hcn hcp hp := by
    have hpi := parent_lt hi
    have hpp := parent_lt hp
    have hup : key (parent (parent i)) ≤ key (parent i) :=
      h.except (parent i) hp (by omega) (by omega)
    have htop : (key ∘ Equiv.swap i (parent i)) (parent (parent i)) = key (parent (parent i)) := by
      simp [Equiv.swap_apply_of_ne_of_ne (show parent (parent i) ≠ i by omega)
        (show parent (parent i) ≠ parent i by omega)]
    rw [htop]
    by_cases hci : c = i
    · subst hci
      simpa using hup
    · have hcne : c ≠ parent i := by have := parent_lt hc; omega
      simp only [Function.comp_apply, Equiv.swap_apply_of_ne_of_ne hci hcne]
      exact hup.trans (hcp ▸ h.except c hc hcn hci)

/-- **The exit of a sift-up**: at the root, or below a parent that is not larger. -/
theorem UpOrder.heapOrdered (h : UpOrder key n i) (hstop : 0 < i → key (parent i) ≤ key i) :
    HeapOrdered key n := by
  intro c hc hcn
  by_cases hci : c = i
  · subst hci
    exact hstop hc
  · exact h.except c hc hcn hci

/-- The order of a sift-down at `i`: every edge holds except those from `i` to its children, and
the children of `i` are at least the parent of `i`. -/
structure DownOrder (key : ℕ → κ) (n i : ℕ) : Prop where
  except : ∀ c, 0 < c → c < n → parent c ≠ i → key (parent c) ≤ key c
  grand : ∀ c, 0 < c → c < n → parent c = i → 0 < i → key (parent i) ≤ key c

/-- Overwriting the root of a heap leaves the order of a sift-down there. -/
theorem HeapOrdered.downOrder_update (h : HeapOrdered key n) (v : κ) {m : ℕ} (hm : m ≤ n) :
    DownOrder (Function.update key 0 v) m 0 where
  except c hc hcm hp := by
    rw [Function.update_of_ne hp, Function.update_of_ne (by omega)]
    exact h c hc (by omega)
  grand c _ _ _ h0 := absurd h0 (by omega)

/-- **One step of a sift-down**: an entry larger than its smallest child is exchanged with it. -/
theorem DownOrder.swap (h : DownOrder key n i) {c : ℕ} (hc : 0 < c) (hcn : c < n)
    (hci : parent c = i) (hlt : key c < key i)
    (hmin : ∀ d, 0 < d → d < n → parent d = i → key c ≤ key d) :
    DownOrder (key ∘ Equiv.swap i c) n c where
  except d hd hdn hpd := by
    have hic : i < c := hci ▸ parent_lt hc
    by_cases hpi : parent d = i
    · rw [hpi]
      simp only [Function.comp_apply, Equiv.swap_apply_left]
      by_cases hdc : d = c
      · subst hdc
        simpa using hlt.le
      · have hdi : d ≠ i := by have := parent_lt hd; omega
        rw [Equiv.swap_apply_of_ne_of_ne hdi hdc]
        exact hmin d hd hdn hpi
    · simp only [Function.comp_apply, Equiv.swap_apply_of_ne_of_ne hpi hpd]
      have hdc : d ≠ c := fun h => hpi (h ▸ hci)
      by_cases hdi : d = i
      · subst hdi
        rw [Equiv.swap_apply_left]
        exact h.grand c hc hcn hci hd
      · rw [Equiv.swap_apply_of_ne_of_ne hdi hdc]
        exact h.except d hd hdn hpi
  grand d hd hdn hpd _ := by
    have hic : i < c := hci ▸ parent_lt hc
    have hdc := parent_lt hd
    rw [hci]
    simp only [Function.comp_apply, Equiv.swap_apply_left,
      Equiv.swap_apply_of_ne_of_ne (show d ≠ i by omega) (show d ≠ c by omega)]
    exact hpd ▸ h.except d hd hdn (by omega)

/-- **The exit of a sift-down**: the heap is ordered if and only if the entry is at most its
children. -/
theorem DownOrder.heapOrdered_iff (h : DownOrder key n i) :
    HeapOrdered key n ↔ ∀ c, 0 < c → c < n → parent c = i → key i ≤ key c := by
  constructor
  · intro ho c hc hcn hp
    exact hp ▸ ho c hc hcn
  · intro hstop c hc hcn
    by_cases hp : parent c = i
    · rw [hp]
      exact hstop c hc hcn hp
    · exact h.except c hc hcn hp

end order

/-! ## The entries of an array -/

section entries

variable {β : Type*} {a : ℕ → β} {n i j : ℕ}

/-- The multiset of the first `n` entries. -/
def entries (a : ℕ → β) (n : ℕ) : Multiset β := (Multiset.range n).map a

/-- Membership in the entries. -/
theorem mem_entries {b : β} : b ∈ entries a n ↔ ∃ i < n, a i = b := by
  simp [entries]

/-- The number of entries. -/
@[simp] theorem card_entries (a : ℕ → β) (n : ℕ) : (entries a n).card = n := by
  simp [entries]

/-- One more entry. -/
theorem entries_succ (a : ℕ → β) (n : ℕ) : entries a (n + 1) = a n ::ₘ entries a n := by
  simp [entries, Multiset.range_succ]

/-- Arrays that agree below `n` have the same entries. -/
theorem entries_congr {b : ℕ → β} (h : ∀ i < n, a i = b i) : entries a n = entries b n :=
  Multiset.map_congr rfl fun i hi => h i (Multiset.mem_range.mp hi)

/-- Exchanging two entries keeps the multiset. -/
theorem entries_swap (a : ℕ → β) (hi : i < n) (hj : j < n) :
    entries (a ∘ Equiv.swap i j) n = entries a n := by
  have hmap : (Finset.range n).map (Equiv.swap i j).toEmbedding = Finset.range n := by
    apply Finset.map_perm
    intro x hx
    simp only [Set.mem_ofPred_eq, ne_eq] at hx
    have : x = i ∨ x = j := by
      by_contra hne
      rw [not_or] at hne
      exact hx (Equiv.swap_apply_of_ne_of_ne hne.1 hne.2)
    simp only [Finset.coe_range, Set.mem_Iio]
    rcases this with rfl | rfl
    · exact hi
    · exact hj
  have hval := congrArg Finset.val hmap
  simp only [Finset.map_val, Finset.range_val] at hval
  unfold entries
  rw [← Multiset.map_map]
  exact congrArg (Multiset.map a) hval

/-- Overwriting one entry. -/
theorem entries_update (a : ℕ → β) (v : β) (hi : i < n) :
    a i ::ₘ entries (Function.update a i v) n = v ::ₘ entries a n := by
  induction n with
  | zero => omega
  | succ n ih =>
      rw [entries_succ, entries_succ]
      by_cases hin : i = n
      · subst hin
        rw [Function.update_self, Multiset.cons_swap]
        congr 2
        exact entries_congr fun k hk => Function.update_of_ne (by omega) _ _
      · rw [Function.update_of_ne (Ne.symm hin), Multiset.cons_swap, ih (by omega),
          Multiset.cons_swap]

end entries

end KuberneTSN.Lib
