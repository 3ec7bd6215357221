import Mathlib

/-!
# Blocks of consecutive pages

A block is an interval of pages. `Placed n live` says that the blocks of the list `live` are not
empty, lie below `n` and are pairwise disjoint; `freePages n live` are the pages below `n` that none
of them covers.

* `Placed.cons` — a block over free pages may be added;
* `Placed.tail`, `Placed.not_covered_tail` — a block may be removed, and the others do not cover its
  pages;
* `card_freePages_cons` — the number of free pages with a block and without it;
* `reservedAt_cons`, `Placed.reservedAt_first` — the table of block sizes, indexed by first pages.
-/

namespace KuberneTSN.Lib

/-- The pages `first, …, first + pages - 1`. -/
structure Block where
  first : ℕ
  pages : ℕ
  deriving DecidableEq, Repr

/-- Page `i` belongs to the block. -/
def Block.Has (b : Block) (i : ℕ) : Prop := b.first ≤ i ∧ i < b.first + b.pages

instance (b : Block) (i : ℕ) : Decidable (b.Has i) := inferInstanceAs (Decidable (_ ∧ _))

/-- Page `i` is covered by some block. -/
def Covered (live : List Block) (i : ℕ) : Prop := ∃ b ∈ live, b.Has i

instance (live : List Block) (i : ℕ) : Decidable (Covered live i) :=
  inferInstanceAs (Decidable (∃ b ∈ live, b.Has i))

/-- Two blocks have no page in common. -/
def Block.Apart (b c : Block) : Prop := b.first + b.pages ≤ c.first ∨ c.first + c.pages ≤ b.first

/-- Blocks that lie below `n`, none of them empty, without a common page. -/
structure Placed (n : ℕ) (live : List Block) : Prop where
  pos : ∀ b ∈ live, 0 < b.pages
  inside : ∀ b ∈ live, b.first + b.pages ≤ n
  apart : live.Pairwise Block.Apart

/-- The pages below `n` that no block covers. -/
def freePages (n : ℕ) (live : List Block) : Finset ℕ := {i ∈ Finset.range n | ¬ Covered live i}

variable {n i : ℕ} {live : List Block} {b c : Block}

theorem covered_cons : Covered (b :: live) i ↔ b.Has i ∨ Covered live i := by
  simp [Covered]

/-- A choice on the pages covered, with one block more. -/
theorem ite_covered_cons {α : Type*} (x y : α) :
    (if Covered (b :: live) i then x else y) =
      if b.Has i then x else if Covered live i then x else y := by
  simp only [covered_cons, ite_or]

/-- What is covered does not depend on the order of the blocks. -/
theorem covered_congr {live' : List Block} (h : ∀ b, b ∈ live ↔ b ∈ live') :
    Covered live i ↔ Covered live' i :=
  exists_congr fun b => and_congr_left' (h b)

/-- Apart blocks share no page. -/
theorem Block.Apart.not_has (h : b.Apart c) (hb : b.Has i) : ¬ c.Has i := by
  rintro ⟨h₁, h₂⟩
  obtain ⟨h₃, h₄⟩ := hb
  rcases h with h | h <;> omega

/-- No blocks. -/
theorem Placed.nil : Placed n [] :=
  ⟨fun _ h => absurd h List.not_mem_nil, fun _ h => absurd h List.not_mem_nil, .nil⟩

/-- A block over free pages may be added. -/
theorem Placed.cons (h : Placed n live) (hpos : 0 < b.pages) (hin : b.first + b.pages ≤ n)
    (hfree : ∀ i, b.Has i → ¬ Covered live i) : Placed n (b :: live) := by
  refine ⟨List.forall_mem_cons.mpr ⟨hpos, h.pos⟩, List.forall_mem_cons.mpr ⟨hin, h.inside⟩,
    List.pairwise_cons.mpr ⟨fun c hc => ?_, h.apart⟩⟩
  have hcpos := h.pos c hc
  by_contra hnot
  rw [Block.Apart, not_or, not_le, not_le] at hnot
  refine hfree (max b.first c.first) ⟨le_max_left _ _, ?_⟩ ⟨c, hc, le_max_right _ _, ?_⟩
  · exact max_lt (by omega) hnot.1
  · exact max_lt hnot.2 (by omega)

/-- Placement does not depend on the order of the blocks. -/
theorem Placed.perm {live' : List Block} (h : Placed n live) (hp : live.Perm live') :
    Placed n live' := by
  refine ⟨fun b hb => h.pos b (hp.mem_iff.mpr hb), fun b hb => h.inside b (hp.mem_iff.mpr hb), ?_⟩
  exact (hp.pairwise_iff fun hbc => hbc.symm).mp h.apart

/-- A block may be removed. -/
theorem Placed.tail (h : Placed n (b :: live)) : Placed n live :=
  ⟨fun c hc => h.pos c (List.mem_cons_of_mem b hc), fun c hc => h.inside c (List.mem_cons_of_mem b hc),
    (List.pairwise_cons.mp h.apart).2⟩

/-- The pages of a block are not covered by the others. -/
theorem Placed.not_covered_tail (h : Placed n (b :: live)) (hi : b.Has i) : ¬ Covered live i := by
  rintro ⟨c, hc, hci⟩
  exact (List.rel_of_pairwise_cons h.apart hc).not_has hi hci

/-- A choice on the pages covered, with a block taken out. -/
theorem Placed.ite_covered_tail {α : Type*} (h : Placed n (b :: live)) (x : α) {y z : α}
    (hz : b.Has i → z = y) :
    (if b.Has i then z else if Covered (b :: live) i then x else y) =
      if Covered live i then x else y := by
  by_cases hhas : b.Has i
  · rw [if_pos hhas, if_neg (h.not_covered_tail hhas), hz hhas]
  · rw [if_neg hhas, ite_covered_cons, if_neg hhas]

theorem mem_freePages : i ∈ freePages n live ↔ i < n ∧ ¬ Covered live i := by
  simp [freePages]

/-- Adding a block takes its pages. -/
theorem card_freePages_cons (hin : b.first + b.pages ≤ n) (hfree : ∀ i, b.Has i → ¬ Covered live i) :
    (freePages n (b :: live)).card + b.pages = (freePages n live).card := by
  have hsub : Finset.Ico b.first (b.first + b.pages) ⊆ freePages n live := by
    intro i hi
    rw [Finset.mem_Ico] at hi
    exact mem_freePages.mpr ⟨hi.2.trans_le hin, hfree i hi⟩
  have heq : freePages n (b :: live) =
      freePages n live \ Finset.Ico b.first (b.first + b.pages) := by
    ext i
    rw [Finset.mem_sdiff, mem_freePages, mem_freePages, covered_cons, not_or, Finset.mem_Ico]
    exact ⟨fun ⟨h₁, h₂, h₃⟩ => ⟨⟨h₁, h₃⟩, h₂⟩, fun ⟨⟨h₁, h₃⟩, h₂⟩ => ⟨h₁, h₂, h₃⟩⟩
  calc (freePages n (b :: live)).card + b.pages
      = (freePages n live \ Finset.Ico b.first (b.first + b.pages)).card +
          (Finset.Ico b.first (b.first + b.pages)).card := by rw [heq, Nat.card_Ico]; omega
    _ = (freePages n live).card := Finset.card_sdiff_add_card_eq_card hsub

/-- What is free does not depend on the order of the blocks. -/
theorem freePages_perm {live' : List Block} (hp : live.Perm live') :
    freePages n live = freePages n live' := by
  ext i
  rw [mem_freePages, mem_freePages, covered_congr fun _ => hp.mem_iff]

/-- The size of the block that starts at page `i`, and `0` where none starts. -/
def reservedAt (live : List Block) (i : ℕ) : ℕ :=
  ((live.filter fun b => b.first = i).map Block.pages).sum

theorem reservedAt_cons :
    reservedAt (b :: live) i = (if b.first = i then b.pages else 0) + reservedAt live i := by
  unfold reservedAt
  by_cases hb : b.first = i
  · rw [List.filter_cons_of_pos (by simpa using hb), if_pos hb]
    rfl
  · rw [List.filter_cons_of_neg (by simpa using hb), if_neg hb, zero_add]

/-- The table does not depend on the order of the blocks. -/
theorem reservedAt_perm {live' : List Block} (hp : live.Perm live') :
    reservedAt live i = reservedAt live' i :=
  ((hp.filter _).map _).sum_eq

/-- The table is empty where no block starts. -/
theorem reservedAt_eq_zero (h : ∀ b ∈ live, b.first ≠ i) : reservedAt live i = 0 := by
  have hnone : live.filter (fun b => b.first = i) = [] :=
    List.filter_eq_nil_iff.mpr fun b hb hfirst => h b hb (of_decide_eq_true hfirst)
  rw [reservedAt, hnone]
  rfl

/-- No block starts at a page that none covers. -/
theorem Placed.reservedAt_of_not_covered (h : Placed n live) (hi : ¬ Covered live i) :
    reservedAt live i = 0 := by
  refine reservedAt_eq_zero fun b hb hfirst => hi ⟨b, hb, hfirst.le, ?_⟩
  have hpos := h.pos b hb
  omega

/-- The table at the first page of a block. -/
theorem Placed.reservedAt_head (h : Placed n (b :: live)) :
    reservedAt (b :: live) b.first = b.pages := by
  have hpos := h.pos b List.mem_cons_self
  have hfree : ¬ Covered live b.first := h.not_covered_tail ⟨le_rfl, by omega⟩
  rw [reservedAt_cons, if_pos rfl, h.tail.reservedAt_of_not_covered hfree, add_zero]

/-- The table at the first page of a block, wherever the block stands in the list. -/
theorem Placed.reservedAt_first (h : Placed n live) (hb : b ∈ live) :
    reservedAt live b.first = b.pages := by
  have hp := List.perm_cons_erase hb
  rw [reservedAt_perm hp]
  exact (h.perm hp).reservedAt_head

/-- The table has an entry at the first pages of the blocks only. -/
theorem Placed.reservedAt_ne_zero (h : Placed n live) :
    reservedAt live i ≠ 0 ↔ ∃ b ∈ live, b.first = i := by
  constructor
  · intro hne
    by_contra hnone
    exact hne (reservedAt_eq_zero fun b hb hfirst => hnone ⟨b, hb, hfirst⟩)
  · rintro ⟨b, hb, rfl⟩
    rw [h.reservedAt_first hb]
    exact (h.pos b hb).ne'

/-- Placed blocks are distinct. -/
theorem Placed.nodup (h : Placed n live) : live.Nodup := by
  refine h.apart.imp_of_mem fun {b c} hb _ hbc heq => ?_
  subst heq
  have hpos := h.pos b hb
  rcases hbc with hbc | hbc <;> omega

end KuberneTSN.Lib
