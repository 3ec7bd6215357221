import Mathlib

/-!
# Lists of records with a key

A linked list that is searched by a key of its records: `lookupKey` finds the first record with a
key, `modifyKey` changes it in place, and `removeKey` unlinks it. `UniqueKeys` says that no two
records have the same key.

* `mem_iff_lookupKey` — where the keys are unique, a record is in the list if and only if the
  search for its key finds it;
* `lookupKey_cons_self`, `lookupKey_modifyKey_self`, `lookupKey_removeKey_self` — the search for
  the key of a new, a changed or a removed record; `lookupKey_cons_of_ne`,
  `lookupKey_modifyKey_of_ne`, `lookupKey_removeKey_of_ne` — and for other keys;
* `UniqueKeys.cons`, `UniqueKeys.modifyKey`, `UniqueKeys.removeKey` — the keys stay unique;
* `lookupKey_foldl_insertNew`, `uniqueKeys_foldl_insertNew` — a list into which only records with
  new keys are inserted, one after the other, has the first record of every key.
-/

namespace KuberneTSN.Lib

variable {α κ : Type*} (key : α → κ)

/-- No two records have the same key. -/
def UniqueKeys (l : List α) : Prop := (l.map key).Nodup

variable [DecidableEq κ]

/-- The first record with the key `k`. -/
def lookupKey (k : κ) (l : List α) : Option α := l.find? fun x => key x = k

/-- The list with the first record with the key `k` changed by `f`. -/
def modifyKey (k : κ) (f : α → α) : List α → List α
  | [] => []
  | x :: l => if key x = k then f x :: l else x :: modifyKey k f l

/-- The list without the first record with the key `k`. -/
def removeKey (k : κ) (l : List α) : List α := l.eraseP fun x => key x = k

variable {key} {k k' : κ} {f : α → α} {x y : α} {l : List α}

theorem lookupKey_cons :
    lookupKey key k (x :: l) = if key x = k then some x else lookupKey key k l := by
  unfold lookupKey
  rw [List.find?_cons]
  split_ifs with h <;> simp [h]

/-- The record that a search finds has the key. -/
theorem key_of_lookupKey (h : lookupKey key k l = some x) : key x = k := by
  unfold lookupKey at h
  simpa using List.find?_some h

/-- A search that finds nothing. -/
theorem lookupKey_eq_none : lookupKey key k l = none ↔ k ∉ l.map key := by
  simp [lookupKey]

/-- A search among images. -/
theorem lookupKey_map {β : Type*} (g : β → α) (xs : List β) :
    lookupKey key k (xs.map g) = (lookupKey (fun y => key (g y)) k xs).map g := by
  unfold lookupKey
  rw [List.find?_map]
  rfl

omit [DecidableEq κ] in
theorem uniqueKeys_cons : UniqueKeys key (x :: l) ↔ key x ∉ l.map key ∧ UniqueKeys key l :=
  List.nodup_cons

/-- **Records are found by their keys.** -/
theorem mem_iff_lookupKey (h : UniqueKeys key l) : x ∈ l ↔ lookupKey key (key x) l = some x := by
  induction l with
  | nil => simp [lookupKey]
  | cons y l ih =>
      obtain ⟨hnew, hl⟩ := uniqueKeys_cons.mp h
      rw [lookupKey_cons, List.mem_cons, ih hl]
      split_ifs with hkey
      · have hnone : lookupKey key (key x) l = none := lookupKey_eq_none.mpr (hkey ▸ hnew)
        simp [hnone, eq_comm]
      · have hne : x ≠ y := fun heq => hkey (congrArg key heq.symm)
        simp [hne]

/-! ## Insertion at the head -/

theorem UniqueKeys.cons (h : UniqueKeys key l) (hnew : lookupKey key (key x) l = none) :
    UniqueKeys key (x :: l) :=
  uniqueKeys_cons.mpr ⟨lookupKey_eq_none.mp hnew, h⟩

theorem lookupKey_cons_self : lookupKey key (key x) (x :: l) = some x := by
  rw [lookupKey_cons, if_pos rfl]

theorem lookupKey_cons_of_ne (h : key x ≠ k) : lookupKey key k (x :: l) = lookupKey key k l := by
  rw [lookupKey_cons, if_neg h]

/-- Insertion at the head of a record whose key is new. -/
def insertNew (key : α → κ) (l : List α) (x : α) : List α :=
  if (lookupKey key (key x) l).isSome then l else x :: l

theorem lookupKey_insertNew :
    lookupKey key k (insertNew key l x) = (lookupKey key k l).or (lookupKey key k [x]) := by
  unfold insertNew
  rw [lookupKey_cons (l := [])]
  by_cases hkey : key x = k
  · subst hkey
    cases hfound : lookupKey key (key x) l with
    | none => simp [lookupKey_cons]
    | some y => simp [hfound]
  · have hnil : lookupKey key k ([] : List α) = none := rfl
    rw [if_neg hkey, hnil, Option.or_none]
    split_ifs
    · rfl
    · exact lookupKey_cons_of_ne hkey

/-- **The first record of a key is the one that is found.** -/
theorem lookupKey_foldl_insertNew (xs : List α) :
    lookupKey key k (xs.foldl (insertNew key) l) = (lookupKey key k l).or (lookupKey key k xs) := by
  induction xs generalizing l with
  | nil => exact (Option.or_none).symm
  | cons x xs ih =>
      rw [List.foldl_cons, ih, lookupKey_insertNew, Option.or_assoc]
      congr 1
      rw [lookupKey_cons (l := []), lookupKey_cons (l := xs)]
      split_ifs <;> rfl

theorem UniqueKeys.insertNew (h : UniqueKeys key l) : UniqueKeys key (insertNew key l x) := by
  unfold Lib.insertNew
  split_ifs with hsome
  · exact h
  · exact h.cons (Option.not_isSome_iff_eq_none.mp hsome)

theorem uniqueKeys_foldl_insertNew (h : UniqueKeys key l) (xs : List α) :
    UniqueKeys key (xs.foldl (Lib.insertNew key) l) := by
  induction xs generalizing l with
  | nil => exact h
  | cons x xs ih => exact ih h.insertNew

/-! ## Change in place -/

/-- A change that keeps the key of every record keeps the list of keys. -/
theorem map_modifyKey (hf : ∀ x, key (f x) = key x) : (modifyKey key k f l).map key = l.map key := by
  induction l with
  | nil => rfl
  | cons x l ih =>
      unfold modifyKey
      split_ifs
      · simp [hf]
      · simp [ih]

theorem UniqueKeys.modifyKey (h : UniqueKeys key l) (hf : ∀ x, key (f x) = key x) :
    UniqueKeys key (modifyKey key k f l) := by
  unfold UniqueKeys
  rw [map_modifyKey hf]
  exact h

theorem lookupKey_modifyKey_self (hf : ∀ x, key (f x) = key x) :
    lookupKey key k (modifyKey key k f l) = (lookupKey key k l).map f := by
  induction l with
  | nil => rfl
  | cons x l ih =>
      unfold modifyKey
      split_ifs with hkey
      · simp [lookupKey_cons, hf, hkey]
      · rw [lookupKey_cons_of_ne hkey, lookupKey_cons_of_ne hkey, ih]

theorem lookupKey_modifyKey_of_ne (hf : ∀ x, key (f x) = key x) (hne : k ≠ k') :
    lookupKey key k' (modifyKey key k f l) = lookupKey key k' l := by
  induction l with
  | nil => rfl
  | cons x l ih =>
      unfold modifyKey
      split_ifs with hkey
      · have hx : key x ≠ k' := hkey ▸ hne
        rw [lookupKey_cons_of_ne hx, lookupKey_cons_of_ne ((hf x).trans_ne hx)]
      · rw [lookupKey_cons, lookupKey_cons, ih]

/-! ## Removal -/

theorem removeKey_cons :
    removeKey key k (x :: l) = if key x = k then l else x :: removeKey key k l := by
  unfold removeKey
  rw [List.eraseP_cons]
  split_ifs with h <;> simp [h]

theorem UniqueKeys.removeKey (h : UniqueKeys key l) : UniqueKeys key (removeKey key k l) :=
  h.sublist (List.eraseP_sublist.map key)

theorem lookupKey_removeKey_of_ne (hne : k ≠ k') :
    lookupKey key k' (removeKey key k l) = lookupKey key k' l := by
  induction l with
  | nil => rfl
  | cons x l ih =>
      rw [removeKey_cons]
      split_ifs with hkey
      · rw [lookupKey_cons_of_ne (hkey ▸ hne)]
      · rw [lookupKey_cons, lookupKey_cons, ih]

end KuberneTSN.Lib
