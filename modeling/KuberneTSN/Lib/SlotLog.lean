import Mathlib

/-!
# Logs of numbered elements in reused slots

Elements with consecutive numbers (positions) pass through slots that are used again and again. The
log lists the writes and the reads, oldest first, each with the thread that made it, the position of
the element, the slot and the value. `ExactlyOnce` is what a log of correct deliveries looks like.

* `ExactlyOnce.write` — a write keeps it, if its position is new and the elements written to the
  same slot before have been read;
* `ExactlyOnce.read` — a read keeps it, if its position is new and it returns what was written.
-/

namespace KuberneTSN.Lib

variable {ι α : Type*}

/-- An access to a slot. -/
inductive Access (ι α : Type*) where
  | write (thread : ι) (pos slot : ℕ) (value : α)
  | read (thread : ι) (pos slot : ℕ) (value : α)
  deriving DecidableEq, Repr

/-- Position `p` has been written to slot `s` with value `v`. -/
def Wrote (log : List (Access ι α)) (p s : ℕ) (v : α) : Prop := ∃ i, .write i p s v ∈ log

/-- Position `p` has been read from slot `s` with value `v`. -/
def Read (log : List (Access ι α)) (p s : ℕ) (v : α) : Prop := ∃ i, .read i p s v ∈ log

/-- The positions written, oldest first. -/
def writtenPositions (log : List (Access ι α)) : List ℕ :=
  log.filterMap fun
    | .write _ p _ _ => some p
    | .read _ _ _ _ => none

/-- The positions read, oldest first. -/
def readPositions (log : List (Access ι α)) : List ℕ :=
  log.filterMap fun
    | .write _ _ _ _ => none
    | .read _ p _ _ => some p

/-- Every position is written at most once and read at most once; a read returns what was written
for its position, and written before; and a slot is written again only after its element was read. -/
structure ExactlyOnce (log : List (Access ι α)) : Prop where
  written_once : (writtenPositions log).Nodup
  read_once : (readPositions log).Nodup
  read_written : ∀ earlier later i p s v,
    log = earlier ++ .read i p s v :: later → Wrote earlier p s v
  overwritten_read : ∀ earlier later i p s v,
    log = earlier ++ .write i p s v :: later → ∀ p' v', Wrote earlier p' s v' → Read earlier p' s v'

/-- The empty log. -/
theorem ExactlyOnce.nil : ExactlyOnce ([] : List (Access ι α)) where
  written_once := List.nodup_nil
  read_once := List.nodup_nil
  read_written _ _ _ _ _ _ h := by simp at h
  overwritten_read _ _ _ _ _ _ h := by simp at h

variable {log : List (Access ι α)}

theorem mem_writtenPositions {p : ℕ} : p ∈ writtenPositions log ↔ ∃ s v, Wrote log p s v := by
  simp only [writtenPositions, List.mem_filterMap, Wrote]
  constructor
  · rintro ⟨⟨i, q, s, v⟩ | ⟨i, q, s, v⟩, hmem, h⟩
    · cases h
      exact ⟨s, v, i, hmem⟩
    · cases h
  · rintro ⟨s, v, i, hmem⟩
    exact ⟨_, hmem, rfl⟩

theorem mem_readPositions {p : ℕ} : p ∈ readPositions log ↔ ∃ s v, Read log p s v := by
  simp only [readPositions, List.mem_filterMap, Read]
  constructor
  · rintro ⟨⟨i, q, s, v⟩ | ⟨i, q, s, v⟩, hmem, h⟩
    · cases h
    · cases h
      exact ⟨s, v, i, hmem⟩
  · rintro ⟨s, v, i, hmem⟩
    exact ⟨_, hmem, rfl⟩

@[simp]
theorem writtenPositions_write (i : ι) (p s : ℕ) (v : α) :
    writtenPositions (log ++ [Access.write i p s v]) = writtenPositions log ++ [p] := by
  simp [writtenPositions]

@[simp]
theorem writtenPositions_read (i : ι) (p s : ℕ) (v : α) :
    writtenPositions (log ++ [Access.read i p s v]) = writtenPositions log := by
  simp [writtenPositions]

@[simp]
theorem readPositions_write (i : ι) (p s : ℕ) (v : α) :
    readPositions (log ++ [Access.write i p s v]) = readPositions log := by
  simp [readPositions]

@[simp]
theorem readPositions_read (i : ι) (p s : ℕ) (v : α) :
    readPositions (log ++ [Access.read i p s v]) = readPositions log ++ [p] := by
  simp [readPositions]

/-- The accesses before one of an extended log: it is an old one, or it is the new one. -/
theorem append_singleton_split {β : Type*} {l earlier later : List β} {x y : β}
    (h : l ++ [x] = earlier ++ y :: later) :
    (∃ later', l = earlier ++ y :: later') ∨ (l = earlier ∧ x = y) := by
  rcases List.eq_nil_or_concat later with rfl | ⟨later', z, rfl⟩
  · obtain ⟨hl, hx⟩ := List.append_inj' h rfl
    cases hx
    exact Or.inr ⟨hl, rfl⟩
  · rw [List.concat_eq_append, ← List.cons_append, ← List.append_assoc] at h
    exact Or.inl ⟨later', (List.append_inj' h rfl).1⟩

theorem wrote_write {i : ι} {p p' s s' : ℕ} {v v' : α} :
    Wrote (log ++ [Access.write i p s v]) p' s' v' ↔
      Wrote log p' s' v' ∨ (p' = p ∧ s' = s ∧ v' = v) := by
  simp only [Wrote, List.mem_append, List.mem_singleton, exists_or, Access.write.injEq]
  simp

theorem wrote_read {i : ι} {p p' s s' : ℕ} {v v' : α} :
    Wrote (log ++ [Access.read i p s v]) p' s' v' ↔ Wrote log p' s' v' := by
  simp [Wrote]

theorem read_write {i : ι} {p p' s s' : ℕ} {v v' : α} :
    Read (log ++ [Access.write i p s v]) p' s' v' ↔ Read log p' s' v' := by
  simp [Read]

theorem read_read {i : ι} {p p' s s' : ℕ} {v v' : α} :
    Read (log ++ [Access.read i p s v]) p' s' v' ↔
      Read log p' s' v' ∨ (p' = p ∧ s' = s ∧ v' = v) := by
  simp only [Read, List.mem_append, List.mem_singleton, exists_or, Access.read.injEq]
  simp

/-- What is read has been written. -/
theorem ExactlyOnce.wrote_of_read (h : ExactlyOnce log) {p s : ℕ} {v : α} (hr : Read log p s v) :
    Wrote log p s v := by
  obtain ⟨i, hmem⟩ := hr
  obtain ⟨earlier, later, heq⟩ := List.append_of_mem hmem
  obtain ⟨j, hj⟩ := h.read_written earlier later i p s v heq
  exact ⟨j, heq ▸ List.mem_append_left _ hj⟩

/-- A position is written with one value, to one slot. -/
theorem wrote_unique (h : (writtenPositions log).Nodup) {p s s' : ℕ} {v v' : α}
    (hw : Wrote log p s v) (hw' : Wrote log p s' v') : s = s' ∧ v = v' := by
  obtain ⟨i, hi⟩ := hw
  obtain ⟨j, hj⟩ := hw'
  induction log with
  | nil => simp at hi
  | cons a log ih =>
      cases a with
      | read l q t u =>
          have hcons : writtenPositions (.read l q t u :: log) = writtenPositions log := rfl
          rw [hcons] at h
          rw [List.mem_cons] at hi hj
          exact ih h (hi.resolve_left nofun) (hj.resolve_left nofun)
      | write l q t u =>
          have hcons : writtenPositions (.write l q t u :: log) = q :: writtenPositions log := rfl
          rw [hcons, List.nodup_cons] at h
          obtain ⟨hq, hrest⟩ := h
          rw [List.mem_cons] at hi hj
          rcases hi with hi | hi <;> rcases hj with hj | hj
          · cases hi
            cases hj
            exact ⟨rfl, rfl⟩
          · cases hi
            exact absurd (mem_writtenPositions.mpr ⟨_, _, j, hj⟩) hq
          · cases hj
            exact absurd (mem_writtenPositions.mpr ⟨_, _, i, hi⟩) hq
          · exact ih hrest hi hj

/-- **Writing.** -/
theorem ExactlyOnce.write (h : ExactlyOnce log) (i : ι) {p s : ℕ} (v : α)
    (hnew : ∀ s' v', ¬ Wrote log p s' v')
    (hread : ∀ p' v', Wrote log p' s v' → Read log p' s v') :
    ExactlyOnce (log ++ [Access.write i p s v]) where
  written_once := by
    rw [writtenPositions_write]
    refine List.Nodup.append h.written_once (List.nodup_singleton p) ?_
    rw [List.disjoint_singleton]
    intro hp
    obtain ⟨s', v', hw⟩ := mem_writtenPositions.mp hp
    exact hnew s' v' hw
  read_once := by
    rw [readPositions_write]
    exact h.read_once
  read_written := by
    intro earlier later j q s' v' heq
    rcases append_singleton_split heq with ⟨later', hold⟩ | ⟨-, hbad⟩
    · exact h.read_written earlier later' j q s' v' hold
    · cases hbad
  overwritten_read := by
    intro earlier later j q s' v' heq
    rcases append_singleton_split heq with ⟨later', hold⟩ | ⟨hlog, hsame⟩
    · exact h.overwritten_read earlier later' j q s' v' hold
    · cases hsame
      subst hlog
      exact hread

/-- **Reading.** -/
theorem ExactlyOnce.read (h : ExactlyOnce log) (i : ι) {p s : ℕ} {v : α}
    (hnew : ∀ s' v', ¬ Read log p s' v') (hwrote : Wrote log p s v) :
    ExactlyOnce (log ++ [Access.read i p s v]) where
  written_once := by
    rw [writtenPositions_read]
    exact h.written_once
  read_once := by
    rw [readPositions_read]
    refine List.Nodup.append h.read_once (List.nodup_singleton p) ?_
    rw [List.disjoint_singleton]
    intro hp
    obtain ⟨s', v', hr⟩ := mem_readPositions.mp hp
    exact hnew s' v' hr
  read_written := by
    intro earlier later j q s' v' heq
    rcases append_singleton_split heq with ⟨later', hold⟩ | ⟨hlog, hsame⟩
    · exact h.read_written earlier later' j q s' v' hold
    · cases hsame
      subst hlog
      exact hwrote
  overwritten_read := by
    intro earlier later j q s' v' heq
    rcases append_singleton_split heq with ⟨later', hold⟩ | ⟨-, hbad⟩
    · exact h.overwritten_read earlier later' j q s' v' hold
    · cases hbad

end KuberneTSN.Lib
