import QueryTally.Bytes

/-! # Tables

A table maps a unit and a slot to a value. All three are cells: bytes, or text that
something else has put there. Rows are kept in the order of their keys, each key
once. Bytes sort as they are, a beginning before what continues it, and every text
sorts before all bytes. -/

namespace QueryTally

inductive Cell where
  | text (s : String)
  | blob (bytes : List UInt8)
  deriving DecidableEq, Repr

namespace Cell

def isText : Cell → Bool
  | text _ => true
  | blob _ => false

/-- The bytes by which a cell sorts. -/
def rank : Cell → List UInt8
  | text s => 0 :: s.toByteArray.data.toList
  | blob bytes => 1 :: bytes

theorem rank_injective {a b : Cell} (h : a.rank = b.rank) : a = b := by
  cases a with
  | text s =>
    cases b with
    | text t =>
      simp only [rank, List.cons.injEq, true_and, Array.toList_inj] at h
      exact congrArg text (String.toByteArray_inj.mp (ByteArray.ext h))
    | blob bs => simp [rank] at h
  | blob as =>
    cases b with
    | text t => simp [rank] at h
    | blob bs => simpa [rank] using h

end Cell

structure Row where
  unit : Cell
  slot : Cell
  value : Cell
  deriving DecidableEq, Repr

namespace Row

/-- The order of rows: by unit, and by slot within a unit. -/
def Before (r s : Row) : Prop :=
  r.unit.rank < s.unit.rank ∨ r.unit = s.unit ∧ r.slot.rank < s.slot.rank

instance (r s : Row) : Decidable (r.Before s) := inferInstanceAs (Decidable (_ ∨ _ ∧ _))

def SameKey (r s : Row) : Prop := r.unit = s.unit ∧ r.slot = s.slot

instance (r s : Row) : Decidable (r.SameKey s) := inferInstanceAs (Decidable (_ ∧ _))

theorem Before.trans {r s t : Row} (h : r.Before s) (k : s.Before t) : r.Before t := by
  rcases h with h | ⟨hu, h⟩ <;> rcases k with k | ⟨ku, k⟩
  · exact .inl (List.lt_trans h k)
  · exact .inl (ku ▸ h)
  · exact .inl (hu ▸ k)
  · exact .inr ⟨hu.trans ku, List.lt_trans h k⟩

theorem before_or_sameKey_or_before (r s : Row) : r.Before s ∨ r.SameKey s ∨ s.Before r := by
  by_cases h : r.unit.rank < s.unit.rank
  · exact .inl (.inl h)
  by_cases k : s.unit.rank < r.unit.rank
  · exact .inr (.inr (.inl k))
  have hu : r.unit = s.unit :=
    Cell.rank_injective (List.le_antisymm (List.not_lt.mp k) (List.not_lt.mp h))
  by_cases h : r.slot.rank < s.slot.rank
  · exact .inl (.inr ⟨hu, h⟩)
  by_cases k : s.slot.rank < r.slot.rank
  · exact .inr (.inr (.inr ⟨hu.symm, k⟩))
  exact .inr (.inl ⟨hu,
    Cell.rank_injective (List.le_antisymm (List.not_lt.mp k) (List.not_lt.mp h))⟩)

end Row

/-- Rows in the order of their keys. -/
structure Table where
  rows : List Row
  sorted : rows.Pairwise Row.Before
  deriving DecidableEq

namespace Table

def empty : Table := ⟨[], .nil⟩

instance : Inhabited Table := ⟨empty⟩

/-- Sorted rows with one added, or put in place of the row with its key. -/
def putRow (r : Row) : List Row → List Row
  | [] => [r]
  | s :: rest =>
    if r.Before s then r :: s :: rest
    else if r.SameKey s then r :: rest
    else s :: putRow r rest

theorem mem_putRow {r s : Row} {rows : List Row} (h : s ∈ putRow r rows) : s = r ∨ s ∈ rows := by
  induction rows with
  | nil => simpa [putRow] using h
  | cons t rest ih =>
    unfold putRow at h
    split at h
    · simpa using h
    · split at h
      · rcases List.mem_cons.mp h with h | h
        · exact .inl h
        · exact .inr (List.mem_cons_of_mem _ h)
      · rcases List.mem_cons.mp h with h | h
        · exact .inr (h ▸ List.mem_cons_self)
        · exact (ih h).imp_right (List.mem_cons_of_mem _)

theorem sorted_putRow {r : Row} {rows : List Row} (h : rows.Pairwise Row.Before) :
    (putRow r rows).Pairwise Row.Before := by
  induction rows with
  | nil => simp [putRow]
  | cons s rest ih =>
    obtain ⟨hs, hrest⟩ := List.pairwise_cons.mp h
    unfold putRow
    split
    · rename_i hlt
      refine List.pairwise_cons.mpr ⟨fun t ht => ?_, h⟩
      rcases List.mem_cons.mp ht with rfl | ht
      · exact hlt
      · exact hlt.trans (hs t ht)
    · split
      · rename_i hsame
        refine List.pairwise_cons.mpr ⟨fun t ht => ?_, hrest⟩
        have := hs t ht
        unfold Row.Before at this ⊢
        rwa [hsame.1, hsame.2]
      · rename_i hnlt hne
        refine List.pairwise_cons.mpr ⟨fun t ht => ?_, ih hrest⟩
        rcases mem_putRow ht with rfl | ht
        · rcases Row.before_or_sameKey_or_before t s with h | h | h
          · exact absurd h hnlt
          · exact absurd h hne
          · exact h
        · exact hs t ht

def put (t : Table) (r : Row) : Table := ⟨putRow r t.rows, sorted_putRow t.sorted⟩

def get? (t : Table) (unit slot : Cell) : Option Cell :=
  (t.rows.find? fun r => r.unit == unit && r.slot == slot).map (·.value)

def hasUnit (t : Table) (unit : Cell) : Bool := t.rows.any (·.unit == unit)

def deleteUnit (t : Table) (unit : Cell) : Table :=
  ⟨t.rows.filter (·.unit != unit), t.sorted.filter _⟩

/-- The units that have a row, each once, in order. -/
def units (t : Table) : List Cell := (t.rows.map (·.unit)).eraseReps

theorem not_keyed {r : Row} {unit slot : Cell} (h : ¬ (unit = r.unit ∧ slot = r.slot)) :
    (r.unit == unit && r.slot == slot) = false := by
  cases hb : (r.unit == unit && r.slot == slot) with
  | false => rfl
  | true =>
    rw [Bool.and_eq_true, beq_iff_eq, beq_iff_eq] at hb
    exact absurd ⟨hb.1.symm, hb.2.symm⟩ h

theorem get?_put (t : Table) (r : Row) (unit slot : Cell) :
    (t.put r).get? unit slot =
      if unit = r.unit ∧ slot = r.slot then some r.value else t.get? unit slot := by
  obtain ⟨rows, h⟩ := t
  simp only [get?, put]
  induction rows with
  | nil =>
    by_cases hk : unit = r.unit ∧ slot = r.slot
    · simp [putRow, hk]
    · simp [putRow, hk, not_keyed hk]
  | cons s rest ih =>
    have ih := ih (List.pairwise_cons.mp h).2
    unfold putRow
    by_cases hk : unit = r.unit ∧ slot = r.slot
    · obtain ⟨rfl, rfl⟩ := hk
      split
      · simp
      · split
        · simp
        · rename_i hne
          simpa [List.find?_cons, not_keyed (r := s) hne] using ih
    · split
      · simp [not_keyed hk]
      · split
        · rename_i hsame
          have hs : (s.unit == unit && s.slot == slot) = false := by
            rw [← hsame.1, ← hsame.2]
            exact not_keyed hk
          simp [not_keyed hk, hs]
        · cases hs : (s.unit == unit && s.slot == slot)
          · simpa [List.find?_cons, hk, hs] using ih
          · simp [hs]

theorem mem_rows_deleteUnit {t : Table} {unit : Cell} {r : Row} :
    r ∈ (t.deleteUnit unit).rows ↔ r ∈ t.rows ∧ r.unit ≠ unit := by
  simp [deleteUnit]

theorem hasUnit_iff {t : Table} {unit : Cell} :
    t.hasUnit unit = true ↔ ∃ r ∈ t.rows, r.unit = unit := by
  simp [hasUnit]

end Table
end QueryTally
