import QueryTally.Proofs.Table

/-! # The order of the hours in a table

Rows are kept in the bytewise order of their keys. The keys of hours are big-endian words, so
they sort as unsigned words: hours from the epoch on come in their own order, and the hours
before the epoch after them. The units of a table come each once, in that order. -/

namespace QueryTally

namespace Bytes

theorem bigEndian_succ (k n : Nat) :
    bigEndian (k + 1) n = bigEndian k (n / 256) ++ [UInt8.ofNat n] := by
  simp [bigEndian, littleEndian]

/-- At equal lengths the last byte decides only between equal beginnings. -/
theorem concat_lt_concat_iff {xs ys : List UInt8} {a b : UInt8} (h : xs.length = ys.length) :
    xs ++ [a] < ys ++ [b] ↔ xs < ys ∨ xs = ys ∧ a < b := by
  induction xs generalizing ys with
  | nil =>
    obtain rfl := List.length_eq_zero_iff.mp h.symm
    simp [List.cons_lt_cons_iff]
  | cons x xs ih =>
    cases ys with
    | nil => cases h
    | cons y ys =>
      have hlen : xs.length = ys.length := Nat.succ.inj h
      simp only [List.cons_append, List.cons_lt_cons_iff, ih hlen, List.cons.injEq]
      grind

/-- **Big-endian words sort as numbers.** -/
theorem bigEndian_lt_iff {k m n : Nat} (hm : m < capacity k) (hn : n < capacity k) :
    bigEndian k m < bigEndian k n ↔ m < n := by
  induction k generalizing m n with
  | zero =>
    rw [capacity] at hm hn
    obtain rfl : m = n := by omega
    simp
  | succ k ih =>
    rw [capacity] at hm hn
    have hm' : m / 256 < capacity k := by omega
    have hn' : n / 256 < capacity k := by omega
    have heq : bigEndian k (m / 256) = bigEndian k (n / 256) ↔ m / 256 = n / 256 := by
      refine ⟨fun h => ?_, congrArg (bigEndian k)⟩
      rw [← ofBigEndian_bigEndian hm', h, ofBigEndian_bigEndian hn']
    rw [bigEndian_succ, bigEndian_succ, concat_lt_concat_iff (by simp), ih hm' hn', heq,
      UInt8.lt_iff_toNat_lt, UInt8.toNat_ofNat', UInt8.toNat_ofNat']
    omega

end Bytes

namespace Hour

theorem key_lt_iff {h k : Hour} : h.key < k.key ↔ h.toUInt64.toNat < k.toUInt64.toNat :=
  Bytes.bigEndian_lt_iff h.toUInt64.toNat_lt k.toUInt64.toNat_lt

/-- From the epoch on keys sort as hours. -/
theorem key_lt_iff_of_nonneg {h k : Hour} (hh : 0 ≤ h) (hk : 0 ≤ k) :
    h.key < k.key ↔ h < k := by
  have h0 : 0 ≤ h.toInt := Int64.le_iff_toInt_le.mp hh
  have k0 : 0 ≤ k.toInt := Int64.le_iff_toInt_le.mp hk
  rw [key_lt_iff, Int64.toNat_toUInt64_of_le hh, Int64.toNat_toUInt64_of_le hk,
    Int64.lt_iff_toInt_lt]
  change h.toInt.toNat < k.toInt.toNat ↔ h.toInt < k.toInt
  omega

/-- The cells of hours from the epoch on come in the order of the hours. -/
theorem rank_cell_lt_iff {h k : Hour} (hh : 0 ≤ h) (hk : 0 ≤ k) :
    h.cell.rank < k.cell.rank ↔ h < k := by
  rw [← key_lt_iff_of_nonneg hh hk]
  simp [cell, Cell.rank]

end Hour

/-! ## Lists without repetitions -/

theorem eraseReps_loop {α : Type} (r : α → α → Bool) (a : α) (l acc : List α) :
    List.eraseRepsBy.loop r a l acc = acc.reverse ++ List.eraseRepsBy.loop r a l [] := by
  induction l generalizing a acc with
  | nil => simp [List.eraseRepsBy.loop]
  | cons b l ih =>
    simp only [List.eraseRepsBy.loop]
    cases r a b with
    | true => exact ih a acc
    | false =>
      simp only [ih b (a :: acc), ih b [a]]
      simp

section EraseReps

variable {α : Type} [BEq α] [LawfulBEq α] {a b : α} {l : List α}

theorem eraseReps_cons_self (a : α) (l : List α) :
    (a :: a :: l).eraseReps = (a :: l).eraseReps := by
  simp [List.eraseReps, List.eraseRepsBy, List.eraseRepsBy.loop]

theorem eraseReps_cons_of_ne (h : a ≠ b) (l : List α) :
    (a :: b :: l).eraseReps = a :: (b :: l).eraseReps := by
  have hne : (a == b) = false := beq_eq_false_iff_ne.mpr h
  simp only [List.eraseReps, List.eraseRepsBy, List.eraseRepsBy.loop, hne]
  rw [eraseReps_loop]
  rfl

theorem mem_eraseReps {x : α} : x ∈ l.eraseReps ↔ x ∈ l := by
  induction l with
  | nil => rfl
  | cons a l ih =>
    cases l with
    | nil => rfl
    | cons b l =>
      by_cases h : a = b
      · subst h
        rw [eraseReps_cons_self, ih]
        simp
      · rw [eraseReps_cons_of_ne h, List.mem_cons, ih, ← List.mem_cons]

/-- Of a list in which everything is equal to or related to what comes after it. -/
theorem pairwise_eraseReps {R : α → α → Prop} (htrans : ∀ {a b c}, R a b → R b c → R a c)
    (h : l.Pairwise fun a b => a = b ∨ R a b) : l.eraseReps.Pairwise R := by
  induction l with
  | nil => exact .nil
  | cons a l ih =>
    obtain ⟨hfirst, hrest⟩ := List.pairwise_cons.mp h
    cases l with
    | nil => exact List.pairwise_singleton R a
    | cons b l =>
      by_cases hab : a = b
      · subst hab
        rw [eraseReps_cons_self]
        exact ih hrest
      · rw [eraseReps_cons_of_ne hab]
        refine List.pairwise_cons.mpr ⟨fun x hx => ?_, ih hrest⟩
        -- What comes later is at or after the second element, which is after the first.
        have hlt : R a b := (hfirst b List.mem_cons_self).resolve_left hab
        rcases List.mem_cons.mp (mem_eraseReps.mp hx) with rfl | hx
        · exact hlt
        · rcases (List.pairwise_cons.mp hrest).1 x hx with rfl | hbx
          · exact hlt
          · exact htrans hlt hbx

end EraseReps

/-! ## Units -/

namespace Table

variable {t : Table} {unit : Cell} {h : Hour}

theorem mem_units_iff : unit ∈ t.units ↔ t.hasUnit unit = true := by
  rw [units, mem_eraseReps, hasUnit_iff, List.mem_map]

/-- **The units of a table come in order.** -/
theorem pairwise_units (t : Table) : t.units.Pairwise fun a b => a.rank < b.rank := by
  refine pairwise_eraseReps List.lt_trans (List.pairwise_map.mpr (t.sorted.imp ?_))
  rintro r s (hlt | ⟨heq, -⟩)
  · exact .inr hlt
  · exact .inl heq

theorem nodup_units (t : Table) : t.units.Nodup := by
  refine t.pairwise_units.imp ?_
  rintro a b hlt rfl
  exact List.lt_irrefl _ hlt

end Table

/-- The hour that a cell stands for. -/
def Cell.hour? : Cell → Option Hour
  | .text _ => none
  | .blob bytes => Hour.ofKey? bytes

theorem Cell.hour?_eq_some_iff {c : Cell} {h : Hour} : c.hour? = some h ↔ c = h.cell := by
  cases c with
  | text s => exact ⟨nofun, nofun⟩
  | blob bytes => simp [Cell.hour?, Hour.ofKey?_eq_some_iff, Hour.cell]

namespace Table

variable {t : Table} {h : Hour}

/-- The hours of a table, in the order of their keys. -/
def hours (t : Table) : List Hour := t.units.filterMap Cell.hour?

theorem mem_hours_iff : h ∈ t.hours ↔ t.hasUnit h.cell = true := by
  simp [hours, Cell.hour?_eq_some_iff, mem_units_iff]

/-- The hours of a table sort as their keys. -/
theorem pairwise_hours (t : Table) : t.hours.Pairwise fun h k => h.cell.rank < k.cell.rank := by
  refine t.pairwise_units.filterMap _ fun a b hlt h ha k hb => ?_
  rw [← Cell.hour?_eq_some_iff.mp ha, ← Cell.hour?_eq_some_iff.mp hb]
  exact hlt

end Table
end QueryTally
