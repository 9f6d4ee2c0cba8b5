import QueryTally.Proofs.Store.KeyOrder

/-! # What a purge deletes

A purge walks the hours of a table in the order of their keys and stops at the first that is to
be kept, so that it deletes a beginning of that walk (`stale_eq_takeWhile`). In a table that has
no hour before the epoch the walk goes forward in time, and the beginning is all there is before
the cutoff. Rows under keys that are no hour's stay. -/

namespace QueryTally

/-- With no text among the units, a look that stops at a cutoff has seen the hours before it. -/
theorem Scan.seen_ofUnits {units : List Cell} (h : ∀ u ∈ units, u.isText = false) (cutoff : Hour) :
    ((ofUnits (fun h => decide (cutoff ≤ h)) units).seen.filter fun h => decide (h < cutoff)) =
      (units.filterMap Cell.hour?).takeWhile fun h => decide (h < cutoff) := by
  induction units with
  | nil => rfl
  | cons unit rest ih =>
    obtain ⟨hunit, hrest⟩ := List.forall_mem_cons.mp h
    cases unit with
    | text s => cases hunit
    | blob bytes =>
      cases hkey : Hour.ofKey? bytes with
      | none =>
        have hnone : Cell.hour? (.blob bytes) = none := hkey
        rw [List.filterMap_cons_none hnone]
        simp only [ofUnits, hkey]
        exact ih hrest
      | some k =>
        have hsome : Cell.hour? (.blob bytes) = some k := hkey
        rw [List.filterMap_cons_some hsome]
        simp only [ofUnits, hkey]
        by_cases hk : k < cutoff
        · have hnot : ¬ cutoff ≤ k := Int64.not_le.mpr hk
          simp [hk, hnot, ih hrest]
        · have hle : cutoff ≤ k := Int64.not_lt.mp hk
          simp [hk, hle]

/-- In a list that goes forward, what is before a cutoff is its beginning. -/
theorem mem_takeWhile_before {hours : List Hour} (h : hours.Pairwise (· < ·)) {k cutoff : Hour} :
    k ∈ hours.takeWhile (fun h => decide (h < cutoff)) ↔ k ∈ hours ∧ k < cutoff := by
  induction hours with
  | nil => simp
  | cons first rest ih =>
    obtain ⟨hfirst, hrest⟩ := List.pairwise_cons.mp h
    by_cases hlt : first < cutoff
    · have hstep : k = first → k < cutoff := fun e => e ▸ hlt
      simp only [List.takeWhile_cons, hlt, decide_true, if_true, List.mem_cons, ih hrest]
      grind
    · have hafter : k ∈ first :: rest → ¬ k < cutoff := by
        intro hk hkc
        rcases List.mem_cons.mp hk with rfl | hk
        · exact hlt hkc
        · exact hlt (Int64.lt_trans (hfirst k hk) hkc)
      simp only [List.takeWhile_cons, hlt, decide_false, Bool.false_eq_true, if_false,
        List.not_mem_nil, false_iff, not_and]
      exact hafter

theorem Row.Before.not_sameKey {r s : Row} (h : s.Before r) : ¬ r.SameKey s := by
  rintro ⟨hu, hslot⟩
  rcases h with h | ⟨-, h⟩
  · exact List.lt_irrefl _ (hu ▸ h)
  · exact List.lt_irrefl _ (hslot ▸ h)

/-- A row that is not of an hour before a cutoff. -/
def Row.Since (cutoff : Hour) (r : Row) : Prop := ∀ h : Hour, r.unit = h.cell → cutoff ≤ h

theorem Row.since_iff {cutoff h : Hour} {r : Row} (hu : r.unit = h.cell) :
    r.Since cutoff ↔ cutoff ≤ h := by
  refine ⟨fun hr => hr h hu, fun hle k hk => ?_⟩
  obtain rfl := Hour.cell_inj.mp (hu.symm.trans hk)
  exact hle

namespace Table

variable {t : Table} {h cutoff : Hour} {r s : Row}

/-- The units of a table are all bytes. -/
def Keyed (t : Table) : Prop := ∀ r ∈ t.rows, r.unit.isText = false

/-- **A purge deletes a beginning.** -/
theorem stale_eq_takeWhile (ht : t.Keyed) (cutoff : Hour) :
    t.stale cutoff = t.hours.takeWhile fun h => decide (h < cutoff) := by
  refine Scan.seen_ofUnits (fun u hu => ?_) cutoff
  obtain ⟨r, hr, rfl⟩ := hasUnit_iff.mp (mem_units_iff.mp hu)
  exact ht r hr

/-- A table whose units are all bytes, with no hour before the epoch. -/
structure Dated (t : Table) : Prop where
  keyed : t.Keyed
  hours : ∀ h : Hour, t.hasUnit h.cell = true → 0 ≤ h

/-- The hours of such a table come in their own order. -/
theorem Dated.pairwise_hours (ht : t.Dated) : t.hours.Pairwise (· < ·) := by
  refine t.pairwise_hours.imp_of_mem fun {h k} hh hk hlt => ?_
  exact (Hour.rank_cell_lt_iff (ht.hours h (mem_hours_iff.mp hh))
    (ht.hours k (mem_hours_iff.mp hk))).mp hlt

/-- **A purge finds every hour before its cutoff**, and no other. -/
theorem Dated.mem_stale_iff (ht : t.Dated) :
    h ∈ t.stale cutoff ↔ t.hasUnit h.cell = true ∧ h < cutoff := by
  rw [stale_eq_takeWhile ht.keyed, mem_takeWhile_before ht.pairwise_hours, mem_hours_iff]

/-! ## Rows -/

theorem mem_rows_without {hours : List Hour} :
    r ∈ (t.without hours).rows ↔ r ∈ t.rows ∧ ∀ h ∈ hours, r.unit ≠ h.cell := by
  unfold without
  induction hours generalizing t with
  | nil => simp
  | cons h hours ih =>
    rw [List.foldl_cons, ih, mem_rows_deleteUnit, List.forall_mem_cons, and_assoc]

/-- **Purging.** Every row stays that is not of an hour before the cutoff. -/
theorem Dated.mem_rows_purge (ht : t.Dated) :
    r ∈ (t.purge cutoff).rows ↔ r ∈ t.rows ∧ r.Since cutoff := by
  rw [purge, mem_rows_without]
  refine and_congr_right fun hr => ⟨fun hall h hu => ?_, fun hall h hh hu => ?_⟩
  · refine Int64.not_lt.mp fun hlt => hall h (ht.mem_stale_iff.mpr ⟨?_, hlt⟩) hu
    exact hasUnit_iff.mpr ⟨r, hr, hu⟩
  · exact Int64.not_lt.mpr (hall h hu) (ht.mem_stale_iff.mp hh).2

/-- A table has one row under a key. -/
theorem get?_of_mem (hr : r ∈ t.rows) : t.get? r.unit r.slot = some r.value := by
  obtain ⟨rows, hsorted⟩ := t
  simp only [get?] at hr ⊢
  induction rows with
  | nil => cases hr
  | cons s rest ih =>
    obtain ⟨hs, hrest⟩ := List.pairwise_cons.mp hsorted
    rcases List.mem_cons.mp hr with rfl | hr
    · simp
    · rw [List.find?_cons, not_keyed (hs r hr).not_sameKey]
      exact ih hrest hr

theorem get?_eq_some_iff {unit slot value : Cell} :
    t.get? unit slot = some value ↔ ⟨unit, slot, value⟩ ∈ t.rows :=
  ⟨mem_of_get?, get?_of_mem⟩

theorem mem_rows_put : r ∈ (t.put s).rows ↔ r = s ∨ r ∈ t.rows ∧ ¬ r.SameKey s := by
  have hrow : ∀ t : Table, r ∈ t.rows ↔ t.get? r.unit r.slot = some r.value :=
    fun t => get?_eq_some_iff.symm
  rw [hrow, hrow, get?_put]
  by_cases hkey : r.unit = s.unit ∧ r.slot = s.slot
  · have hsame : r.SameKey s := hkey
    simp only [hkey, and_self, if_true, hsame, not_true_eq_false, and_false, or_false,
      Option.some.injEq]
    cases r
    cases s
    simp_all [eq_comm]
  · have hne : r ≠ s := fun e => hkey (e ▸ ⟨rfl, rfl⟩)
    have hother : ¬ r.SameKey s := hkey
    simp only [hkey, if_false, hne, false_or, hother, not_false_eq_true, and_true]

theorem mem_rows_store {record : HourRecord} :
    r ∈ (t.store h record).rows ↔ r = ⟨h.cell, recordSlot, .blob (Codec.encode record)⟩ ∨
      r ∈ t.rows ∧ ¬ (r.unit = h.cell ∧ r.slot = recordSlot) :=
  mem_rows_put

theorem hasUnit_store (t : Table) (h k : Hour) (record : HourRecord) :
    (t.store h record).hasUnit k.cell = true ↔ h = k ∨ t.hasUnit k.cell = true := by
  simp only [hasUnit_iff, mem_rows_store]
  constructor
  · rintro ⟨r, rfl | ⟨hr, -⟩, hu⟩
    · exact .inl (Hour.cell_inj.mp hu)
    · exact .inr ⟨r, hr, hu⟩
  · rintro (rfl | ⟨r, hr, hu⟩)
    · exact ⟨_, .inl rfl, rfl⟩
    · by_cases hnew : r.unit = h.cell ∧ r.slot = recordSlot
      · exact ⟨_, .inl rfl, hnew.1.symm.trans hu⟩
      · exact ⟨r, .inr ⟨hr, hnew⟩, hu⟩

end Table
end QueryTally
