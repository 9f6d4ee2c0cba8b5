import QueryTally.Proofs.Store.Purging

/-! # Tables that a purge leaves as they are

Whatever is in a table, a second purge finds nothing. An hour before the cutoff that the first
one left stands after an hour that is kept, or in a table with a text among its units; and so it
still does. Storing an hour that is not before the cutoff changes nothing about that, and storing
it again changes nothing at all. -/

namespace QueryTally

/-- In an ordered list, the beginning that passes a test has the members that pass it with all that
comes before them. -/
theorem mem_takeWhile_iff_of_pairwise {α : Type} {R : α → α → Prop} (hirrefl : ∀ a, ¬ R a a)
    (hasymm : ∀ {a b}, R a b → ¬ R b a) {l : List α} (h : l.Pairwise R) {p : α → Bool} {a : α} :
    a ∈ l.takeWhile p ↔ a ∈ l ∧ p a = true ∧ ∀ b ∈ l, R b a → p b = true := by
  induction l with
  | nil => simp
  | cons first rest ih =>
    obtain ⟨hfirst, hrest⟩ := List.pairwise_cons.mp h
    by_cases hp : p first = true
    · rw [List.takeWhile_cons_of_pos hp, List.mem_cons, ih hrest, List.mem_cons,
        List.forall_mem_cons]
      constructor
      · rintro (rfl | ⟨ha, hpa, hall⟩)
        · exact ⟨.inl rfl, hp, fun hR => absurd hR (hirrefl _), fun b hb hR =>
            absurd hR (hasymm (hfirst b hb))⟩
        · exact ⟨.inr ha, hpa, fun _ => hp, hall⟩
      · rintro ⟨rfl | ha, hpa, -, hall⟩
        · exact .inl rfl
        · exact .inr ⟨ha, hpa, hall⟩
    · rw [List.takeWhile_cons_of_neg hp]
      refine iff_of_false List.not_mem_nil ?_
      rintro ⟨ha, hpa, hall⟩
      rcases List.mem_cons.mp ha with rfl | ha
      · exact hp hpa
      · exact hp (hall first List.mem_cons_self (hfirst a ha))

theorem Row.not_before_self (r : Row) : ¬ r.Before r := by
  rintro (h | ⟨-, h⟩) <;> exact List.lt_irrefl _ h

theorem Cell.rank_lt_of_isText {a b : Cell} (ha : a.isText = true) (hb : b.isText = false) :
    a.rank < b.rank := by
  cases a with
  | blob _ => cases ha
  | text s =>
    cases b with
    | text _ => cases hb
    | blob bytes => exact List.Lex.rel (by decide)

namespace Table

variable {t : Table} {h k now cutoff : Hour} {r : Row} {record : HourRecord}

/-- A text among the units ends the look at once. -/
theorem stale_of_not_keyed (ht : ¬ t.Keyed) (cutoff : Hour) : t.stale cutoff = [] := by
  obtain ⟨r, hr, htext⟩ : ∃ r ∈ t.rows, r.unit.isText = true := by
    simpa [Keyed] using ht
  have hmem : r.unit ∈ t.units := mem_units_iff.mpr (hasUnit_iff.mpr ⟨r, hr, rfl⟩)
  have hsorted := t.pairwise_units
  unfold stale
  cases hunits : t.units with
  | nil => rfl
  | cons unit rest =>
    rw [hunits] at hmem hsorted
    cases unit with
    | text s => rfl
    | blob bytes =>
      rcases List.mem_cons.mp hmem with hfirst | hrest
      · rw [hfirst] at htext
        cases htext
      · have hlt := (List.pairwise_cons.mp hsorted).1 _ hrest
        exact absurd (List.lt_trans hlt (Cell.rank_lt_of_isText htext rfl)) (List.lt_irrefl _)

/-- **What a purge finds**, in any table: the hours before the cutoff that come before all those
that are kept, if no unit is a text. -/
theorem mem_stale_iff : h ∈ t.stale cutoff ↔ t.Keyed ∧ t.hasUnit h.cell = true ∧ h < cutoff ∧
    ∀ k : Hour, t.hasUnit k.cell = true → k.cell.rank < h.cell.rank → k < cutoff := by
  by_cases ht : t.Keyed
  · have hasymm : ∀ {a b : Hour}, a.cell.rank < b.cell.rank → ¬ b.cell.rank < a.cell.rank :=
      fun hab hba => List.lt_irrefl _ (List.lt_trans hab hba)
    rw [stale_eq_takeWhile ht, mem_takeWhile_iff_of_pairwise
      (R := fun a b : Hour => a.cell.rank < b.cell.rank) (fun _ => List.lt_irrefl _) hasymm
      t.pairwise_hours]
    simp only [mem_hours_iff, decide_eq_true_eq, ht, true_and]
  · simp [stale_of_not_keyed ht, ht]

theorem hasUnit_purge : (t.purge cutoff).hasUnit h.cell = true ↔
    t.hasUnit h.cell = true ∧ h ∉ t.stale cutoff := by
  simp only [purge, hasUnit_iff, mem_rows_without]
  constructor
  · rintro ⟨r, ⟨hr, hkept⟩, hu⟩
    exact ⟨⟨r, hr, hu⟩, fun hh => hkept h hh hu⟩
  · rintro ⟨⟨r, hr, hu⟩, hh⟩
    refine ⟨r, ⟨hr, fun k hk hrk => hh ?_⟩, hu⟩
    rwa [Hour.cell_inj.mp (hu.symm.trans hrk)]

/-- **A second purge finds nothing.** -/
theorem stale_purge (t : Table) (cutoff : Hour) : (t.purge cutoff).stale cutoff = [] := by
  refine List.eq_nil_iff_forall_not_mem.mpr fun h hh => ?_
  obtain ⟨hkeyed, hunit, hlt, hfirst⟩ := mem_stale_iff.mp hh
  obtain ⟨hunit, hkept⟩ := hasUnit_purge.mp hunit
  refine hkept (mem_stale_iff.mpr ⟨fun r hr => ?_, hunit, hlt, fun k hk hkh => ?_⟩)
  · -- A purge leaves the texts, so there was none.
    cases htext : r.unit.isText with
    | false => rfl
    | true =>
      rw [← hkeyed r (mem_rows_without.mpr ⟨hr, fun k _ hu => ?_⟩), htext]
      rw [hu] at htext
      cases htext
  · -- An hour that the purge deleted was before the cutoff anyway.
    by_cases hstale : k ∈ t.stale cutoff
    · exact (mem_stale_iff.mp hstale).2.2.1
    · exact hfirst k (hasUnit_purge.mpr ⟨hk, hstale⟩) hkh

/-- Nor does a purge find more once an hour is stored that it keeps. -/
theorem stale_store (ht : t.stale cutoff = []) (hnow : cutoff ≤ now) (record : HourRecord) :
    (t.store now record).stale cutoff = [] := by
  refine List.eq_nil_iff_forall_not_mem.mpr fun h hh => ?_
  obtain ⟨hkeyed, hunit, hlt, hfirst⟩ := mem_stale_iff.mp hh
  refine List.not_mem_nil (ht ▸ mem_stale_iff.mpr ⟨fun r hr => ?_, ?_, hlt, fun k hk hkh => ?_⟩)
  · by_cases hkey : r.unit = now.cell ∧ r.slot = recordSlot
    · rw [hkey.1]
      rfl
    · exact hkeyed r (mem_rows_store.mpr (.inr ⟨hr, hkey⟩))
  · refine ((hasUnit_store t now h record).mp hunit).resolve_left ?_
    rintro rfl
    exact Int64.not_lt.mpr hnow hlt
  · exact hfirst k ((hasUnit_store t now k record).mpr (.inr hk)) hkh

theorem purge_of_stale_eq_nil (ht : t.stale cutoff = []) : t.purge cutoff = t := by
  rw [purge, ht]
  rfl

theorem putRow_of_mem {rows : List Row} (hsorted : rows.Pairwise Row.Before) (hr : r ∈ rows) :
    putRow r rows = rows := by
  induction rows with
  | nil => cases hr
  | cons s rest ih =>
    obtain ⟨hs, hrest⟩ := List.pairwise_cons.mp hsorted
    unfold putRow
    rcases List.mem_cons.mp hr with rfl | hr
    · rw [if_neg r.not_before_self, if_pos ⟨rfl, rfl⟩]
    · have hbefore := hs r hr
      have hafter : ¬ r.Before s := fun h => s.not_before_self (hbefore.trans h)
      rw [if_neg hafter, if_neg hbefore.not_sameKey, ih hrest hr]

/-- Storing an hour twice is storing it once. -/
theorem store_store (t : Table) (h : Hour) (record : HourRecord) :
    (t.store h record).store h record = t.store h record := by
  have hmem : (⟨h.cell, recordSlot, .blob (Codec.encode record)⟩ : Row) ∈
      (t.store h record).rows := mem_rows_store.mpr (.inl rfl)
  have hrows := putRow_of_mem (t.store h record).sorted hmem
  generalize t.store h record = stored at hrows ⊢
  simp only [store, put, hrows]

end Table
end QueryTally
