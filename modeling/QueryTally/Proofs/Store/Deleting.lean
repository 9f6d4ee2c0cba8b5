import Mathlib.Data.List.Nodup
import QueryTally.Proofs.Store.Regions
import QueryTally.Proofs.Store.Settling

/-! # What a purge deletes and what it reports

In a healthy transaction a purge asks for hours that have rows, each once, so that every deletion
finds some and the number it reports is the number of units that are gone. These are the hours
before the cutoff whose keys come before those of all hours that are kept; keys that are no hour's
neither count nor stop it, wherever they stand. What it leaves is what a second purge would leave
too. -/

namespace QueryTally

variable {h k cutoff : Hour}

/-- Of two hours one has the smaller key. -/
theorem Hour.key_lt_or_key_lt (hne : h ≠ k) : h.key < k.key ∨ k.key < h.key := by
  by_cases hlt : h.key < k.key
  · exact .inl hlt
  by_cases hgt : k.key < h.key
  · exact .inr hgt
  have hkey : h.key = k.key := List.le_antisymm (List.not_lt.mp hgt) (List.not_lt.mp hlt)
  exact absurd (Hour.cell_inj.mp (congrArg Cell.blob hkey)) hne

namespace Table

variable {t : Table}

theorem nodup_stale (t : Table) (cutoff : Hour) : (t.stale cutoff).Nodup := by
  by_cases ht : t.Keyed
  · have hhours : t.hours.Nodup := by
      refine t.pairwise_hours.imp ?_
      rintro a b hlt rfl
      exact List.lt_irrefl _ hlt
    rw [stale_eq_takeWhile ht]
    exact hhours.sublist (List.takeWhile_sublist _)
  · rw [stale_of_not_keyed ht]
    exact List.nodup_nil

/-- **The hours that a purge finds**: those before the cutoff whose keys come before the keys of
all hours that are kept. -/
theorem mem_stale_iff_key_lt (ht : t.Keyed) : h ∈ t.stale cutoff ↔
    t.hasUnit h.cell = true ∧ h < cutoff ∧
      ∀ k : Hour, t.hasUnit k.cell = true → cutoff ≤ k → h.key < k.key := by
  simp only [mem_stale_iff, ht, true_and, Hour.rank_cell_lt_iff_key]
  refine and_congr_right fun _ => and_congr_right fun hlt => forall₂_congr fun k _ => ?_
  constructor
  · intro hbefore hkept
    have hne : h ≠ k := fun e => Int64.not_lt.mpr hkept (e ▸ hlt)
    refine (Hour.key_lt_or_key_lt hne).resolve_right fun hkey => ?_
    exact Int64.not_lt.mpr hkept (hbefore hkey)
  · intro hkept hkey
    refine Int64.not_le.mp fun hle => ?_
    exact List.lt_irrefl _ (List.lt_trans hkey (hkept hle))

/-- Each hour that a purge finds is one unit less. -/
theorem length_units_purge (t : Table) (cutoff : Hour) :
    (t.purge cutoff).units.length + (t.stale cutoff).length = t.units.length := by
  have hmem : ∀ unit, unit ∈ (t.purge cutoff).units ↔
      unit ∈ t.units ∧ unit ∉ (t.stale cutoff).map Hour.cell := by
    intro unit
    simp only [mem_units_iff, hasUnit_iff, purge, mem_rows_without, List.mem_map, not_exists,
      not_and]
    constructor
    · rintro ⟨r, ⟨hr, hkept⟩, rfl⟩
      exact ⟨⟨r, hr, rfl⟩, fun h hh hu => hkept h hh hu.symm⟩
    · rintro ⟨⟨r, hr, rfl⟩, hkept⟩
      exact ⟨r, ⟨hr, fun h hh hu => hkept h hh hu.symm⟩, rfl⟩
  have hcells : ((t.stale cutoff).map Hour.cell).Nodup :=
    List.Nodup.map (fun _ _ => Hour.cell_inj.mp) (t.nodup_stale cutoff)
  have hperm : ((t.purge cutoff).units ++ (t.stale cutoff).map Hour.cell).Perm t.units := by
    refine (List.perm_ext_iff_of_nodup ?_ t.nodup_units).mpr fun unit => ?_
    · refine List.nodup_append'.mpr ⟨nodup_units _, hcells, ?_⟩
      exact fun unit hunit => ((hmem unit).mp hunit).2
    · rw [List.mem_append, hmem]
      constructor
      · rintro (⟨hunit, -⟩ | hgone)
        · exact hunit
        · obtain ⟨h, hh, rfl⟩ := List.mem_map.mp hgone
          exact mem_units_iff.mpr (mem_stale_iff.mp hh).2.1
      · intro hunit
        by_cases hgone : unit ∈ (t.stale cutoff).map Hour.cell
        · exact .inr hgone
        · exact .inl ⟨hunit, hgone⟩
  rw [← hperm.length_eq, List.length_append, List.length_map]

end Table

namespace Transaction

variable {t : Transaction} {db : Database} {table : Table}

/-- Deleting different hours that have rows succeeds each time. -/
theorem Sees.deletions_deleteAll (hsees : t.Sees db table) (hw : t.writable = true)
    {hours : List Hour} (hnodup : hours.Nodup)
    (hall : ∀ h ∈ hours, table.hasUnit h.cell = true) :
    (t.deleteAll hours).1 = hours.map fun h => (h, .ok true) := by
  induction hours generalizing t table with
  | nil => rfl
  | cons hour rest ih =>
    obtain ⟨hhour, hrest⟩ := List.nodup_cons.mp hnodup
    obtain ⟨hunit, hunits⟩ := List.forall_mem_cons.mp hall
    obtain ⟨next, hdelete, hnext, hwnext⟩ := hsees.delete hw hour
    have hlater := ih hnext hwnext hrest fun h hh =>
      (Table.hasUnit_deleteUnit table hour h).mpr ⟨fun e => hhour (e ▸ hh), hunits h hh⟩
    simp only [Transaction.deleteAll, hdelete, hunit, hlater, List.map_cons]

/-- What a purge asks for, and what comes of it. -/
theorem Sees.deletions_purgeBefore (hsees : t.Sees db table) (hw : t.writable = true)
    (cutoff : Hour) :
    (t.purgeBefore cutoff).deletions = (table.stale cutoff).map fun h => (h, .ok true) := by
  have hscan : (t.scan fun hour => decide (cutoff ≤ hour)).seen.filter
      (fun hour => decide (hour < cutoff)) = table.stale cutoff := by
    rw [scan, hsees.view]
    rfl
  simp only [Transaction.purgeBefore, hscan]
  exact hsees.look.deletions_deleteAll ((writable_look hsees).trans hw)
    (table.nodup_stale cutoff) fun h hh => (Table.mem_stale_iff.mp hh).2.1

/-- The number that a purge reports. -/
theorem Sees.deletedCount_purgeBefore (hsees : t.Sees db table) (hw : t.writable = true)
    (cutoff : Hour) : (t.purgeBefore cutoff).deletedCount = (table.stale cutoff).length := by
  rw [Purge.deletedCount, hsees.deletions_purgeBefore hw, List.countP_map]
  exact List.countP_eq_length.mpr fun _ _ => rfl

/-- **What a purge deletes.** In a healthy transaction that may write and sees a table whose units
are all bytes, with whatever slots, values and malformed keys:

* A purge deletes the hours before the cutoff whose keys come before those of all hours that are
  not. It deletes all their rows and no other: a row stays that is of no hour, or of one that is
  not before the cutoff.
* It reports how many units it deleted, each of them once.
* A second purge at once deletes nothing and reports that.
* In a table that has no hour before the epoch, it deletes all hours before the cutoff. -/
theorem purge_exact (hsees : t.Sees db table) (hw : t.writable = true) (hkeyed : table.Keyed)
    (cutoff : Hour) :
    ∃ (gone : List Hour) (after : Table), gone.Nodup ∧
      (t.purgeBefore cutoff).transaction.Sees db after ∧
      (∀ h : Hour, h ∈ gone ↔ table.hasUnit h.cell = true ∧ h < cutoff ∧
        ∀ k : Hour, table.hasUnit k.cell = true → cutoff ≤ k → h.key < k.key) ∧
      (∀ r, r ∈ after.rows ↔ r ∈ table.rows ∧ ∀ h ∈ gone, r.unit ≠ h.cell) ∧
      (∀ r ∈ table.rows, r.Since cutoff → r ∈ after.rows) ∧
      (t.purgeBefore cutoff).deletedCount = gone.length ∧
      after.units.length + (t.purgeBefore cutoff).deletedCount = table.units.length ∧
      ((t.purgeBefore cutoff).deletedAny = true ↔ gone ≠ []) ∧
      ((t.purgeBefore cutoff).transaction.purgeBefore cutoff).deletedCount = 0 ∧
      ((t.purgeBefore cutoff).transaction.purgeBefore cutoff).transaction.Sees db after ∧
      ((∀ h : Hour, table.hasUnit h.cell = true → 0 ≤ h) →
        ∀ h : Hour, h ∈ gone ↔ table.hasUnit h.cell = true ∧ h < cutoff) := by
  obtain ⟨hafter, hwafter, -⟩ := hsees.purgeBefore hw cutoff
  have hcount := hsees.deletedCount_purgeBefore hw cutoff
  obtain ⟨hagain, -, -⟩ := hafter.purgeBefore hwafter cutoff
  rw [Table.purge_of_stale_eq_nil (table.stale_purge cutoff)] at hagain
  refine ⟨table.stale cutoff, table.purge cutoff, table.nodup_stale cutoff, hafter,
    fun h => Table.mem_stale_iff_key_lt hkeyed, fun r => Table.mem_rows_without, ?_, hcount, ?_, ?_,
    ?_, hagain, fun hepoch h => Table.Dated.mem_stale_iff ⟨hkeyed, hepoch⟩⟩
  · intro r hr hsince
    refine Table.mem_rows_without.mpr ⟨hr, fun h hh hu => ?_⟩
    exact Int64.not_lt.mpr (hsince h hu) (Table.mem_stale_iff.mp hh).2.2.1
  · rw [hcount]
    exact table.length_units_purge cutoff
  · rw [Purge.deletedAny_iff, hcount, ne_eq, List.length_eq_zero_iff]
  · rw [hafter.deletedCount_purgeBefore hwafter, table.stale_purge]
    rfl

/-- A transaction that may write and sees a table. -/
def writing (table : Table) : Transaction where
  writable := true
  base := { table := some table }
  view := some table
  looked := true

/-- A table with two rows of the hour 5, one of a key that is longer than that of the hour, and
the hours 6, 9 and -1. -/
def mixedTable : Table :=
  (((((Table.empty.store 5 .empty).put ⟨Hour.cell 5, .blob [1], .text "?"⟩).put
    ⟨.blob (Hour.key 5 ++ [1]), recordSlot, .blob []⟩).store 6 .empty).store 9 .empty).store
    (-1) .empty

/-- A purge that keeps the hour 7 and later ones deletes the hours 5 and 6, and of the hours before
the cutoff it leaves the one before the epoch. -/
theorem purge_exact_sample :
    mixedTable.Keyed ∧ (writing mixedTable).writable = true ∧
      ((writing mixedTable).purgeBefore 7).deletedCount = 2 ∧
      ∃ (gone : List Hour) (after : Table), after.units.length + 2 = mixedTable.units.length ∧
        gone.length = 2 ∧ 5 ∈ gone ∧ 6 ∈ gone ∧ -1 ∉ gone ∧
        (∀ r ∈ mixedTable.rows, r.unit = .blob (Hour.key 5 ++ [1]) → r ∈ after.rows) ∧
        (((writing mixedTable).purgeBefore 7).transaction.purgeBefore 7).deletedCount = 0 := by
  have hkeyed : mixedTable.Keyed := by
    unfold Table.Keyed
    decide +kernel
  have hhours : mixedTable.hours = [5, 6, 9, -1] := by decide +kernel
  have hcount : ((writing mixedTable).purgeBefore 7).deletedCount = 2 := by decide +kernel
  have hkept : ∀ k : Hour, mixedTable.hasUnit k.cell = true → 7 ≤ k → k = 9 := by
    intro k hk hle
    rw [← Table.mem_hours_iff, hhours] at hk
    simp only [List.mem_cons, List.not_mem_nil, or_false] at hk
    rcases hk with rfl | rfl | rfl | rfl
    · exact absurd hle (by decide)
    · exact absurd hle (by decide)
    · rfl
    · exact absurd hle (by decide)
  obtain ⟨gone, after, -, -, hgone, -, hstays, hlength, hunits, -, hagain, -⟩ :=
    purge_exact (t := writing mixedTable) ⟨rfl, rfl, rfl, rfl⟩ rfl hkeyed 7
  rw [hcount] at hlength hunits
  refine ⟨hkeyed, rfl, hcount, gone, after, hunits, hlength.symm, ?_, ?_, ?_, ?_, hagain⟩
  · refine (hgone 5).mpr ⟨by decide +kernel, by decide, fun k hk hle => ?_⟩
    rw [hkept k hk hle]
    decide +kernel
  · refine (hgone 6).mpr ⟨by decide +kernel, by decide, fun k hk hle => ?_⟩
    rw [hkept k hk hle]
    decide +kernel
  · intro hbefore
    have hkey := ((hgone (-1)).mp hbefore).2.2 9 (by decide +kernel) (by decide)
    exact absurd hkey (by decide +kernel)
  · intro r hr hunit
    refine hstays r hr fun h hh => ?_
    have hlength : (Hour.key 5 ++ [1]).length = h.key.length :=
      congrArg List.length (Cell.blob.inj (hunit.symm.trans hh))
    rw [List.length_append, Hour.length_key, Hour.length_key] at hlength
    cases hlength

end Transaction
end QueryTally
