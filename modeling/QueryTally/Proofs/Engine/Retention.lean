import QueryTally.Proofs.Arising
import QueryTally.Proofs.Engine.Rotation
import QueryTally.Proofs.Store.Purging

/-! # What a rotation retains

A rotation stores the hour that it retires before it purges, in one transaction, and the cutoff
of the purge is the start of the window at the clock. The retired hour may lie before that start
itself, after a long gap or with a limit that has shrunk, and is then gone with the others. What
is left is exactly the window (`Table.Retains`), and everything that is no hour. -/

namespace QueryTally

open QueryTally.Disk QueryTally.Hour

variable {live : LiveHour} {old new table : Table} {now cutoff : Hour} {r : Row}

theorem Hour.exists_windowStart {limit : UInt32} (h0 : 0 ≤ now)
    (hfits : Fits (now.toInt - limit.toNat + 1)) :
    ∃ first, now.windowStart limit = .ok first ∧ first.toInt = now.toInt - limit.toNat + 1 := by
  have hnow : 0 ≤ now.toInt := Int64.le_iff_toInt_le.mp h0
  have hlimit := limit.toNat_lt
  rw [fits_iff] at hfits
  have hone : (1 : Hour).toInt = 1 := rfl
  have hbefore : now.minus (ofCount limit.toNat) = .ok (Int64.ofInt (now.toInt - limit.toNat)) := by
    rw [minus_eq_ok_iff, toInt_ofCount, Int64.toInt_ofInt_of_le (by omega) (by omega)]
  refine ⟨Int64.ofInt (now.toInt - limit.toNat + 1), bind_eq_ok_iff.mpr ⟨_, hbefore, ?_⟩, ?_⟩
  · rw [plus_eq_ok_iff, hone, Int64.toInt_ofInt_of_le (by omega) (by omega),
      Int64.toInt_ofInt_of_le (by omega) (by omega)]
  · exact Int64.toInt_ofInt_of_le (by omega) (by omega)

theorem Table.Dated.store {hour : Hour} (h : table.Dated) (h0 : 0 ≤ hour) (record : HourRecord) :
    (table.store hour record).Dated := by
  refine ⟨fun r hr => ?_, fun k hk => ?_⟩
  · rcases mem_rows_put.mp hr with rfl | ⟨hr, -⟩
    · rfl
    · exact h.keyed r hr
  · obtain ⟨r, hr, hu⟩ := hasUnit_iff.mp hk
    rcases mem_rows_put.mp hr with rfl | ⟨hr, -⟩
    · exact cell_inj.mp hu ▸ h0
    · exact h.hours k (hasUnit_iff.mpr ⟨r, hr, hu⟩)

namespace Engine

/-- The rows after a rotation: that of the retired hour and the others there were, as far as
they are not of an hour before the cutoff. -/
theorem mem_rows_rotated (h : old.Dated) (h0 : 0 ≤ live.hour) :
    r ∈ (rotated live cutoff old).rows ↔
      (r = live.row ∨ r ∈ old.rows ∧ ¬ r.SameKey live.row) ∧ r.Since cutoff := by
  rw [rotated, (h.store h0 _).mem_rows_purge]
  exact and_congr_left fun _ => Table.mem_rows_put

/-- A row of another unit is there if it was, and is not of an hour before the cutoff. -/
theorem mem_rows_rotated_of_ne (h : old.Dated) (h0 : 0 ≤ live.hour)
    (hne : r.unit ≠ live.hour.cell) :
    r ∈ (rotated live cutoff old).rows ↔ r ∈ old.rows ∧ r.Since cutoff := by
  have hrow : r ≠ live.row := fun e => hne (congrArg Row.unit e)
  have hkey : ¬ r.SameKey live.row := fun e => hne e.1
  simp [mem_rows_rotated h h0, hrow, hkey]

theorem hasUnit_rotated (h : old.Dated) (h0 : 0 ≤ live.hour) {k : Hour} :
    (rotated live cutoff old).hasUnit k.cell = true ↔
      cutoff ≤ k ∧ (k = live.hour ∨ old.hasUnit k.cell = true) := by
  by_cases hk : k = live.hour
  · subst hk
    have hrow : live.row.unit = live.hour.cell := rfl
    refine ⟨fun hu => ?_, fun hle => ?_⟩
    · obtain ⟨r, hr, hu⟩ := Table.hasUnit_iff.mp hu
      exact ⟨(Row.since_iff hu).mp ((mem_rows_rotated h h0).mp hr).2, .inl rfl⟩
    · have hsince : live.row.Since cutoff := (Row.since_iff hrow).mpr hle.1
      exact Table.hasUnit_iff.mpr ⟨live.row, (mem_rows_rotated h h0).mpr ⟨.inl rfl, hsince⟩, hrow⟩
  · have hother : ∀ {r : Row}, r.unit = k.cell → r.unit ≠ live.hour.cell :=
      fun hu e => hk (cell_inj.mp (hu.symm.trans e))
    simp only [hk, false_or, Table.hasUnit_iff]
    constructor
    · rintro ⟨r, hr, hu⟩
      obtain ⟨hold, hsince⟩ := (mem_rows_rotated_of_ne h h0 (hother hu)).mp hr
      exact ⟨(Row.since_iff hu).mp hsince, r, hold, hu⟩
    · rintro ⟨hle, r, hold, hu⟩
      have hsince := (Row.since_iff hu).mpr hle
      exact ⟨r, (mem_rows_rotated_of_ne h h0 (hother hu)).mpr ⟨hold, hsince⟩, hu⟩

/-- What is under the key of the retired hour, if that is kept: in its own slot the record that
was stored last, in any other what was there before. -/
theorem get?_rotated (h : old.Dated) (h0 : 0 ≤ live.hour) (hle : cutoff ≤ live.hour)
    (slot : Cell) :
    (rotated live cutoff old).get? live.hour.cell slot =
      if slot = recordSlot then some (.blob (Codec.encode live.toRecord))
      else old.get? live.hour.cell slot := by
  refine Option.ext fun value => ?_
  have hsince : Row.Since cutoff ⟨live.hour.cell, slot, value⟩ := (Row.since_iff rfl).mpr hle
  rw [Table.get?_eq_some_iff, mem_rows_rotated h h0, and_iff_left hsince]
  by_cases hslot : slot = recordSlot
  · subst hslot
    have hkey : Row.SameKey ⟨live.hour.cell, recordSlot, value⟩ live.row := ⟨rfl, rfl⟩
    simp only [hkey, not_true_eq_false, and_false, or_false, if_true, Option.some.injEq]
    simp [LiveHour.row, eq_comm]
  · have hkey : ¬ Row.SameKey ⟨live.hour.cell, slot, value⟩ live.row := fun e => hslot e.2
    have hrow : ⟨live.hour.cell, slot, value⟩ ≠ live.row := fun e => hkey (e ▸ ⟨rfl, rfl⟩)
    simp only [hrow, hkey, false_or, not_false_eq_true, and_true, hslot, if_false,
      Table.get?_eq_some_iff]

end Engine

/-- What a table retains of an old one and of a live hour that was stored in it, after the hours
before a floor were purged. -/
structure Table.Retains (live : LiveHour) (floor : Int) (old new : Table) : Prop where
  units : ∀ k : Hour, new.hasUnit k.cell = true ↔
    floor ≤ k.toInt ∧ (k = live.hour ∨ old.hasUnit k.cell = true)
  retired : floor ≤ live.hour.toInt →
    new.get? live.hour.cell recordSlot = some (.blob (Codec.encode live.toRecord))
  /-- What else was stored of the retired hour stays with it. -/
  slots : floor ≤ live.hour.toInt → ∀ slot, slot ≠ recordSlot →
    new.get? live.hour.cell slot = old.get? live.hour.cell slot
  others : ∀ k : Hour, k ≠ live.hour → floor ≤ k.toInt →
    ∀ r : Row, r.unit = k.cell → (r ∈ new.rows ↔ r ∈ old.rows)
  /-- Rows whose key does not have the length of an hour's. -/
  foreign : ∀ bytes : List UInt8, bytes.length ≠ 8 →
    ∀ r : Row, r.unit = .blob bytes → (r ∈ new.rows ↔ r ∈ old.rows)

/-- **What a rotation leaves.** -/
theorem Engine.rotated_retains (h : old.Dated) (h0 : 0 ≤ live.hour) :
    Table.Retains live cutoff.toInt old (rotated live cutoff old) := by
  refine ⟨fun k => ?_, fun hfloor => ?_, fun hfloor slot hslot => ?_, fun k hne hfloor r hu => ?_,
    fun bytes hlen r hu => ?_⟩
  · rw [hasUnit_rotated h h0, Int64.le_iff_toInt_le]
  · rw [get?_rotated h h0 (Int64.le_iff_toInt_le.mpr hfloor), if_pos rfl]
  · rw [get?_rotated h h0 (Int64.le_iff_toInt_le.mpr hfloor), if_neg hslot]
  · have hother : r.unit ≠ live.hour.cell := fun e => hne (cell_inj.mp (hu.symm.trans e))
    rw [mem_rows_rotated_of_ne h h0 hother]
    exact and_iff_left ((Row.since_iff hu).mpr (Int64.le_iff_toInt_le.mpr hfloor))
  -- A key of another length is the key of no hour, so that no cutoff bears on its rows.
  · have hforeign : ∀ k : Hour, r.unit ≠ k.cell := by
      intro k e
      have hkey : bytes = k.key := Cell.blob.inj (hu.symm.trans e)
      exact hlen (hkey ▸ k.length_key)
    rw [mem_rows_rotated_of_ne h h0 (hforeign _)]
    exact and_iff_left fun k e => absurd e (hforeign k)

/-- **Rotating.** -/
theorem Engine.rotate_retains {e : Engine} {d : Disk} (hserves : e.store.Serves d old)
    (h : old.Dated) (hlive : e.live = some live) (h0 : 0 ≤ live.hour) (hnow : 0 ≤ now)
    (hne : live.hour ≠ now) (hfits : Fits (now.toInt - e.limit.toNat + 1)) :
    (e.rotate now d).result = .ok true ∧
      (e.rotate now d).engine = { e with live := some (LiveHour.start now) } ∧
      ∃ new, (e.rotate now d).engine.store.Serves (e.rotate now d).disk new ∧
        Table.Retains live (now.toInt - e.limit.toNat + 1) old new := by
  obtain ⟨link, hs, hserves⟩ := hserves
  obtain ⟨cutoff, hcutoff, hfloor⟩ := exists_windowStart hnow hfits
  obtain ⟨hresult, hengine, hserves', -⟩ := rotate_eq hlive hs hserves hne hcutoff
  rw [hengine]
  refine ⟨hresult, rfl, rotated live cutoff old, ⟨link, hs, hserves'⟩, ?_⟩
  rw [← hfloor]
  exact rotated_retains h h0

/-! ## How much is left -/

namespace Table

/-- A table of hours from the epoch up to a last one, and of nothing else. -/
def Upto (last : Hour) (t : Table) : Prop :=
  ∀ r ∈ t.rows, ∃ k : Hour, r.unit = k.cell ∧ 0 ≤ k ∧ k ≤ last

variable {t : Table} {first last later : Hour}

theorem upto_empty (last : Hour) : Table.empty.Upto last := nofun

theorem Upto.mono (h : t.Upto last) (hle : last ≤ later) : t.Upto later := by
  intro r hr
  obtain ⟨k, hu, h0, hk⟩ := h r hr
  exact ⟨k, hu, h0, Int64.le_trans hk hle⟩

theorem Upto.store {hour : Hour} (h : t.Upto last) (h0 : 0 ≤ hour) (hle : hour ≤ last)
    (record : HourRecord) : (t.store hour record).Upto last := by
  intro r hr
  rcases mem_rows_put.mp hr with rfl | ⟨hr, -⟩
  · exact ⟨hour, rfl, h0, hle⟩
  · exact h r hr

theorem Upto.purge (h : t.Upto last) (cutoff : Hour) : (t.purge cutoff).Upto last :=
  fun r hr => h r (mem_rows_without.mp hr).1

theorem Upto.dated (h : t.Upto last) : t.Dated := by
  refine ⟨fun r hr => ?_, fun k hk => ?_⟩
  · obtain ⟨k, hu, -⟩ := h r hr
    rw [hu]
    rfl
  · obtain ⟨r, hr, hu⟩ := hasUnit_iff.mp hk
    obtain ⟨k', hu', h0, -⟩ := h r hr
    obtain rfl := cell_inj.mp (hu.symm.trans hu')
    exact h0

/-- There are no more units than hours in which they lie. -/
theorem length_units_le
    (h : ∀ unit ∈ t.units, ∃ k : Hour, unit = k.cell ∧ first ≤ k ∧ k < last) :
    t.units.length ≤ (last.toInt - first.toInt).toNat := by
  have hsub : t.units ⊆ (Hour.range first last).map Hour.cell := by
    intro unit hunit
    obtain ⟨k, rfl, hk⟩ := h unit hunit
    exact List.mem_map_of_mem (mem_range_iff.mpr hk)
  have hlen := t.nodup_units.length_le_of_subset hsub
  rwa [List.length_map, length_range] at hlen

end Table

/-- **Storage is bounded.** If nothing but hours up to the live one is stored, a rotation leaves
hours of the window before the present one only. -/
theorem Engine.units_rotated (h : old.Upto live.hour) (h0 : 0 ≤ live.hour)
    (hlt : live.hour < now) :
    ∀ unit ∈ (rotated live cutoff old).units, ∃ k : Hour, unit = k.cell ∧ cutoff ≤ k ∧ k < now := by
  intro unit hunit
  obtain ⟨r, hr, rfl⟩ := Table.hasUnit_iff.mp (Table.mem_units_iff.mp hunit)
  have hstored := h.store h0 (Int64.le_refl live.hour) live.toRecord
  obtain ⟨hr, hsince⟩ := hstored.dated.mem_rows_purge.mp hr
  obtain ⟨k, hu, -, hk⟩ := hstored r hr
  exact ⟨k, hu, (Row.since_iff hu).mp hsince, Int64.lt_of_le_of_lt hk hlt⟩

end QueryTally
