import QueryTally.Store.Purge
import QueryTally.Proofs.Codec

/-! # Hours in a table

A table is looked at hour by hour: what is stored of one is the record in its row, if that
can be read (`Table.record?`). Storing an hour replaces the record of that hour alone, and a
purge takes away nothing but hours before its cutoff. -/

namespace QueryTally

theorem Hour.cell_inj {h k : Hour} : h.cell = k.cell ↔ h = k := by
  refine ⟨fun e => ?_, congrArg Hour.cell⟩
  have hkey : h.key = k.key := Cell.blob.inj e
  have := Hour.ofKey?_key h
  rw [hkey, Hour.ofKey?_key] at this
  exact (Option.some.inj this).symm

/-- The record in a cell, if it holds one. -/
def Cell.record? : Cell → Option HourRecord
  | .text _ => none
  | .blob bytes => (Codec.decode bytes).toOption

theorem Cell.record?_encode {r : HourRecord} (hr : r.Fits) :
    (Cell.blob (Codec.encode r)).record? = some r := by
  rw [Cell.record?, Codec.decode_encode hr]
  rfl

theorem Cell.fits_of_record? {c : Cell} {r : HourRecord} (h : c.record? = some r) : r.Fits := by
  cases c with
  | text s => cases h
  | blob bytes =>
    cases hd : Codec.decode bytes with
    | error e =>
      rw [Cell.record?, hd] at h
      cases h
    | ok r' =>
      rw [Cell.record?, hd] at h
      cases h
      exact Codec.fits_of_decode hd

namespace Table

theorem get?_deleteUnit (t : Table) (u unit slot : Cell) :
    (t.deleteUnit u).get? unit slot = if unit = u then none else t.get? unit slot := by
  simp only [get?, deleteUnit, List.find?_filter]
  split
  · rename_i h
    subst h
    refine Option.map_eq_none_iff.mpr (List.find?_eq_none.mpr fun r _ hr => ?_)
    simp only [bne_iff_ne, Bool.and_eq_true, beq_iff_eq, decide_eq_true_eq] at hr
    exact hr.1 hr.2.1
  · rename_i h
    refine congrArg (Option.map (·.value)) (congrArg (fun p => List.find? p t.rows) ?_)
    funext r
    by_cases hu : r.unit = unit
    · simp only [hu, bne_iff_ne.mpr h, true_and, Bool.decide_eq_true]
    · simp only [beq_eq_false_iff_ne.mpr hu, Bool.false_and, Bool.false_eq_true, and_false,
        decide_false]

theorem mem_of_get? {t : Table} {unit slot value : Cell} (h : t.get? unit slot = some value) :
    ⟨unit, slot, value⟩ ∈ t.rows := by
  obtain ⟨r, hfind, rfl⟩ := Option.map_eq_some_iff.mp h
  have hkey := List.find?_some hfind
  rw [Bool.and_eq_true, beq_iff_eq, beq_iff_eq] at hkey
  obtain ⟨rfl, rfl⟩ := hkey
  exact List.mem_of_find?_eq_some hfind

theorem deleteUnit_of_not_hasUnit {t : Table} {unit : Cell} (h : t.hasUnit unit = false) :
    t.deleteUnit unit = t := by
  have hrows : t.rows.filter (·.unit != unit) = t.rows := by
    refine List.filter_eq_self.mpr fun r hr => bne_iff_ne.mpr fun hu => ?_
    rw [hasUnit_iff.mpr ⟨r, hr, hu⟩] at h
    cases h
  cases t
  simp only [deleteUnit, hrows]

/-- The record of an hour, if one is stored that can be read. -/
def record? (t : Table) (h : Hour) : Option HourRecord :=
  (t.get? h.cell recordSlot).bind Cell.record?

/-- The table with the record of an hour in place of what was stored of it. -/
def store (t : Table) (h : Hour) (r : HourRecord) : Table :=
  t.put ⟨h.cell, recordSlot, .blob (Codec.encode r)⟩

/-- The hours that a purge finds before its cutoff. -/
def stale (t : Table) (cutoff : Hour) : List Hour :=
  (Scan.ofUnits (fun h => decide (cutoff ≤ h)) t.units).seen.filter fun h => decide (h < cutoff)

/-- The table without some hours. -/
def without (t : Table) (hours : List Hour) : Table :=
  hours.foldl (fun t h => t.deleteUnit h.cell) t

/-- The table after a purge. -/
def purge (t : Table) (cutoff : Hour) : Table := t.without (t.stale cutoff)

@[simp] theorem record?_empty (h : Hour) : empty.record? h = none := rfl

theorem fits_of_record? {t : Table} {h : Hour} {r : HourRecord} (hr : t.record? h = some r) :
    r.Fits := by
  obtain ⟨c, -, hc⟩ := Option.bind_eq_some_iff.mp hr
  exact Cell.fits_of_record? hc

/-- **Storing an hour.** It is found again, and every other hour is as it was. -/
theorem record?_store {r : HourRecord} (hr : r.Fits) (t : Table) (h k : Hour) :
    (t.store h r).record? k = if k = h then some r else t.record? k := by
  unfold record? store
  rw [get?_put]
  by_cases hk : k = h
  · rw [if_pos ⟨congrArg Hour.cell hk, rfl⟩, if_pos hk, Option.bind_some,
      Cell.record?_encode hr]
  · rw [if_neg fun e => hk (Hour.cell_inj.mp e.1), if_neg hk]

theorem record?_deleteUnit (t : Table) (h k : Hour) :
    (t.deleteUnit h.cell).record? k = if k = h then none else t.record? k := by
  unfold record?
  rw [get?_deleteUnit]
  by_cases hk : k = h
  · rw [if_pos (congrArg Hour.cell hk), if_pos hk, Option.bind_none]
  · rw [if_neg fun e => hk (Hour.cell_inj.mp e), if_neg hk]

theorem record?_without (t : Table) (hours : List Hour) (k : Hour) :
    (t.without hours).record? k = if k ∈ hours then none else t.record? k := by
  unfold without
  induction hours generalizing t with
  | nil => simp
  | cons h hours ih =>
    rw [List.foldl_cons, ih, record?_deleteUnit]
    by_cases hk : k = h
    · simp [hk]
    · simp [hk]

/-- **Purging.** What is not before the cutoff stays. -/
theorem record?_purge {cutoff h : Hour} (hc : cutoff ≤ h) (t : Table) :
    (t.purge cutoff).record? h = t.record? h := by
  rw [purge, record?_without, if_neg]
  intro hmem
  have := of_decide_eq_true (List.mem_filter.mp hmem).2
  exact Int64.not_lt.mpr hc this

end Table
end QueryTally
