import QueryTally.Proofs.Store.Regions

/-! # The order of a visit

A look through a table comes to its hours in the order of their keys, which is that of unsigned
words: to the hours from the epoch on, and then to those before it. So it goes forward in time in
a table whose hours are all on one side of the epoch, and in no other. A visitor may remember what
it has seen: as it sees each hour once, what it answers at an hour of a table is settled by the
hour. -/

namespace QueryTally

namespace Hour

variable {h k : Hour}

/-- The order in which hours are visited: those from the epoch on before those ahead of it, and
else the earlier hour first. -/
def Precedes (h k : Hour) : Prop := 0 ≤ h ∧ k < 0 ∨ (0 ≤ h ↔ 0 ≤ k) ∧ h < k

instance (h k : Hour) : Decidable (h.Precedes k) := inferInstanceAs (Decidable (_ ∨ _))

/-- An hour before the epoch has the word of the hour that is a whole circle later. -/
theorem toNat_toUInt64 (h : Hour) :
    (h.toUInt64.toNat : Int) = if 0 ≤ h.toInt then h.toInt else h.toInt + UInt64.size := by
  have hword : h.toUInt64.toNat = h.toBitVec.toNat := rfl
  have hsigned : h.toInt = h.toBitVec.toInt := rfl
  have hlt := h.toBitVec.isLt
  have hsize : UInt64.size = 18446744073709551616 := rfl
  rw [BitVec.toInt_eq_toNat_cond] at hsigned
  rw [hword]
  split at hsigned <;> split <;> omega

/-- **Keys sort in the order of a visit.** -/
theorem key_lt_iff_precedes : h.key < k.key ↔ h.Precedes k := by
  have hh := h.toNat_toUInt64
  have hk := k.toNat_toUInt64
  have hlow := h.le_toInt
  have hhigh := h.toInt_lt
  have klow := k.le_toInt
  have khigh := k.toInt_lt
  have zero : Int64.toInt 0 = 0 := rfl
  have hsize : UInt64.size = 18446744073709551616 := rfl
  rw [key_lt_iff, Precedes]
  simp only [Int64.le_iff_toInt_le, Int64.lt_iff_toInt_lt, zero]
  split at hh <;> split at hk <;> omega

theorem Precedes.asymm (h' : h.Precedes k) : ¬ k.Precedes h := by
  rw [← key_lt_iff_precedes] at h' ⊢
  exact fun hlt => List.lt_irrefl _ (List.lt_trans h' hlt)

theorem Precedes.lt_of_sameSide (h' : h.Precedes k) (hside : 0 ≤ h ↔ 0 ≤ k) : h < k := by
  rcases h' with ⟨hh, hk⟩ | ⟨-, hlt⟩
  · exact absurd (hside.mp hh) (Int64.not_le.mpr hk)
  · exact hlt

theorem Precedes.sameSide_of_lt (h' : h.Precedes k) (hlt : h < k) : 0 ≤ h ↔ 0 ≤ k := by
  rcases h' with ⟨hh, hk⟩ | ⟨hside, -⟩
  · exact absurd (Int64.lt_of_le_of_lt hh (Int64.lt_trans hlt hk)) Int64.lt_irrefl
  · exact hside

/-- Keys sort as hours do on one side of the epoch only. -/
theorem key_lt_iff_lt_iff : (h.key < k.key ↔ h < k) ↔ (0 ≤ h ↔ 0 ≤ k) := by
  have zero : Int64.toInt 0 = 0 := rfl
  rw [key_lt_iff_precedes, Precedes]
  simp only [Int64.le_iff_toInt_le, Int64.lt_iff_toInt_lt, zero]
  omega

/-- A visit sees a beginning of the hours. -/
theorem upTo_prefix (stop : Hour → Bool) (hours : List Hour) : upTo stop hours <+: hours := by
  induction hours with
  | nil => exact List.nil_prefix
  | cons h rest ih =>
    simp only [upTo]
    split
    · exact ⟨rest, rfl⟩
    · exact (List.prefix_cons_inj h).mpr ih

end Hour

namespace Table

variable {t : Table}

/-- The hours of a table in the order of a visit. -/
theorem precedes_hours (t : Table) : t.hours.Pairwise Hour.Precedes :=
  t.pairwise_hours.imp fun hlt => Hour.key_lt_iff_precedes.mp (Hour.rank_cell_lt_iff_key.mp hlt)

/-- What a visitor that remembers what it has seen answers at an hour of a table, at which it has
seen this hour and those that precede it. -/
def recalled (t : Table) (visitor : List Hour → Bool) (h : Hour) : Bool :=
  visitor (t.hours.filter fun k => decide (¬ h.Precedes k))

/-- At each hour that it comes to, such a visitor answers to what it has seen. -/
theorem recalled_eq {visitor : List Hour → Bool} {before after : List Hour} {h : Hour}
    (hseen : before ++ h :: after <+: t.hours) :
    t.recalled visitor h = visitor (before ++ [h]) := by
  obtain ⟨rest, hrest⟩ := hseen
  rw [List.append_assoc, List.cons_append] at hrest
  have hsorted := t.precedes_hours
  rw [← hrest] at hsorted
  obtain ⟨-, hlater, hearlier⟩ := List.pairwise_append.mp hsorted
  have hkept : before.filter (fun k => decide (¬ h.Precedes k)) = before := by
    refine List.filter_eq_self.mpr fun k hk => decide_eq_true ?_
    exact (hearlier k hk h List.mem_cons_self).asymm
  have hself : ¬ h.Precedes h := fun h' => h'.asymm h'
  have hdropped : (after ++ rest).filter (fun k => decide (¬ h.Precedes k)) = [] := by
    refine List.filter_eq_nil_iff.mpr fun k hk hnot => of_decide_eq_true hnot ?_
    exact (List.pairwise_cons.mp hlater).1 k hk
  have hstays : (h :: (after ++ rest)).filter (fun k => decide (¬ h.Precedes k)) = [h] := by
    rw [List.filter_cons, if_pos (decide_eq_true hself), hdropped]
  rw [recalled, ← hrest, List.filter_append, hkept, hstays]

/-- All hours of a table are from the epoch on, or all are before it. -/
def OneSided (t : Table) : Prop :=
  ∀ h k : Hour, t.hasUnit h.cell = true → t.hasUnit k.cell = true → (0 ≤ h ↔ 0 ≤ k)

end Table

namespace Transaction

variable {t : Transaction} {table : Table}

/-- A look through a table whose units are all bytes sees a beginning of its hours. -/
theorem scan_seen (hview : t.view = some table) (hkeyed : table.Keyed) (stop : Hour → Bool) :
    (t.scan stop).error = none ∧ (t.scan stop).seen = Hour.upTo stop table.hours := by
  have hunits : ∀ u ∈ table.units, u.isText = false := by
    intro u hu
    obtain ⟨r, hr, rfl⟩ := Table.hasUnit_iff.mp (Table.mem_units_iff.mp hu)
    exact hkeyed r hr
  rw [scan, hview]
  exact Scan.ofUnits_eq hunits stop

theorem scan_precedes (hview : t.view = some table) (hkeyed : table.Keyed) (stop : Hour → Bool) :
    (t.scan stop).seen.Pairwise Hour.Precedes := by
  rw [(scan_seen hview hkeyed stop).2]
  exact table.precedes_hours.sublist (Hour.upTo_sublist stop table.hours)

theorem mem_scan_iff (hview : t.view = some table) (hkeyed : table.Keyed) (stop : Hour → Bool)
    (h : Hour) : h ∈ (t.scan stop).seen ↔ table.hasUnit h.cell = true ∧
      ∀ k : Hour, table.hasUnit k.cell = true → k.Precedes h → stop k = false := by
  have hsorted : table.hours.Pairwise fun h k => h.key < k.key :=
    table.precedes_hours.imp Hour.key_lt_iff_precedes.mpr
  rw [(scan_seen hview hkeyed stop).2, Hour.mem_upTo_iff hsorted]
  simp only [Table.mem_hours_iff, Hour.key_lt_iff_precedes]

/-- **Visits go forward in time** in a table whose hours are on one side of the epoch, and in no
other. -/
theorem scan_forward_iff (hview : t.view = some table) (hkeyed : table.Keyed) :
    (∀ stop, (t.scan stop).seen.Pairwise (· < ·)) ↔ table.OneSided := by
  constructor
  · intro hforward h k hh hk
    -- A visitor that does not stop sees both hours.
    have hall : ∀ h : Hour, table.hasUnit h.cell = true → h ∈ (t.scan fun _ => false).seen :=
      fun h hh => (mem_scan_iff hview hkeyed _ h).mpr ⟨hh, fun _ _ _ => rfl⟩
    have hsides : (t.scan fun _ => false).seen.Pairwise fun h k : Hour => (0 ≤ h ↔ 0 ≤ k) :=
      ((scan_precedes hview hkeyed _).and (hforward _)).imp fun ⟨hp, hlt⟩ => hp.sameSide_of_lt hlt
    rw [List.pairwise_iff_getElem] at hsides
    obtain ⟨i, hi, rfl⟩ := List.getElem_of_mem (hall h hh)
    obtain ⟨j, hj, rfl⟩ := List.getElem_of_mem (hall k hk)
    rcases Nat.lt_trichotomy i j with hij | rfl | hji
    · exact hsides i j hi hj hij
    · rfl
    · exact (hsides j i hj hi hji).symm
  · intro hsided stop
    refine (scan_precedes hview hkeyed stop).imp_of_mem fun {h k} hh hk hp => ?_
    have hh := ((mem_scan_iff hview hkeyed stop h).mp hh).1
    have hk := ((mem_scan_iff hview hkeyed stop k).mp hk).1
    exact hp.lt_of_sameSide (hsided h k hh hk)

/-- On one side of the epoch the first hour that is not before a cutoff comes after all that
are. -/
theorem mem_scan_of_before (hview : t.view = some table) (hkeyed : table.Keyed)
    (hsided : table.OneSided) {cutoff h : Hour} (hh : table.hasUnit h.cell = true)
    (hlt : h < cutoff) : h ∈ (t.purgeBefore cutoff).scan.seen := by
  refine (mem_scan_iff hview hkeyed _ h).mpr ⟨hh, fun k hk hp => decide_eq_false ?_⟩
  exact Int64.not_le.mpr (Int64.lt_trans (hp.lt_of_sameSide (hsided k h hk hh)) hlt)

/-- **The order of a visit.** In a transaction that sees a table whose units are all bytes, with
whatever slots, values and malformed keys:

* A look sees hours in the order of unsigned words, which puts the hours before the epoch last.
  It sees the hours that have a row, each once, up to and including the first at which the visitor
  stops.
* A visitor that remembers what it has seen is no more than one that does not.
* Keys sort in that order, and as the hours do for hours on one side of the epoch only.
* Every look goes forward in time if the hours of the table are all on one side of the epoch, and
  only then. If they are, a purge comes to every hour before its cutoff. -/
theorem scan_order (hview : t.view = some table) (hkeyed : table.Keyed) :
    (∀ stop, (t.scan stop).error = none ∧ (t.scan stop).seen.Pairwise Hour.Precedes ∧
      ∀ h : Hour, h ∈ (t.scan stop).seen ↔ table.hasUnit h.cell = true ∧
        ∀ k : Hour, table.hasUnit k.cell = true → k.Precedes h → stop k = false) ∧
    (∀ visitor : List Hour → Bool, ∃ stop, ∀ before h after,
      (t.scan stop).seen = before ++ h :: after → stop h = visitor (before ++ [h])) ∧
    (∀ h k : Hour, (h.key < k.key ↔ h.Precedes k) ∧
      ((h.key < k.key ↔ h < k) ↔ (0 ≤ h ↔ 0 ≤ k))) ∧
    ((∀ stop, (t.scan stop).seen.Pairwise (· < ·)) ↔ table.OneSided) ∧
    (table.OneSided → ∀ cutoff h : Hour, table.hasUnit h.cell = true → h < cutoff →
      h ∈ (t.purgeBefore cutoff).scan.seen) := by
  refine ⟨fun stop => ⟨(scan_seen hview hkeyed stop).1, scan_precedes hview hkeyed stop,
      mem_scan_iff hview hkeyed stop⟩, fun visitor => ⟨table.recalled visitor, ?_⟩,
    fun h k => ⟨Hour.key_lt_iff_precedes, Hour.key_lt_iff_lt_iff⟩,
    scan_forward_iff hview hkeyed,
    fun hsided cutoff h hh hlt => mem_scan_of_before hview hkeyed hsided hh hlt⟩
  intro before h after hseen
  have hprefix : before ++ h :: after <+: table.hours := by
    rw [← hseen, (scan_seen hview hkeyed _).2]
    exact Hour.upTo_prefix _ _
  exact Table.recalled_eq hprefix

def reading (table : Table) : Transaction where
  writable := false
  base := { table := some table }
  view := some table

/-- In a table with two rows of the hour 5, one of 6 and one of no hour, every look goes forward in
time, and one that stops at 6 sees it. A visitor that stops at its second hour is among those that
stop at an hour. -/
theorem scan_order_sample :
    (∀ stop, ((reading Store.strangeTable).scan stop).seen.Pairwise (· < ·)) ∧
      6 ∈ ((reading Store.strangeTable).scan fun h => decide (6 ≤ h)).seen ∧
      ∃ stop, ∀ before h after,
        ((reading Store.strangeTable).scan stop).seen = before ++ h :: after →
          stop h = decide (2 ≤ (before ++ [h]).length) := by
  have hkeyed : Store.strangeTable.Keyed := by
    unfold Table.Keyed
    decide +kernel
  have hhours : Store.strangeTable.hours = [5, 6] := by decide +kernel
  obtain ⟨hlook, hvisitor, -, hforward, -⟩ :=
    scan_order (t := reading Store.strangeTable) rfl hkeyed
  refine ⟨hforward.mpr fun h k hh hk => ?_, ?_, hvisitor fun seen => decide (2 ≤ seen.length)⟩
  · rw [← Table.mem_hours_iff, hhours] at hh hk
    have hall : ∀ h ∈ [(5 : Hour), 6], 0 ≤ h :=
      List.forall_mem_cons.mpr ⟨by decide, List.forall_mem_singleton.mpr (by decide)⟩
    exact iff_of_true (hall h hh) (hall k hk)
  · refine ((hlook _).2.2 6).mpr ⟨by decide +kernel, fun k _ hp => decide_eq_false ?_⟩
    rcases hp with ⟨-, hneg⟩ | ⟨-, hlt⟩
    · exact absurd hneg (by decide)
    · exact Int64.not_le.mpr hlt

def straddlingTable : Table := (Table.empty.store (-1) .empty).store 0 .empty

/-- The hour before the epoch comes after the epoch, and a purge that keeps the epoch does not
come to it. -/
theorem scan_wraps : straddlingTable.Keyed ∧
    ((reading straddlingTable).scan fun _ => false).seen = [0, -1] ∧
    ¬ ((reading straddlingTable).scan fun _ => false).seen.Pairwise (· < ·) ∧
    Hour.key 0 < Hour.key (-1) ∧ ¬ (0 : Hour) < -1 ∧
    ((reading straddlingTable).purgeBefore 0).scan.seen = [0] := by
  refine ⟨?_, ?_, ?_, ?_, ?_, ?_⟩
  · unfold Table.Keyed
    decide +kernel
  all_goals decide +kernel

end Transaction
end QueryTally
