import QueryTally.Proofs.Table

/-! # Transactions of a healthy database

A database that refuses nothing lets every call of a transaction have its effect on the
table that the transaction sees, and lets it end as it wants to. `Transaction.Sees` is kept
by each call; a purge comes down to its deletions. -/

namespace QueryTally

/-- A database with a table, which refuses nothing. -/
structure Database.Healthy (db : Database) (table : Table) : Prop where
  table : db.table = some table
  faults : db.faults = {}
  formatted : db.formatted = true

namespace Transaction

variable {t : Transaction} {db : Database} {table : Table}

/-- A look changes nothing about whether a transaction may write. -/
theorem look_writable (t : Transaction) : t.look.writable = t.writable := by
  unfold look
  dsimp only
  split
  · unfold abort
    split <;> rfl
  · rfl

/-- A transaction of a database that refuses nothing, and the table that it sees. -/
structure Sees (t : Transaction) (db : Database) (table : Table) : Prop where
  base : t.base = db
  view : t.view = some table
  ended : t.ended = false
  faults : db.faults = {}

theorem sees_begin (h : db.Healthy table) (writable : Bool) :
    ∃ t, db.begin writable = some t ∧ t.Sees db table ∧ t.writable = writable ∧
      t.looked = writable := by
  refine ⟨{ writable, base := db, view := db.table, looked := writable }, ?_, ?_, rfl, rfl⟩
  · rw [Database.begin, h.faults]
    rfl
  · exact ⟨rfl, h.table, rfl, h.faults⟩

theorem Sees.look_eq (h : t.Sees db table) : t.look = { t with looked := true } := by
  rw [look, h.view]
  rfl

theorem Sees.look (h : t.Sees db table) : t.look.Sees db table := by
  rw [h.look_eq]
  exact ⟨h.base, h.view, h.ended, h.faults⟩

theorem writable_look (h : t.Sees db table) : t.look.writable = t.writable := by
  rw [h.look_eq]

/-- What a transaction finds for an hour is its record, or nothing. -/
theorem Sees.get (h : t.Sees db table) (hour : Hour) :
    t.get hour = .ok (table.record? hour) ∨
      ∃ e, t.get hour = .error e ∧ table.record? hour = none := by
  simp only [Transaction.get, h.view, h.base, h.faults, Table.record?]
  cases table.get? hour.cell recordSlot with
  | none => exact .inl rfl
  | some c =>
    cases c with
    | text s => exact .inr ⟨_, rfl, rfl⟩
    | blob bytes =>
      simp only [Option.bind_some, Cell.record?]
      cases Codec.decode bytes with
      | error e => exact .inr ⟨_, rfl, rfl⟩
      | ok r => exact .inl rfl

/-- A statement in a transaction that may write gives it a new table. -/
theorem Sees.write {α : Type} (h : t.Sees db table) (new : Table) (a : α) :
    ∃ t', t.write new a = (.ok a, t') ∧ t'.Sees db new ∧ t'.writable = t.writable := by
  refine ⟨{ t with view := some new, dirty := true }, ?_, ?_, rfl⟩
  · simp only [Transaction.write, refusesTable, h.ended, h.base, h.faults, Bool.false_and,
      Bool.or_false, Bool.false_eq_true, if_false]
  · exact ⟨h.base, rfl, h.ended, h.faults⟩

theorem Sees.put (h : t.Sees db table) (hw : t.writable = true) (hour : Hour)
    (record : HourRecord) :
    ∃ t', t.put hour record = (.ok (), t') ∧ t'.Sees db (table.store hour record) ∧
      t'.writable = true := by
  have hnext : Sees { t.look with made := t.made + 1 } db table := by
    rw [h.look_eq]
    exact ⟨h.base, h.view, h.ended, h.faults⟩
  obtain ⟨t', ht', hsees, hwritable⟩ := hnext.write (table.store hour record) ()
  refine ⟨t', ?_, hsees, hwritable.trans ((writable_look h).trans hw)⟩
  simp only [Transaction.put, hw, h.view, h.base, h.faults, Bool.not_true, Bool.false_eq_true,
    if_false]
  exact ht'

theorem Sees.delete (h : t.Sees db table) (hw : t.writable = true) (hour : Hour) :
    ∃ t', t.delete hour = (.ok (table.hasUnit hour.cell), t') ∧
      t'.Sees db (table.deleteUnit hour.cell) ∧ t'.writable = true := by
  have hnext : Sees { t.look with made := t.made + 1 } db table := by
    rw [h.look_eq]
    exact ⟨h.base, h.view, h.ended, h.faults⟩
  have hwnext := (writable_look h).trans hw
  simp only [Transaction.delete, hw, h.view, h.base, h.faults, Bool.not_true, Bool.false_eq_true,
    if_false]
  cases hu : table.hasUnit hour.cell with
  | false =>
    rw [Table.deleteUnit_of_not_hasUnit hu]
    exact ⟨_, rfl, hnext, hwnext⟩
  | true =>
    obtain ⟨t', ht', hsees, hwritable⟩ := hnext.write (table.deleteUnit hour.cell) true
    exact ⟨t', ht', hsees, hwritable.trans hwnext⟩

theorem Sees.deleteAll (h : t.Sees db table) (hw : t.writable = true) (hours : List Hour) :
    (t.deleteAll hours).2.Sees db (table.without hours) ∧
      (t.deleteAll hours).2.writable = true ∧
      ((∀ d ∈ (t.deleteAll hours).1, d.2 ≠ .ok true) → table.without hours = table) := by
  induction hours generalizing t table with
  | nil => exact ⟨h, hw, fun _ => rfl⟩
  | cons hour hours ih =>
    obtain ⟨t', ht', hsees, hwritable⟩ := h.delete hw hour
    obtain ⟨hsees', hw', hsame⟩ := ih hsees hwritable
    simp only [Transaction.deleteAll, ht']
    refine ⟨hsees', hw', fun hall => ?_⟩
    obtain ⟨hfirst, hrest⟩ := List.forall_mem_cons.mp hall
    have hunit : table.hasUnit hour.cell = false := by
      cases hu : table.hasUnit hour.cell with
      | false => rfl
      | true => exact absurd (congrArg Except.ok hu) hfirst
    have hkept := Table.deleteUnit_of_not_hasUnit hunit
    exact (hsame hrest).trans hkept

/-- A purge deletes the hours that it finds, and if it deleted none the table is the same. -/
theorem Sees.purgeBefore (h : t.Sees db table) (hw : t.writable = true) (cutoff : Hour) :
    (t.purgeBefore cutoff).transaction.Sees db (table.purge cutoff) ∧
      (t.purgeBefore cutoff).transaction.writable = true ∧
      ((t.purgeBefore cutoff).deletedAny = false → table.purge cutoff = table) := by
  have hstale : (t.scan fun hour => decide (cutoff ≤ hour)).seen.filter
      (fun hour => decide (hour < cutoff)) = table.stale cutoff := by
    rw [scan, h.view]
    rfl
  have hwlook := (writable_look h).trans hw
  obtain ⟨hsees, hwritable, hsame⟩ := h.look.deleteAll hwlook (table.stale cutoff)
  simp only [Transaction.purgeBefore, hstale]
  refine ⟨hsees, hwritable, fun hnone => hsame fun d hd hok => ?_⟩
  have := List.any_eq_false.mp hnone d hd
  rw [hok] at this
  exact this rfl

theorem Sees.commit (h : t.Sees db table) (hw : t.writable = true) :
    t.commit.result = .ok () ∧ t.commit.transaction = t ∧
      t.commit.database = { db with table := some table, formatted := true } := by
  simp only [Transaction.commit, h.ended, h.base, h.faults, h.view, hw, Bool.or_false,
    Bool.or_true, Bool.false_eq_true, if_false, and_self]

theorem Sees.rollback (h : t.Sees db table) :
    t.rollback.result = .ok () ∧ t.rollback.transaction = t ∧ t.rollback.database = db := by
  refine ⟨rfl, rfl, ?_⟩
  change t.durable = db
  rw [durable, h.ended]
  exact h.base

end Transaction
end QueryTally
