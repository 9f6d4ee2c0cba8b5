import QueryTally.Proofs.Disk.Hosting

/-! # Stores that serve a table

On a disk where the connection of a store serves a table, a transaction begins with that
table, the table that it ends with is served from then on, and a load reads the records of
hours from it. Each is a change by that connection alone. -/

namespace QueryTally.Store

open QueryTally.Disk

variable {s : Store} {d : Disk} {link : Link} {table : Table}

/-- A store that is open, with a healthy database that has this table. -/
def Serves (s : Store) (d : Disk) (table : Table) : Prop :=
  ∃ link, s.link = some link ∧ d.Serves link table

/-- Whether a transaction begins or not, one that may write has looked into its file. -/
theorem disk_begin (hs : s.link = some link) (d : Disk) (writable : Bool) :
    (s.begin d writable).2.1 = if writable then d.look link else d := by
  simp only [begin, hs]
  split <;> rfl

/-- A transaction that may write begins with the table that is served. -/
theorem begin_writing (hs : s.link = some link) (h : d.Serves link table) :
    ∃ t, s.begin d true = (some t, d.look link, [.begun true]) ∧
      t.Sees (d.seen link) table ∧ t.writable = true := by
  obtain ⟨t, ht, hsees, hw, -⟩ := Transaction.sees_begin h.healthy true
  refine ⟨t, ?_, hsees, hw⟩
  simp only [begin, hs, ht, if_true]

theorem begin_reading (hs : s.link = some link) (h : d.Serves link table) :
    ∃ t, s.begin d false = (some t, d, [.begun false]) ∧
      t.Sees (d.seen link) table ∧ t.writable = false := by
  obtain ⟨t, ht, hsees, hw, -⟩ := Transaction.sees_begin h.healthy false
  refine ⟨t, ?_, hsees, hw⟩
  simp only [begin, hs, ht, Bool.false_eq_true, if_false]

/-- What a transaction that may write leaves in the file is served. -/
theorem settle_writing (hs : s.link = some link) (h : d.Serves link table)
    {ending : Transaction.Ending} (hw : ending.transaction.writable = true) {new : Table}
    (htable : ending.database.table = some new) (hformatted : ending.database.formatted = true) :
    (s.settle d ending).Serves link new ∧ ChangedBy link d (s.settle d ending) := by
  simp only [settle, hs, hw, hformatted, htable, if_true]
  split
  · exact ⟨h.dropJournal.putTable new,
      (ChangedBy.dropJournal link d).trans (ChangedBy.putTable link _ _)⟩
  · exact ⟨h.putTable new, ChangedBy.putTable link d _⟩

/-- A transaction that may only read changes at most what its connection knows. -/
theorem settle_reading (hs : s.link = some link) (h : d.Serves link table)
    {ending : Transaction.Ending} (hw : ending.transaction.writable = false) :
    (s.settle d ending).Serves link table ∧ ChangedBy link d (s.settle d ending) := by
  simp only [settle, hs, hw, Bool.false_eq_true, if_false]
  split
  · exact ⟨h.look, ChangedBy.look link d⟩
  · exact ⟨h, ChangedBy.refl link d⟩

/-- What a load finds for an hour. -/
def recordIn (table : Table) (h : Hour) : HourRecord := (table.record? h).getD .empty

/-- **Loading.** The records of the hours are read from the table that is served. -/
theorem load_eq (hs : s.link = some link) (h : d.Serves link table) (first last : Hour) :
    (s.load d first last).records = (Hour.range first last).map (recordIn table) ∧
      (s.load d first last).disk.Serves link table ∧
      ChangedBy link d (s.load d first last).disk := by
  obtain ⟨t, ht, hsees, hw⟩ := begin_reading hs h
  have hrecords : (loadFrom t (Hour.range first last)).map (·.1) =
      (Hour.range first last).map (recordIn table) := by
    rw [loadFrom, List.map_map]
    refine List.map_congr_left fun hour _ => ?_
    rcases hsees.get hour with hget | ⟨e, hget, hnone⟩
    · simp only [Function.comp_apply, hget, recordIn]
      cases table.record? hour <;> rfl
    · simp only [Function.comp_apply, hget, recordIn, hnone]
      rfl
  have hwriting : ∀ c : Bool, (if c then t else t.look).rollback.transaction.writable = false := by
    intro c
    cases c with
    | true => exact hw
    | false => exact (Transaction.writable_look hsees).trans hw
  simp only [load, ht]
  exact ⟨hrecords, settle_reading hs h (hwriting _)⟩

/-! ## Opening, closing and starting over -/

variable {name : String} {place : Path}

/-- A store that is open, with a healthy database that stands under the name of the store. -/
def Holds (s : Store) (d : Disk) (place : Path) (table : Table) : Prop :=
  ∃ link, s.link = some link ∧ d.Holds s.name place link table

/-- A disk that has, or can be given, the directories for a database that keeps a table. -/
def Ready (d : Disk) (name : String) (place : Path) (table : Table) : Prop :=
  ∃ d', d.makeParents name = (.ok (), d') ∧ d'.Hosts name place ∧ d'.Keeps name place table

theorem ready_of_hosts (h : d.Hosts name place) (hk : d.Keeps name place table) :
    Ready d name place table :=
  ⟨d, h.makeParents_eq, h, hk⟩

/-- A table that is not empty stands at its place before a connection is made. -/
theorem Ready.tableAt?_eq (hr : Ready d name place table) (ht : table ≠ Table.empty) :
    d.tableAt? place = some table := by
  obtain ⟨d', hparents, -, hkeeps⟩ := hr
  rw [← hkeeps.tableAt?_eq ht, tableAt?_makeParents hparents]

theorem Ready.recordAt?_eq (hr : Ready d name place table) (h : Hour) :
    d.recordAt? place h = table.record? h := by
  obtain ⟨d', hparents, -, hkeeps⟩ := hr
  rw [← hkeeps.recordAt?_eq h, Disk.recordAt?_eq, Disk.recordAt?_eq,
    tableAt?_makeParents hparents]

/-- **Opening a store.** It serves what is kept under its name. -/
theorem connect_holds (h : Ready d name place table) :
    ∃ link d', connect name d = (.ok { name, link := some link }, d', [.storeOpened name]) ∧
      d'.Holds name place link table := by
  obtain ⟨d₁, hparents, hhosts, hkeeps⟩ := h
  obtain ⟨link, d', hconnect, hholds⟩ := Disk.connect_holds hhosts hkeeps
  exact ⟨link, d', by simp only [connect, hparents, hconnect], hholds⟩

/-- A store that lets go of its database leaves it ready to be opened. -/
theorem release_ready (hs : s.link = some link) (h : d.Holds name place link table) :
    Ready (s.release d) name place table := by
  obtain ⟨hhosts, hkeeps⟩ := h.release
  simp only [release, hs]
  exact ready_of_hosts hhosts hkeeps

/-- **Starting over.** The store serves an empty table. -/
theorem reset_holds (hs : s.link = some link) (h : d.Holds s.name place link table)
    (hname : Location.ofName? s.name = some (.file s.name .create)) :
    ∃ link' d', s.reset d = (.ok (), { s with link := some link' }, d', [.storeReset]) ∧
      d'.Holds s.name place link' Table.empty := by
  obtain ⟨d₁, hremove, hhosts, hgone, -⟩ :=
    removeFiles_companions h.release.1 hname fun _ hs => hs
  have habsent := hgone "" (by decide)
  rw [Path.withSuffix_empty hhosts.root] at habsent
  obtain ⟨link', d', hconnect, hholds⟩ :=
    Disk.connect_holds hhosts (.absent ⟨s.name, hname⟩ habsent)
  refine ⟨link', d', ?_, hholds⟩
  simp only [reset, release, hs, hremove, hconnect]

/-- A reset that does not fail starts over, or opens what there was again: what it removes need
not be the file that the database means by the name. -/
theorem reset_holds_or (hs : s.link = some link) (h : d.Holds s.name place link table)
    (hok : (s.reset d).1.isOk = true) :
    ∃ link' d' new, s.reset d = (.ok (), { s with link := some link' }, d', [.storeReset]) ∧
      d'.Holds s.name place link' new ∧ (new = Table.empty ∨ new = table) := by
  obtain ⟨hhosts, hkeeps⟩ := h.release
  obtain ⟨hhosts', hkept⟩ := removeFiles_hosts hhosts hkeeps (companions.map (s.name ++ ·))
  simp only [reset, release, hs] at hok ⊢
  cases hremove : (d.release link).removeFiles (companions.map (s.name ++ ·)) with
  | mk removed d₁ =>
    rw [hremove] at hok hhosts' hkept
    cases removed with
    | error e => cases hok
    | ok _ =>
      dsimp only at hok ⊢
      cases hconnect : d₁.connect s.name with
      | mk opened d₂ =>
        rw [hconnect] at hok
        cases opened with
        | error e => cases hok
        | ok link' =>
          obtain ⟨new, hnew, hkeeps'⟩ : ∃ new, (new = Table.empty ∨ new = table) ∧
              d₁.Keeps s.name place new := by
            rcases hkept with hkept | hgone
            · exact ⟨table, .inr rfl, hkept⟩
            · exact ⟨_, .inl rfl, .absent (creates_of_connect hhosts' hgone hconnect) hgone⟩
          obtain ⟨link'', d', hconnect', hholds⟩ := Disk.connect_holds hhosts' hkeeps'
          obtain ⟨hlink, rfl⟩ := Prod.mk.inj (hconnect.symm.trans hconnect')
          obtain rfl := Except.ok.inj hlink
          exact ⟨link', d₂, new, rfl, hholds, hnew⟩

end QueryTally.Store
