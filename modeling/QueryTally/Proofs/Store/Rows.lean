import QueryTally.Store
import QueryTally.Store.Purge
import QueryTally.Proofs.Disk.Rows
import QueryTally.Proofs.Table

/-! # Rows through a store that may fail

Whatever a database refuses, a transaction sees no row but those that its file had when it
began and those that it was asked to put (`Transaction.Within`), and it leaves no other in the
file. So a store that loads, is reset, is closed or is refused adds no row to any file. -/

namespace QueryTally

open QueryTally.Disk

namespace Transaction

variable {P : Row → Prop} {t : Transaction} {table : Table}

/-- A transaction all of whose rows have a property: those that it sees, and those that it
began with. -/
structure Within (P : Row → Prop) (t : Transaction) : Prop where
  base : ∀ table, t.base.table = some table → ∀ r ∈ table.rows, P r
  view : ∀ table, t.view = some table → ∀ r ∈ table.rows, P r

theorem Within.mono {Q : Row → Prop} (h : t.Within P) (hPQ : ∀ r, P r → Q r) : t.Within Q :=
  ⟨fun table ht r hr => hPQ r (h.base table ht r hr),
    fun table ht r hr => hPQ r (h.view table ht r hr)⟩

theorem Within.abort (h : t.Within P) : t.abort.Within P := by
  unfold Transaction.abort
  split
  · exact h
  · exact ⟨h.base, h.base⟩

theorem Within.look (h : t.Within P) : t.look.Within P := by
  have hlooked : Within P { t with looked := true } := ⟨h.base, h.view⟩
  unfold Transaction.look
  dsimp only
  split
  · exact hlooked.abort
  · exact hlooked

theorem Within.asked (h : t.Within P) : Within P { t.look with made := t.made + 1 } :=
  ⟨h.look.base, h.look.view⟩

theorem Within.write {α : Type} (h : t.Within P) (hnew : ∀ r ∈ table.rows, P r) (a : α) :
    (t.write table a).2.Within P := by
  unfold Transaction.write
  split
  · exact h
  · refine ⟨h.base, fun table' ht => ?_⟩
    obtain rfl := Option.some.inj ht
    exact hnew

/-- **A put.** It may add the row that it puts. -/
theorem Within.put (h : t.Within P) {hour : Hour} {record : HourRecord}
    (hrow : P ⟨hour.cell, recordSlot, .blob (Codec.encode record)⟩) :
    (t.put hour record).2.Within P := by
  unfold Transaction.put
  split
  · exact h
  · cases hview : t.view with
    | none => exact h.asked
    | some table =>
      dsimp only
      split
      · exact h.asked
      · exact h.asked.abort
      · refine h.asked.write (fun r hr => ?_) ()
        rcases Table.mem_putRow hr with rfl | hr
        · exact hrow
        · exact h.view table hview r hr

theorem Within.delete (h : t.Within P) (hour : Hour) : (t.delete hour).2.Within P := by
  unfold Transaction.delete
  split
  · exact h
  · cases hview : t.view with
    | none => exact h.asked
    | some table =>
      dsimp only
      split
      · exact h.asked
      · split
        · exact h.asked
        · refine h.asked.write (fun r hr => ?_) true
          exact h.view table hview r (Table.mem_rows_deleteUnit.mp hr).1

theorem Within.deleteAll (h : t.Within P) (hours : List Hour) :
    (t.deleteAll hours).2.Within P := by
  induction hours generalizing t with
  | nil => exact h
  | cons hour hours ih => exact ih (h.delete hour)

theorem Within.purgeBefore (h : t.Within P) (cutoff : Hour) :
    (t.purgeBefore cutoff).transaction.Within P :=
  h.look.deleteAll _

def Ending.Within (P : Row → Prop) (ending : Ending) : Prop :=
  ∀ table, ending.database.table = some table → ∀ r ∈ table.rows, P r

theorem Within.durable (h : t.Within P) :
    ∀ table, t.durable.table = some table → ∀ r ∈ table.rows, P r := by
  unfold Transaction.durable
  split
  · exact h.view
  · exact h.base

theorem Within.drop (h : t.Within P) : t.drop.Within P := h.durable

theorem Within.rollback (h : t.Within P) : t.rollback.Within P := h.durable

theorem Within.commit (h : t.Within P) : t.commit.Within P := by
  unfold Transaction.commit
  split
  · exact h.durable
  · exact h.view

/-- The record that a transaction finds for an hour; the empty one if it finds none. -/
def found (t : Transaction) (hour : Hour) : HourRecord :=
  match t.get hour with
  | .ok (some record) => record
  | _ => .empty

/-- What a transaction reads of an hour is the record in a row of the hour. -/
theorem Within.get (h : t.Within P) {hour : Hour} {record : HourRecord}
    (hget : t.get hour = .ok (some record)) :
    ∃ bytes, P ⟨hour.cell, recordSlot, .blob bytes⟩ ∧ Codec.decode bytes = .ok record := by
  unfold Transaction.get at hget
  cases hview : t.view with
  | none =>
    rw [hview] at hget
    cases hget
  | some table =>
    rw [hview] at hget
    dsimp only at hget
    split at hget
    · cases hget
    · cases hcell : table.get? hour.cell recordSlot with
      | none =>
        rw [hcell] at hget
        cases hget
      | some c =>
        rw [hcell] at hget
        cases c with
        | text s => cases hget
        | blob bytes =>
          dsimp only at hget
          cases hdecode : Codec.decode bytes with
          | error e =>
            rw [hdecode] at hget
            cases hget
          | ok r =>
            rw [hdecode] at hget
            cases hget
            exact ⟨bytes, h.view table hview _ (Table.mem_of_get? hcell), hdecode⟩

end Transaction

namespace Store

variable {s s' : Store} {d d' : Disk} {t : Transaction} {notices : List Notice} {w : Bool}

theorem unwritten_begin {opened : Option Transaction}
    (h : s.begin d w = (opened, d', notices)) : d.Unwritten d' := by
  unfold begin at h
  cases hs : s.link with
  | none =>
    rw [hs] at h
    cases h
    exact .refl d
  | some link =>
    have hlooked : d.Unwritten (if w then d.look link else d) := by
      split
      · exact unwritten_look d link
      · exact .refl d
    rw [hs] at h
    dsimp only at h
    split at h
    · cases h
      exact hlooked
    · cases h
      exact hlooked

/-- What a transaction begins with, if it is not refused. -/
theorem begin_eq_some (h : s.begin d w = (some t, d', notices)) :
    ∃ link, s.link = some link ∧ d' = (if w then d.look link else d) ∧
      (d.seen link).faults.begin w = false ∧
      t = { writable := w, base := d.seen link, view := (d.seen link).table, looked := w } := by
  unfold begin at h
  cases hs : s.link with
  | none =>
    rw [hs] at h
    cases h
  | some link =>
    rw [hs] at h
    dsimp only [Database.begin] at h
    cases hrefused : (d.seen link).faults.begin w with
    | true =>
      rw [hrefused] at h
      cases h
    | false =>
      rw [hrefused] at h
      cases h
      exact ⟨link, rfl, rfl, hrefused, rfl⟩

/-- The rows that a transaction begins with are those of the file. -/
theorem within_begin (h : s.begin d w = (some t, d', notices)) :
    ∃ link, s.link = some link ∧ t.Within (d.HasRow link.file) := by
  obtain ⟨link, hs, -, -, rfl⟩ := begin_eq_some h
  exact ⟨link, hs, fun _ ht _ hr => hasRow_of_seen ht hr, fun _ ht _ hr => hasRow_of_seen ht hr⟩

/-- **The end of a transaction.** It leaves its rows in its file, and none in another. -/
theorem hasRow_settle {P : Row → Prop} {link : Link} (hs : s.link = some link)
    {ending : Transaction.Ending} (h : ending.Within P) {f : FileNumber} {r : Row}
    (hr : (s.settle d ending).HasRow f r) : d.HasRow f r ∨ f = link.file ∧ P r := by
  simp only [settle, hs] at hr
  split at hr
  · generalize hd : (if (ending.transaction.view != ending.transaction.base.table ||
        !ending.transaction.base.formatted) = true then d.dropJournal link else d) = d₁ at hr
    have hkept : d.Unwritten d₁ := by
      rw [← hd]
      split
      · exact unwritten_dropJournal d link
      · exact .refl d
    split at hr
    · rw [hasRow_putTable] at hr
      split at hr
      · obtain ⟨table, htable, hmem⟩ := hr
        exact .inr ⟨‹_›, h table htable r hmem⟩
      · exact .inl (hkept f r hr)
    · exact .inl (hkept f r hr)
  · split at hr
    · exact .inl (unwritten_look d link f r hr)
    · exact .inl hr

/-- A transaction that ends with rows that its file had adds none. -/
theorem unwritten_settle {link : Link} (hs : s.link = some link) (hd : d.Unwritten d')
    {ending : Transaction.Ending} (h : ending.Within (d.HasRow link.file)) :
    d.Unwritten (s.settle d' ending) := by
  intro f r hr
  rcases hasRow_settle hs h hr with hbegun | ⟨rfl, hended⟩
  · exact hd f r hbegun
  · exact hended

theorem unwritten_release (s : Store) (d : Disk) : d.Unwritten (s.release d) := by
  unfold release
  split
  · exact .refl d
  · exact Disk.unwritten_release d _

/-- **Opening a store.** No file gets a row by it. -/
theorem unwritten_connect {name : String} {result : Except StoreError Store}
    (h : connect name d = (result, d', notices)) :
    d.Unwritten d' ∧ ∀ s, result = .ok s → s.name = name := by
  unfold connect at h
  have hparents := unwritten_makeParents d name
  cases hp : d.makeParents name with
  | mk made d₁ =>
    rw [hp] at h hparents
    cases made with
    | error e =>
      cases h
      exact ⟨hparents, nofun⟩
    | ok _ =>
      have hconnect := hparents.trans (Disk.unwritten_connect d₁ name)
      dsimp only at h
      cases hc : d₁.connect name with
      | mk opened d₂ =>
        rw [hc] at h hconnect
        cases opened with
        | error e =>
          cases h
          exact ⟨hconnect, nofun⟩
        | ok link =>
          cases h
          refine ⟨hconnect, fun s hs => ?_⟩
          cases hs
          rfl

/-- **A reset.** No file gets a row by it, and a store that it leaves open has the name that it
had. -/
theorem unwritten_reset {result : Except StoreError Unit}
    (h : s.reset d = (result, s', d', notices)) : d.Unwritten d' ∧ s'.name = s.name := by
  unfold reset at h
  have hremove := (unwritten_release s d).trans
    (unwritten_of_content (content_removeFiles _ (companions.map (s.name ++ ·))))
  cases hr : (s.release d).removeFiles (companions.map (s.name ++ ·)) with
  | mk removed d₁ =>
    rw [hr] at h hremove
    cases removed with
    | error e =>
      cases h
      exact ⟨hremove, rfl⟩
    | ok _ =>
      have hconnect := hremove.trans (Disk.unwritten_connect d₁ s.name)
      dsimp only at h
      cases hc : d₁.connect s.name with
      | mk opened d₂ =>
        rw [hc] at h hconnect
        cases opened with
        | error e =>
          cases h
          exact ⟨hconnect, rfl⟩
        | ok link =>
          cases h
          exact ⟨hconnect, rfl⟩

/-- **A load.** It adds no row, and the record that it gives for an hour is empty or stands in
a row of the hour. -/
theorem load_within (s : Store) (d : Disk) (first last : Hour) :
    d.Unwritten (s.load d first last).disk ∧ ∃ stored : Hour → HourRecord,
      (s.load d first last).records = (Hour.range first last).map stored ∧
      ∀ hour, stored hour = .empty ∨ ∃ link bytes, s.link = some link ∧
        d.HasRow link.file ⟨hour.cell, recordSlot, .blob bytes⟩ ∧
        Codec.decode bytes = .ok (stored hour) := by
  unfold load
  cases hb : s.begin d false with
  | mk opened rest =>
    obtain ⟨d₁, notices⟩ := rest
    have hbegin := unwritten_begin hb
    cases opened with
    | none => exact ⟨hbegin, fun _ => .empty, rfl, fun _ => .inl rfl⟩
    | some t =>
      obtain ⟨link, hs, hwithin⟩ := within_begin hb
      dsimp only
      refine ⟨unwritten_settle hs hbegin ?_, t.found, ?_, fun hour => ?_⟩
      · split
        · exact hwithin.rollback
        · exact hwithin.look.rollback
      · rw [loadFrom, List.map_map]
        refine List.map_congr_left fun hour _ => ?_
        rw [Function.comp_apply, Transaction.found]
        cases t.get hour with
        | error e => rfl
        | ok record => cases record <;> rfl
      · unfold Transaction.found
        cases hget : t.get hour with
        | error e => exact .inl rfl
        | ok record =>
          cases record with
          | none => exact .inl rfl
          | some record =>
            obtain ⟨bytes, hrow, hdecode⟩ := hwithin.get hget
            exact .inr ⟨link, bytes, hs, hrow, hdecode⟩

end Store
end QueryTally
