import QueryTally.Proofs.Engine.Rotation
import QueryTally.Proofs.Store.Atomicity
import QueryTally.Proofs.Store.Purging

/-! # What a rotation leaves behind

A rotation asks three kinds of things of its transaction: to store the retired hour, to delete
the hours before the window, and to end. Each can be refused, and a put can be refused with the
whole transaction. What is durable in the end is either all that succeeded or nothing of it. -/

namespace QueryTally

namespace Transaction

variable {t next last : Transaction} {begun table : Table} {hour : Hour}

def deleted? : Hour × Except StoreError Bool → Option Hour
  | (hour, .ok true) => some hour
  | (_, .ok false) => none
  | (_, .error _) => none

def Purge.deleted (p : Purge) : List Hour := p.deletions.filterMap deleted?

theorem Purge.deletedAny_eq_false_iff {p : Purge} : p.deletedAny = false ↔ p.deleted = [] := by
  rw [Purge.deletedAny, Purge.deleted, List.any_eq_false, List.filterMap_eq_nil_iff]
  refine forall₂_congr fun d _ => ?_
  obtain ⟨hour, result⟩ := d
  cases result with
  | ok gone => cases gone <;> simp [deleted?]
  | error e => simp [deleted?]

/-- A transaction that goes on from another on the same terms. -/
structure Continues (t next : Transaction) : Prop where
  base : next.base = t.base
  writable : next.writable = t.writable
  ended : next.ended = t.ended

theorem Continues.trans (h : t.Continues next) (k : next.Continues last) : t.Continues last :=
  ⟨k.base.trans h.base, k.writable.trans h.writable, k.ended.trans h.ended⟩

theorem Views.look (h : t.Views begun table) :
    t.look.Views begun table ∧ t.Continues t.look := by
  rw [h.look_eq]
  exact ⟨⟨h.base, h.view⟩, rfl, rfl, rfl⟩

/-- **One deletion.** It takes the rows of the hour if it finds any and succeeds. -/
theorem Views.delete (h : t.Views begun table) (hour : Hour) :
    (t.delete hour).2.Views begun (table.without (deleted? (hour, (t.delete hour).1)).toList) ∧
      t.Continues (t.delete hour).2 := by
  unfold Transaction.delete
  cases hw : t.writable with
  | false => exact ⟨⟨h.base, h.view⟩, rfl, rfl, rfl⟩
  | true =>
    simp only [h.view, h.look_eq, Bool.not_true, Bool.false_eq_true, if_false, write]
    split
    · exact ⟨⟨h.base, rfl⟩, rfl, rfl, rfl⟩
    · split
      · exact ⟨⟨h.base, rfl⟩, rfl, rfl, rfl⟩
      · split
        · exact ⟨⟨h.base, rfl⟩, rfl, rfl, rfl⟩
        · exact ⟨⟨h.base, rfl⟩, rfl, rfl, rfl⟩

/-- **All deletions**, whichever of them fail. -/
theorem Views.deleteAll (h : t.Views begun table) (hours : List Hour) :
    (t.deleteAll hours).2.Views begun
        (table.without ((t.deleteAll hours).1.filterMap deleted?)) ∧
      t.Continues (t.deleteAll hours).2 := by
  induction hours generalizing t table with
  | nil => exact ⟨h, rfl, rfl, rfl⟩
  | cons hour rest ih =>
    obtain ⟨hviews, hgoes⟩ := h.delete hour
    obtain ⟨hviews', hgoes'⟩ := ih hviews
    refine ⟨?_, hgoes.trans hgoes'⟩
    have hsplit : (t.deleteAll (hour :: rest)).1.filterMap deleted? =
        (deleted? (hour, (t.delete hour).1)).toList ++
          ((t.delete hour).2.deleteAll rest).1.filterMap deleted? := by
      rw [deleteAll, List.filterMap_cons]
      cases deleted? (hour, (t.delete hour).1) <;> rfl
    rw [hsplit, Table.without, List.foldl_append]
    exact hviews'

theorem eq_of_deleted? {d : Hour × Except StoreError Bool} (h : deleted? d = some hour) :
    d = (hour, .ok true) := by
  unfold deleted? at h
  split at h
  · cases h
    rfl
  · cases h
  · cases h

theorem map_deleteAll (t : Transaction) (hours : List Hour) :
    (t.deleteAll hours).1.map Prod.fst = hours := by
  induction hours generalizing t with
  | nil => rfl
  | cons hour rest ih => exact congrArg (hour :: ·) (ih (t.delete hour).2)

/-- A purge deletes none but hours before its cutoff. -/
theorem Purge.lt_of_mem_deleted {cutoff : Hour} (h : hour ∈ (t.purgeBefore cutoff).deleted) :
    hour < cutoff := by
  obtain ⟨d, hmem, hd⟩ := List.mem_filterMap.mp h
  obtain rfl := eq_of_deleted? hd
  have hasked : hour ∈ (t.purgeBefore cutoff).deletions.map Prod.fst :=
    List.mem_map.mpr ⟨_, hmem, rfl⟩
  rw [purgeBefore, map_deleteAll] at hasked
  exact of_decide_eq_true (List.mem_filter.mp hasked).2

/-- A put that succeeds does not end the transaction. -/
theorem Views.ended_put (h : t.Views begun table) {record : HourRecord}
    (hok : (t.put hour record).1 = .ok ()) : (t.put hour record).2.ended = t.ended := by
  unfold Transaction.put at hok ⊢
  cases hw : t.writable with
  | false =>
    rw [hw] at hok
    cases hok
  | true =>
    simp only [hw, h.view, h.look_eq, Bool.not_true, Bool.false_eq_true, if_false] at hok ⊢
    split at hok
    · cases hok
    · cases hok
    · rename_i hput
      simp only [write]
      split <;> rfl

/-- The table with an hour stored in it, if the put succeeded. -/
def stored (hour : Hour) (record : HourRecord) (result : Except StoreError Unit) (table : Table) :
    Table :=
  match result with
  | .ok () => table.store hour record
  | .error _ => table

/-- **The put** at the beginning of a transaction. If it fails the transaction sees what it began
with, whether it has been ended or not. -/
theorem Views.put (h : t.Views table table) (hour : Hour) (record : HourRecord) :
    (t.put hour record).2.Views table (stored hour record (t.put hour record).1 table) ∧
      (t.put hour record).2.base = t.base ∧ (t.put hour record).2.writable = t.writable ∧
      ((t.put hour record).1 = .ok () → (t.put hour record).2.ended = t.ended) := by
  obtain ⟨hbase, hwritable, ⟨-, hviews⟩ | ⟨hopen, hended, hviews, -⟩⟩ := put_follows h hour record
  · refine ⟨?_, hbase, hwritable, h.ended_put⟩
    cases hput : (t.put hour record).1 with
    | ok u =>
      rw [hput] at hviews
      exact hviews
    | error e =>
      rw [hput] at hviews
      exact hviews
  · refine ⟨?_, hbase, hwritable, h.ended_put⟩
    cases hput : (t.put hour record).1 with
    | ok u =>
      rw [h.ended_put hput, hopen] at hended
      cases hended
    | error e => exact hviews

/-! ## All that a rotation asks for -/

/-- What a rotation asks of a transaction before it ends it. -/
structure Asked where
  put : Except StoreError Unit
  purge : Purge

def ask (t : Transaction) (retired : LiveHour) (cutoff : Hour) : Asked :=
  let (put, t) := t.put retired.hour retired.toRecord
  { put, purge := t.purgeBefore cutoff }

namespace Asked

def anyDone (a : Asked) : Bool := a.put.isOk || a.purge.deletedAny

/-- Whether a commit is refused while the transaction is still open. -/
def Undone (a : Asked) : Prop :=
  a.purge.transaction.ended = false ∧ a.purge.transaction.commit.result ≠ .ok ()

/-- The table with all that succeeded: the retired hour stored, and the old hours deleted. -/
def done (a : Asked) (retired : LiveHour) (table : Table) : Table :=
  (stored retired.hour retired.toRecord a.put table).without a.purge.deleted

/-- Nothing that is to be kept is touched but the record of the retired hour. -/
theorem mem_rows_done {retired : LiveHour} {cutoff : Hour} {r : Row} (hr : r.Since cutoff)
    (hother : ¬ (r.unit = retired.hour.cell ∧ r.slot = recordSlot)) :
    r ∈ ((t.ask retired cutoff).done retired table).rows ↔ r ∈ table.rows := by
  have hstored : r ∈ (stored retired.hour retired.toRecord (t.ask retired cutoff).put table).rows ↔
      r ∈ table.rows := by
    unfold stored
    split
    · have hnew : r ≠ ⟨retired.hour.cell, recordSlot, .blob (Codec.encode retired.toRecord)⟩ := by
        rintro rfl
        exact hother ⟨rfl, rfl⟩
      simp only [Table.mem_rows_store, hnew, hother, false_or, not_false_eq_true, and_true]
    · rfl
  rw [done, Table.mem_rows_without, hstored, and_iff_left_iff_imp]
  intro _ hour hdeleted hu
  exact absurd (Purge.lt_of_mem_deleted hdeleted) (Int64.not_lt.mpr (hr hour hu))

end Asked

variable {retired : LiveHour} {cutoff : Hour}

/-- What the transaction sees when it has been asked for everything. -/
theorem Views.ask (h : t.Views table table) (retired : LiveHour) (cutoff : Hour) :
    (t.ask retired cutoff).purge.transaction.Views table
        ((t.ask retired cutoff).done retired table) ∧
      (t.ask retired cutoff).purge.transaction.base = t.base ∧
      (t.ask retired cutoff).purge.transaction.writable = t.writable := by
  obtain ⟨hviews, hbase, hwritable, -⟩ := h.put retired.hour retired.toRecord
  obtain ⟨hviews', hgoes⟩ := hviews.look
  obtain ⟨hviews'', hgoes'⟩ := hviews'.deleteAll _
  exact ⟨hviews'', (hgoes.trans hgoes').base.trans hbase,
    (hgoes.trans hgoes').writable.trans hwritable⟩

theorem Asked.done_of_not_anyDone {a : Asked} (h : a.anyDone = false) (retired : LiveHour)
    (table : Table) : a.done retired table = table := by
  obtain ⟨hput, hpurge⟩ := Bool.or_eq_false_iff.mp h
  rw [done, Purge.deletedAny_eq_false_iff.mp hpurge]
  cases hresult : a.put with
  | ok u =>
    rw [hresult] at hput
    cases hput
  | error e => rfl

/-- **The end** of the transaction: a commit if anything succeeded. -/
def Asked.finish (a : Asked) : Finish := if a.anyDone then .commit else .rollback

/-- **All or nothing.** -/
theorem Views.finish_ask (h : t.Views table table) (retired : LiveHour) (cutoff : Hour) :
    ∃ after, ((t.ask retired cutoff).purge.transaction.finish
        (t.ask retired cutoff).finish).database.table = some after ∧
      ((t.ask retired cutoff).anyDone = false ∨ (t.ask retired cutoff).Undone → after = table) ∧
      ((t.ask retired cutoff).anyDone = true → ¬ (t.ask retired cutoff).Undone →
        after = (t.ask retired cutoff).done retired table) := by
  obtain ⟨hviews, hbase, -⟩ := h.ask retired cutoff
  generalize t.ask retired cutoff = a at hviews hbase ⊢
  have hcommit : a.anyDone = true → a.finish = .commit := fun hany => if_pos hany
  obtain ⟨-, ⟨hf, hok, hopen, hdb⟩ | ⟨hnot, hdb⟩⟩ :=
    Transaction.finish_cases a.purge.transaction a.finish
  · refine ⟨a.done retired table, ?_, ?_, fun _ _ => rfl⟩
    · rw [hdb]
      exact hviews.view
    · rintro (hnone | ⟨-, hrefused⟩)
      · exact Asked.done_of_not_anyDone hnone retired table
      · rw [hf] at hok
        exact absurd hok hrefused
  · rw [hdb, durable]
    cases hended : a.purge.transaction.ended with
    | true =>
      refine ⟨a.done retired table, hviews.view, ?_, fun _ _ => rfl⟩
      rintro (hnone | ⟨hopen, -⟩)
      · exact Asked.done_of_not_anyDone hnone retired table
      · rw [hended] at hopen
        cases hopen
    | false =>
      refine ⟨table, hviews.base, fun _ => rfl, fun hany hdone => ?_⟩
      refine absurd ⟨hended, fun hok => hnot ⟨hcommit hany, ?_⟩⟩ hdone
      rw [hcommit hany]
      exact hok

/-- However it ends, no row that is to be kept changes but the record of the retired hour. -/
theorem Asked.mem_rows_of_outcome {after : Table} {r : Row}
    (hkept : (t.ask retired cutoff).anyDone = false ∨ (t.ask retired cutoff).Undone →
      after = table)
    (hdone : (t.ask retired cutoff).anyDone = true → ¬ (t.ask retired cutoff).Undone →
      after = (t.ask retired cutoff).done retired table)
    (hr : r.Since cutoff) (hother : ¬ (r.unit = retired.hour.cell ∧ r.slot = recordSlot)) :
    r ∈ after.rows ↔ r ∈ table.rows := by
  rcases Bool.eq_false_or_eq_true (t.ask retired cutoff).anyDone with hany | hnone
  · by_cases hundone : (t.ask retired cutoff).Undone
    · rw [hkept (.inr hundone)]
    · rw [hdone hany hundone]
      exact Asked.mem_rows_done hr hother
  · rw [hkept (.inl hnone)]

/-- A transaction of a database that has no table. -/
structure Blind (t : Transaction) : Prop where
  base : t.base.table = none
  view : t.view = none

theorem Blind.look (h : t.Blind) : t.look.Blind ∧ t.look.writable = t.writable := by
  refine ⟨?_, t.look_writable⟩
  unfold Transaction.look abort
  dsimp only
  split
  · split
    · exact ⟨h.base, h.view⟩
    · exact ⟨h.base, h.base⟩
  · exact ⟨h.base, h.view⟩

/-- Nothing succeeds without a table. -/
theorem Blind.ask (h : t.Blind) (retired : LiveHour) (cutoff : Hour) :
    (t.ask retired cutoff).anyDone = false ∧
      (t.ask retired cutoff).purge.transaction.Blind ∧
      (t.ask retired cutoff).purge.transaction.writable = t.writable := by
  have hput : (t.put retired.hour retired.toRecord).1.isOk = false ∧
      (t.put retired.hour retired.toRecord).2.Blind ∧
      (t.put retired.hour retired.toRecord).2.writable = t.writable := by
    unfold Transaction.put
    cases hw : t.writable with
    | false => exact ⟨rfl, h, hw⟩
    | true =>
      simp only [h.view, Bool.not_true, Bool.false_eq_true, if_false]
      exact ⟨rfl, ⟨h.look.1.base, h.look.1.view⟩, h.look.2.trans hw⟩
  obtain ⟨hrefused, hblind, hwritable⟩ := hput
  have hpurge : (t.put retired.hour retired.toRecord).2.purgeBefore cutoff =
      { scan := { error := some .database }, deletions := []
        transaction := (t.put retired.hour retired.toRecord).2.look } := by
    simp only [purgeBefore, scan, hblind.view]
    rfl
  unfold Transaction.ask Asked.anyDone
  dsimp only
  rw [hpurge, hrefused]
  exact ⟨rfl, hblind.look.1, hblind.look.2.trans hwritable⟩

end Transaction

namespace Engine

open QueryTally.Disk QueryTally.Hour

variable {e : Engine} {d d₁ : Disk} {link : Link} {table : Table} {retired : LiveHour}
variable {now cutoff : Hour} {t : Transaction} {notices : List Notice}

theorem flush_eq_ask (e : Engine) (retired : LiveHour) (t : Transaction)
    (hcutoff : now.windowStart e.limit = .ok cutoff) :
    (e.flush retired now t).1 = .ok () ∧
      (e.flush retired now t).2.transaction = (t.ask retired cutoff).purge.transaction ∧
      (e.flush retired now t).2.database = ((t.ask retired cutoff).purge.transaction.finish
        (t.ask retired cutoff).finish).database := by
  obtain ⟨committed, kept, hflush⟩ : ∃ committed kept, e.flush retired now t =
      if (t.ask retired cutoff).anyDone then
        (.ok (), { (t.ask retired cutoff).purge.transaction.commit with notices := committed })
      else (.ok (), { (t.ask retired cutoff).purge.transaction.rollback with notices := kept }) := by
    rw [flush, hcutoff]
    exact ⟨_, _, rfl⟩
  rw [hflush, Transaction.Asked.finish]
  have hsame := (Transaction.finish_cases (t.ask retired cutoff).purge.transaction .commit).1
  cases (t.ask retired cutoff).anyDone with
  | true => exact ⟨rfl, hsame, rfl⟩
  | false => exact ⟨rfl, rfl, rfl⟩

/-- A transaction that may write finds what is in the file. -/
theorem table_begin (hs : e.store.link = some link)
    (hbegin : e.store.begin d true = (some t, d₁, notices)) :
    t.base.table = (d.database link.file).table ∧ t.view = t.base.table ∧
      t.base.formatted = (d.database link.file).formatted ∧ t.writable = true := by
  obtain ⟨link', hs', -, hrefused, rfl⟩ := Store.begin_eq_some hbegin
  obtain rfl := Option.some.inj (hs.symm.trans hs')
  rcases d.seen_table link with ⟨refusal, hseen⟩ | ⟨hseen, hlaid⟩
  · rw [hseen] at hrefused
    cases hrefused
  · exact ⟨hseen, rfl, hlaid, rfl⟩

/-- **A rotation into a transaction that has begun.** -/
theorem settle_flush (retired : LiveHour) (hs : e.store.link = some link)
    (htable : (d.database link.file).table = some table)
    (hformatted : (d.database link.file).formatted = true)
    (hbegin : e.store.begin d true = (some t, d₁, notices))
    (hcutoff : now.windowStart e.limit = .ok cutoff) :
    ∃ after, ((e.store.settle d₁ (e.flush retired now t).2).database link.file).table =
        some after ∧
      ((t.ask retired cutoff).anyDone = false ∨ (t.ask retired cutoff).Undone → after = table) ∧
      ((t.ask retired cutoff).anyDone = true → ¬ (t.ask retired cutoff).Undone →
        after = (t.ask retired cutoff).done retired table) := by
  obtain ⟨hfound, hview, hlaid, hw⟩ := table_begin hs hbegin
  have hviews : t.Views table table := ⟨hfound.trans htable, hview.trans (hfound.trans htable)⟩
  obtain ⟨after, hafter, hkept, hdone⟩ := hviews.finish_ask retired cutoff
  obtain ⟨-, hbase, hwritable⟩ := hviews.ask retired cutoff
  obtain ⟨-, htransaction, hdatabase⟩ := flush_eq_ask e retired t hcutoff
  have hlaid' : (e.flush retired now t).2.database.formatted = true := by
    rw [hformatted] at hlaid
    rw [hdatabase]
    rcases (Transaction.finish_cases (t.ask retired cutoff).purge.transaction
      (t.ask retired cutoff).finish).2 with ⟨-, -, -, hdb⟩ | ⟨-, hdb⟩
    · rw [hdb, hbase, hlaid, Bool.true_or]
    · rw [hdb, Transaction.durable]
      split <;> rw [hbase] <;> exact hlaid
  refine ⟨after, ?_, hkept, hdone⟩
  rw [Store.table_settle hs (by rw [htransaction, hwritable, hw]) hlaid', hdatabase]
  exact hafter

/-- Without a table a rotation makes none. -/
theorem settle_flush_blind (hs : e.store.link = some link) (hf : link.file < d.next)
    (htable : (d.database link.file).table = none)
    (hbegin : e.store.begin d true = (some t, d₁, notices))
    (hcutoff : now.windowStart e.limit = .ok cutoff) :
    ((e.store.settle d₁ (e.flush retired now t).2).database link.file).table = none := by
  obtain ⟨hfound, hview, -, hw⟩ := table_begin hs hbegin
  have hblind : t.Blind := ⟨hfound.trans htable, hview.trans (hfound.trans htable)⟩
  obtain ⟨hnone, hblind', hwritable⟩ := hblind.ask retired cutoff
  obtain ⟨-, htransaction, hdatabase⟩ := flush_eq_ask e retired t hcutoff
  have hw' : (e.flush retired now t).2.transaction.writable = true := by
    rw [htransaction, hwritable, hw]
  have hdurable : (e.flush retired now t).2.database.table = none := by
    rw [hdatabase, Transaction.Asked.finish, hnone, if_neg Bool.false_ne_true]
    change (Transaction.durable _).table = none
    rw [Transaction.durable]
    split
    · exact hblind'.view
    · exact hblind'.base
  have hlook : d₁ = d.look link := by
    have hlook := Store.disk_begin hs d true
    rwa [hbegin] at hlook
  simp only [Store.settle, hs, hw', if_true]
  split
  · rw [Disk.table_putTable, hdurable]
  · have hcontent : ∀ d' : Disk, d'.content = d₁.content →
        (d'.database link.file).table = none := by
      intro d' hd'
      rw [Disk.database, hd', hlook, ← Disk.database, Disk.database_look link hf, htable]
    split
    · exact hcontent _ (Disk.content_dropJournal link d₁)
    · exact hcontent _ rfl

theorem disk_rotate_of_refused (hlive : e.live = some retired) (hne : retired.hour ≠ now)
    (hs : e.store.link = some link) (hbegin : (e.store.begin d true).1 = none) :
    (e.rotate now d).disk = d.look link := by
  have hlook := Store.disk_begin hs d true
  simp only [rotate, hlive, hne, if_false]
  split
  · rename_i heq
    rwa [heq] at hlook
  · rename_i heq
    rw [heq] at hbegin
    cases hbegin

theorem disk_rotate_of_begun (hlive : e.live = some retired) (hne : retired.hour ≠ now)
    (hbegin : e.store.begin d true = (some t, d₁, notices)) :
    (e.rotate now d).disk = e.store.settle d₁ (e.flush retired now t).2 := by
  simp only [rotate, hlive, hne, if_false, hbegin]

/-- **What a rotation leaves behind**, whatever is refused. In any hour but the live one it
reports a rotation, and the present hour is the live one; a second one in that hour does nothing.
The table of the file is the same as before if the transaction is refused, if nothing that it was
asked for succeeded, or if it was still open when its commit was refused; and else it is the
table with all that succeeded, also where the database had rolled the transaction back by itself.
A file that has a table is laid out, as nothing else gives it one.
No row that is to be kept changes, but for the record of the retired hour. -/
theorem rotate_outcome (hlive : e.live = some retired) (hne : retired.hour ≠ now)
    (hcutoff : now.windowStart e.limit = .ok cutoff) :
    (e.rotate now d).result = .ok true ∧
    (e.rotate now d).engine = { e with live := some (LiveHour.start now) } ∧
    (∀ d', (e.rotate now d).engine.rotate now d' =
      { result := .ok false, engine := (e.rotate now d).engine, disk := d', notices := [] }) ∧
    (e.store.link = none → (e.rotate now d).disk = d) ∧
    ∀ link, e.store.link = some link → link.file < d.next →
      ((d.database link.file).table = none →
        ((e.rotate now d).disk.database link.file).table = none) ∧
      ∀ table, (d.database link.file).table = some table →
        (d.database link.file).formatted = true →
        ∃ after, ((e.rotate now d).disk.database link.file).table = some after ∧
          (∀ r : Row, r.Since cutoff → ¬ (r.unit = retired.hour.cell ∧ r.slot = recordSlot) →
            (r ∈ after.rows ↔ r ∈ table.rows)) ∧
          ((e.store.begin d true).1 = none → after = table) ∧
          ∀ t, (e.store.begin d true).1 = some t →
            ((t.ask retired cutoff).anyDone = false ∨ (t.ask retired cutoff).Undone →
              after = table) ∧
            ((t.ask retired cutoff).anyDone = true → ¬ (t.ask retired cutoff).Undone →
              after = (t.ask retired cutoff).done retired table) := by
  have hengine : (e.rotate now d).engine = { e with live := some (LiveHour.start now) } := by
    simp only [rotate, hlive, hne, if_false]
    split <;> rfl
  refine ⟨?_, hengine, fun d' => ?_, fun hs => ?_, fun link hs hf => ?_⟩
  · simp only [rotate, hlive, hne, if_false]
    split
    · rfl
    · rename_i t _ _ _
      rw [(flush_eq_ask e retired t hcutoff).1]
      rfl
  · rw [hengine]
    exact rotate_same rfl rfl
  · simp only [rotate, hlive, hne, if_false, Store.begin, hs]
  · cases hopened : (e.store.begin d true).1 with
    | none =>
      rw [disk_rotate_of_refused hlive hne hs hopened, Disk.database_look link hf]
      refine ⟨id, fun table htable _ =>
        ⟨table, htable, fun _ _ _ => Iff.rfl, fun _ => rfl, fun t' ht' => ?_⟩⟩
      cases ht'
    | some t =>
      have hbegin : e.store.begin d true = (some t, (e.store.begin d true).2) :=
        Prod.ext hopened rfl
      rw [disk_rotate_of_begun hlive hne hbegin]
      refine ⟨fun htable => settle_flush_blind hs hf htable hbegin hcutoff,
        fun table htable hformatted => ?_⟩
      obtain ⟨after, hafter, hkept, hdone⟩ :=
        settle_flush retired hs htable hformatted hbegin hcutoff
      refine ⟨after, hafter, fun r hr hother => ?_, fun hnone => ?_, fun t' ht' => ?_⟩
      · exact Transaction.Asked.mem_rows_of_outcome hkept hdone hr hother
      · cases hnone
      · obtain rfl := Option.some.inj ht'
        exact ⟨hkept, hdone⟩

def agedTable : Table := ((Table.empty.store 5 .empty).store 6 .empty).store 999 .empty

/-- A disk with that table in a file at the root. Every put is refused with a rollback, and so is
the deletion of one of the hours, without one. -/
def faultyDisk : Disk :=
  { Disk.empty.set ["stats.db"] (.file 0) with
    content := fun _ => .database
      { table := some agedTable
        faults :=
          { put := fun _ _ => some .transaction
            delete := fun _ unit => decide (unit = Hour.cell 5) } }
    next := 2 }

/-- The put is refused and the transaction over, one deletion fails, and the other is durable. -/
theorem rotate_outcome_sample :
    (sample.rotate 1001 faultyDisk).result = .ok true ∧
      ((sample.rotate 1001 faultyDisk).disk.database 0).table = some (agedTable.without [6]) := by
  obtain ⟨hresult, -, -, -, hrows⟩ := rotate_outcome (e := sample) (d := faultyDisk) rfl
    (show sampleHour.hour ≠ 1001 by decide) (show windowStart 1001 sample.limit = .ok 999 from rfl)
  obtain ⟨after, hafter, -, -, hasked⟩ := (hrows _ rfl Nat.zero_lt_two).2 agedTable rfl rfl
  have hall : ((sample.store.begin faultyDisk true).1.any fun t =>
      let a := t.ask sampleHour 999
      a.anyDone && a.purge.transaction.ended &&
        a.done sampleHour agedTable == agedTable.without [6]) = true := by decide +kernel
  obtain ⟨t, ht, hfacts⟩ := (Option.any_eq_true _ _).mp hall
  simp only [Bool.and_eq_true, beq_iff_eq] at hfacts
  obtain ⟨⟨hany, hended⟩, hdone⟩ := hfacts
  refine ⟨hresult, hafter.trans (congrArg some (((hasked t ht).2 hany ?_).trans hdone))⟩
  rintro ⟨hopen, -⟩
  rw [hended] at hopen
  cases hopen

end Engine
end QueryTally
