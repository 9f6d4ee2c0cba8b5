import QueryTally.Store.Call
import QueryTally.Proofs.Store.Rows

/-! # All or nothing

A transaction works on its own view, so what its calls do becomes durable together, at the
commit, or not at all. That ends when the database rolls the transaction back by itself: it
goes on without knowing, and each call that succeeds from then on is durable at once, however
the transaction ends (`Transaction.late`). -/

namespace QueryTally

/-- The table after a call that was answered like this: a put or a delete that succeeded has
its effect. -/
def StoreCall.effect (c : StoreCall) (reply : StoreReply) (table : Table) : Table :=
  match c, reply with
  | .put hour record, .put (.ok _) => table.store hour record
  | .delete hour, .delete (.ok _) => table.deleteUnit hour.cell
  | _, _ => table

/-- The table after some calls, one after the other. -/
def StoreCall.effects (table : Table) (made : List (StoreCall × StoreReply)) : Table :=
  made.foldl (fun t p => p.1.effect p.2 t) table

namespace Transaction

open StoreCall

variable {t : Transaction} {table begun : Table} {c : StoreCall}

/-- Calls with what they are answered. -/
def answered (t : Transaction) (cs : List StoreCall) : List (StoreCall × StoreReply) :=
  cs.zip (t.calls cs).1

/-- The calls that are made after the database has ended the transaction by itself, with what
they are answered. -/
def late (t : Transaction) : List StoreCall → List (StoreCall × StoreReply)
  | [] => []
  | c :: rest =>
    let (reply, _, next) := t.call c
    if t.ended then (c, reply) :: next.late rest else next.late rest

/-- A transaction that sees a table, and began with one. -/
structure Views (t : Transaction) (begun table : Table) : Prop where
  base : t.base.table = some begun
  view : t.view = some table

/-- What a call leaves of a transaction: its own effect, or a rollback by the database, which a
put can be refused with. -/
structure Follows (t : Transaction) (begun table : Table) (c : StoreCall) (reply : StoreReply)
    (next : Transaction) : Prop where
  base : next.base = t.base
  writable : next.writable = t.writable
  outcome : next.ended = t.ended ∧ next.Views begun (c.effect reply table) ∨
    t.ended = false ∧ next.ended = true ∧ next.Views begun begun ∧
      ∃ n cell, t.base.faults.put n cell = some .transaction

theorem Views.look_eq (h : t.Views begun table) : t.look = { t with looked := true } := by
  rw [look, h.view]
  rfl

/-- A call that leaves the transaction as it is, but for what it has looked at and asked for. -/
theorem Views.stays (h : t.Views begun table) {reply : StoreReply} {next : Transaction}
    (hbase : next.base = t.base) (hview : next.view = t.view) (hended : next.ended = t.ended)
    (hwritable : next.writable = t.writable) (heffect : c.effect reply table = table) :
    t.Follows begun table c reply next := by
  refine ⟨hbase, hwritable, .inl ⟨hended, ?_, ?_⟩⟩
  · rw [hbase, h.base]
  · rw [hview, h.view, heffect]

theorem put_follows (h : t.Views begun table) (hour : Hour) (record : HourRecord) :
    t.Follows begun table (.put hour record) (.put (t.put hour record).1)
      (t.put hour record).2 := by
  unfold put
  cases t.writable with
  | false => exact h.stays rfl rfl rfl rfl rfl
  | true =>
    simp only [h.view, h.look_eq, Bool.not_true, Bool.false_eq_true, if_false]
    cases hput : t.base.faults.put t.made hour.cell with
    | none =>
      simp only [write]
      split
      · exact h.stays rfl h.view.symm rfl rfl rfl
      · exact ⟨rfl, rfl, .inl ⟨rfl, h.base, rfl⟩⟩
    | some refusal =>
      cases refusal with
      | statement => exact h.stays rfl h.view.symm rfl rfl rfl
      | transaction =>
        simp only [abort]
        cases hended : t.ended with
        | true => exact h.stays rfl h.view.symm hended.symm rfl rfl
        | false => exact ⟨rfl, rfl, .inr ⟨hended, rfl, ⟨h.base, h.base⟩, _, _, hput⟩⟩

theorem delete_follows (h : t.Views begun table) (hour : Hour) :
    t.Follows begun table (.delete hour) (.delete (t.delete hour).1) (t.delete hour).2 := by
  unfold delete
  cases t.writable with
  | false => exact h.stays rfl rfl rfl rfl rfl
  | true =>
    simp only [h.view, h.look_eq, Bool.not_true, Bool.false_eq_true, if_false]
    cases hunit : table.hasUnit hour.cell with
    | false =>
      exact h.stays rfl h.view.symm rfl rfl (Table.deleteUnit_of_not_hasUnit hunit)
    | true =>
      simp only [Bool.not_true, Bool.false_eq_true, if_false, write]
      split
      · exact h.stays rfl h.view.symm rfl rfl rfl
      · split
        · exact h.stays rfl h.view.symm rfl rfl rfl
        · exact ⟨rfl, rfl, .inl ⟨rfl, h.base, rfl⟩⟩

/-- **One call.** It has its own effect on what the transaction sees if it succeeds and none if
it fails, unless the database rolls the transaction back by itself. -/
theorem call_follows (h : t.Views begun table) (c : StoreCall) :
    t.Follows begun table c (t.call c).1 (t.call c).2.2 := by
  cases c with
  | put hour record => exact put_follows h hour record
  | delete hour => exact delete_follows h hour
  | get hour =>
    simp only [call, h.look_eq]
    exact h.stays rfl rfl rfl rfl rfl
  | scan limit =>
    simp only [call, h.look_eq]
    exact h.stays rfl rfl rfl rfl rfl

/-- Nothing is late in a transaction that the database has not ended. -/
theorem ended_of_late (h : t.Views begun table) {cs : List StoreCall}
    (hended : (t.calls cs).2.2.ended = false) : t.ended = false ∧ t.late cs = [] := by
  induction cs generalizing t table with
  | nil => exact ⟨hended, rfl⟩
  | cons c rest ih =>
    obtain ⟨-, -, ⟨hsame, hviews⟩ | ⟨hopen, hend, hviews, -⟩⟩ := call_follows h c
    · obtain ⟨hnext, hlate⟩ := ih hviews hended
      rw [hsame] at hnext
      refine ⟨hnext, ?_⟩
      simp only [late, hnext, Bool.false_eq_true, if_false]
      exact hlate
    · obtain ⟨hnext, -⟩ := ih hviews hended
      rw [hend] at hnext
      cases hnext

/-- What the transaction sees after some calls, if the database has not ended it: what all
calls that succeeded have made of it. -/
theorem calls_view (h : t.Views begun table) {cs : List StoreCall}
    (hended : (t.calls cs).2.2.ended = false) :
    (t.calls cs).2.2.view = some (effects table (t.answered cs)) := by
  induction cs generalizing t table with
  | nil => exact h.view
  | cons c rest ih =>
    obtain ⟨-, -, ⟨-, hviews⟩ | ⟨-, hend, hviews, -⟩⟩ := call_follows h c
    · exact ih hviews hended
    · have hnext := (ended_of_late hviews hended).1
      rw [hend] at hnext
      cases hnext

/-- What is durable after some calls of a transaction that goes on: what the late ones that
succeeded have made of what was durable before. -/
theorem calls_durable (h : t.Views begun table) (cs : List StoreCall) :
    (t.calls cs).2.2.durable.table =
      some (effects (if t.ended then table else begun) (t.late cs)) := by
  induction cs generalizing t table with
  | nil =>
    change t.durable.table = _
    unfold durable
    cases t.ended with
    | true => exact h.view
    | false => exact h.base
  | cons c rest ih =>
    obtain ⟨-, -, ⟨hsame, hviews⟩ | ⟨hopen, hend, hviews, -⟩⟩ := call_follows h c
    · refine (ih hviews).trans ?_
      simp only [late, hsame]
      cases t.ended <;> rfl
    · refine (ih hviews).trans ?_
      simp only [late, hopen, hend, if_true, Bool.false_eq_true, if_false]

theorem calls_frame (h : t.Views begun table) (cs : List StoreCall) :
    (t.calls cs).2.2.base = t.base ∧ (t.calls cs).2.2.writable = t.writable := by
  induction cs generalizing t table with
  | nil => exact ⟨rfl, rfl⟩
  | cons c rest ih =>
    obtain ⟨hbase, hwritable, ⟨-, hviews⟩ | ⟨-, -, hviews, -⟩⟩ := call_follows h c
    · obtain ⟨hb, hw⟩ := ih hviews
      exact ⟨hb.trans hbase, hw.trans hwritable⟩
    · obtain ⟨hb, hw⟩ := ih hviews
      exact ⟨hb.trans hbase, hw.trans hwritable⟩

/-- A database in which no put can be refused with a rollback ends no transaction by itself. -/
theorem ended_calls (h : t.Views begun table)
    (hcalm : ∀ n cell, t.base.faults.put n cell ≠ some .transaction) (cs : List StoreCall) :
    (t.calls cs).2.2.ended = t.ended := by
  induction cs generalizing t table with
  | nil => rfl
  | cons c rest ih =>
    obtain ⟨hbase, -, ⟨hsame, hviews⟩ | ⟨-, -, -, n, cell, hput⟩⟩ := call_follows h c
    · exact (ih hviews (by rwa [hbase])).trans hsame
    · exact absurd hput (hcalm n cell)

/-- A transaction either makes its view durable, or leaves what was durable as it is. -/
theorem finish_cases (t : Transaction) (f : Finish) :
    (t.finish f).transaction = t ∧
      (f = .commit ∧ (t.finish f).result = .ok () ∧ t.ended = false ∧
          (t.finish f).database =
            { t.base with table := t.view, formatted := t.base.formatted || t.writable } ∨
        ¬ (f = .commit ∧ (t.finish f).result = .ok ()) ∧
          (t.finish f).database = t.durable) := by
  cases f with
  | rollback => exact ⟨rfl, .inr ⟨fun h => absurd h.1 (by decide), rfl⟩⟩
  | drop => exact ⟨rfl, .inr ⟨fun h => absurd h.1 (by decide), rfl⟩⟩
  | commit =>
    rw [show t.finish .commit = t.commit from rfl, commit]
    split
    · refine ⟨rfl, .inr ⟨fun h => ?_, rfl⟩⟩
      obtain ⟨-, hok⟩ := h
      cases hok
    · rename_i h
      rw [Bool.or_eq_true, not_or, Bool.not_eq_true] at h
      exact ⟨rfl, .inl ⟨rfl, rfl, h.1, rfl⟩⟩

end Transaction

namespace Store

open StoreCall

variable {s : Store} {d d₁ : Disk} {link : Link} {t : Transaction} {notices : List Notice}

/-- The table of a file after a transaction that may write, once the file is laid out. -/
theorem table_settle (hs : s.link = some link) {ending : Transaction.Ending}
    (hw : ending.transaction.writable = true) (hf : ending.database.formatted = true) :
    ((s.settle d ending).database link.file).table = ending.database.table := by
  simp only [settle, hs, hw, hf, if_true, Disk.table_putTable]

/-- **All or nothing, but for what comes late.** A transaction that may write is committed with
all calls that succeeded, or else its file has the rows that it had at the beginning, changed
by the calls that succeeded after the database had rolled the transaction back by itself. It
does so for no other reason than that a put was refused with a rollback. -/
theorem durable_after (hs : s.link = some link) {table : Table}
    (htable : (d.database link.file).table = some table)
    (hformatted : (d.database link.file).formatted = true)
    (hbegin : s.begin d true = (some t, d₁, notices)) (cs : List StoreCall) (f : Finish)
    {ending : Transaction.Ending} (hending : (t.calls cs).2.2.finish f = ending) :
    ∃ after, ((s.settle d₁ ending).database link.file).table = some after ∧
      (f = .commit ∧ ending.result = .ok () → after = effects table (t.answered cs)) ∧
      (¬ (f = .commit ∧ ending.result = .ok ()) → after = effects table (t.late cs)) ∧
      ((t.calls cs).2.2.ended = false → t.late cs = []) ∧
      ((∀ n cell, (d.seen link).faults.put n cell ≠ some .transaction) →
        (t.calls cs).2.2.ended = false) := by
  obtain ⟨link', hs', rfl, hrefused, ht⟩ := begin_eq_some hbegin
  obtain rfl := Option.some.inj (hs.symm.trans hs')
  obtain ⟨hseen, hlaid⟩ : (d.seen link).table = some table ∧ (d.seen link).formatted = true := by
    rcases d.seen_table link with ⟨refusal, e⟩ | ⟨e₁, e₂⟩
    · rw [e] at hrefused
      cases hrefused
    · exact ⟨e₁.trans htable, e₂.trans hformatted⟩
  have hviews : t.Views table table := by
    rw [ht]
    exact ⟨hseen, hseen⟩
  have hopen : t.ended = false := by rw [ht]
  obtain ⟨hbase, hwritable⟩ := Transaction.calls_frame hviews cs
  have hlaid' : (t.calls cs).2.2.base.formatted = true := by
    rw [hbase, ht]
    exact hlaid
  obtain ⟨htransaction, hcases⟩ := Transaction.finish_cases (t.calls cs).2.2 f
  rw [hending] at htransaction hcases
  have hw : ending.transaction.writable = true := by
    rw [htransaction, hwritable, ht]
  have hlate : (t.calls cs).2.2.ended = false → t.late cs = [] :=
    fun hended => (Transaction.ended_of_late hviews hended).2
  have hcalm : (∀ n cell, (d.seen link).faults.put n cell ≠ some .transaction) →
      (t.calls cs).2.2.ended = false := by
    intro hcalm
    refine (Transaction.ended_calls hviews (fun n cell => ?_) cs).trans hopen
    rw [ht]
    exact hcalm n cell
  -- Either a commit makes the view durable, or what is durable by then is all that is left.
  rcases hcases with ⟨hf, hok, hended, hdb⟩ | ⟨hnot, hdb⟩
  · have hdurable : ending.database.formatted = true := by rw [hdb, hlaid', Bool.true_or]
    refine ⟨effects table (t.answered cs), ?_, fun _ => rfl, fun h => absurd ⟨hf, hok⟩ h, hlate,
      hcalm⟩
    rw [table_settle hs hw hdurable, hdb]
    exact Transaction.calls_view hviews hended
  · have hdurable : ending.database.formatted = true := by
      rw [hdb, Transaction.durable]
      split <;> exact hlaid'
    refine ⟨effects table (t.late cs), ?_, fun h => absurd h hnot, fun _ => rfl, hlate, hcalm⟩
    rw [table_settle hs hw hdurable, hdb, Transaction.calls_durable hviews cs, hopen]
    rfl

def sampleTable : Table :=
  Table.empty.store 5 { total := 2, results := [2, 0, 0, 0, 0], clients := [⟨"10.0.0.1", 2⟩] }

/-- A disk with that table in a file at the root. Every put is refused with a rollback. -/
def sampleDisk : Disk :=
  { Disk.empty.set ["stats.db"] (.file 0) with
    content := fun _ => .database
      { table := some sampleTable, faults := { put := fun _ _ => some .transaction } }
    next := 2 }

def sampleStore : Store where
  name := "stats.db"
  link := some { number := 1, file := 0, place := some ["stats.db"] }

def sampleCalls : List StoreCall := [.put 6 .empty, .delete 5]

theorem begin_sample :
    ∃ t d notices, sampleStore.begin sampleDisk true = (some t, d, notices) := by
  have hsome : (sampleStore.begin sampleDisk true).1.isSome = true := by decide +kernel
  obtain ⟨t, ht⟩ := Option.isSome_iff_exists.mp hsome
  exact ⟨t, _, _, Prod.ext ht rfl⟩

theorem durable_after_sample : ∃ t d notices late,
    sampleStore.begin sampleDisk true = (some t, d, notices) ∧
      ((sampleStore.settle d ((t.calls sampleCalls).2.2.finish .rollback)).database 0).table =
        some (effects sampleTable late) ∧
      ((t.calls sampleCalls).2.2.ended = false → late = []) := by
  obtain ⟨t, d, notices, hbegin⟩ := begin_sample
  obtain ⟨after, htable, -, hlate, hnone, -⟩ :=
    durable_after (s := sampleStore) (d := sampleDisk) rfl rfl rfl hbegin sampleCalls .rollback rfl
  obtain rfl := hlate nofun
  exact ⟨t, d, notices, _, hbegin, htable, hnone⟩

/-- A transaction that is not committed can lose a row: after the put that is refused the
delete takes effect, whichever way the transaction ends. -/
theorem uncommitted_deletes : ∃ t d notices,
    sampleStore.begin sampleDisk true = (some t, d, notices) ∧
      (sampleDisk.database 0).table = some sampleTable ∧ sampleTable.rows.length = 1 ∧
      ∀ f : Finish, ∀ ending, (t.calls sampleCalls).2.2.finish f = ending →
        ¬ (f = .commit ∧ ending.result = .ok ()) ∧
          ((sampleStore.settle d ending).database 0).table = some Table.empty := by
  obtain ⟨t, d, notices, hbegin⟩ := begin_sample
  have hends : ((sampleStore.begin sampleDisk true).1.all fun t =>
      [Finish.commit, .rollback, .drop].all fun f =>
        let ending := (t.calls sampleCalls).2.2.finish f
        !(decide (f = .commit) && ending.result.isOk) &&
          ((sampleStore.settle (sampleStore.begin sampleDisk true).2.1 ending).database 0).table
            == some Table.empty) = true := by decide +kernel
  rw [hbegin, Option.all_some, List.all_eq_true] at hends
  refine ⟨t, d, notices, hbegin, rfl, by decide +kernel, fun f ending hending => ?_⟩
  have hf := hends f (by cases f <;> decide)
  subst hending
  rw [Bool.and_eq_true, Bool.not_eq_true', beq_iff_eq] at hf
  refine ⟨?_, hf.2⟩
  rintro ⟨rfl, hok⟩
  rw [hok] at hf
  exact absurd hf.1 nofun

end Store
end QueryTally
