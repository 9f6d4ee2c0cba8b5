import QueryTally.Proofs.Store.Atomicity
import QueryTally.Proofs.Store
import QueryTally.Proofs.Store.Purging

/-! # A transaction as a map of records

Every hour has the rows of one unit for its region. On a healthy database a call changes the
region of its own hour only, so that of all calls the last one that put or deleted an hour says
what the transaction holds of it (`StoreCall.lastChange?`), and before there is one, the table
does that it began with. -/

namespace QueryTally

namespace StoreCall

/-- What a call makes of the record of an hour, if it changes it. -/
def change? (h : Hour) : StoreCall → Option (Option HourRecord)
  | .put k record => if k = h then some (some record) else none
  | .delete k => if k = h then some none else none
  | .get _ | .scan _ => none

/-- What the last of some calls that changed the record of an hour has made of it. -/
def lastChange? (cs : List StoreCall) (h : Hour) : Option (Option HourRecord) :=
  cs.reverse.findSome? (·.change? h)

@[simp] theorem lastChange?_cons (c : StoreCall) (cs : List StoreCall) (h : Hour) :
    lastChange? (c :: cs) h = (lastChange? cs h).or (c.change? h) := by
  have hlast : [c].findSome? (·.change? h) = c.change? h := by
    simp only [List.findSome?_cons, List.findSome?_nil]
    cases c.change? h <;> rfl
  rw [lastChange?, List.reverse_cons, List.findSome?_append, hlast, lastChange?]

def Fits : StoreCall → Prop
  | .put _ record => record.Fits
  | _ => True

/-- The table after a call that succeeds. -/
def done (table : Table) : StoreCall → Table
  | .put h record => table.store h record
  | .delete h => table.deleteUnit h.cell
  | .get _ | .scan _ => table

end StoreCall

/-! ## One call on a table -/

namespace Table

variable {t : Table} {c : StoreCall} {h : Hour} {r : Row}

/-- What a table holds of an hour: a record, nothing, or something that is no record. -/
def held (t : Table) (h : Hour) : Except StoreError (Option HourRecord) :=
  match t.get? h.cell recordSlot with
  | none => .ok none
  | some (.text _) => .error .database
  | some (.blob bytes) => ((Codec.decode bytes).map some).mapError .codec

theorem get?_store (t : Table) (h k : Hour) (record : HourRecord) :
    (t.store h record).get? k.cell recordSlot =
      if k = h then some (.blob (Codec.encode record)) else t.get? k.cell recordSlot := by
  simp only [store, get?_put, Hour.cell_inj, and_true]

/-- **What is held** after a call. -/
theorem held_done (hc : c.Fits) (t : Table) (h : Hour) :
    (c.done t).held h = (c.change? h).elim (t.held h) .ok := by
  cases c with
  | get k => rfl
  | scan limit => rfl
  | put k record =>
    simp only [StoreCall.done, StoreCall.change?, held, get?_store]
    by_cases hk : k = h
    · subst hk
      have hdecode : Codec.decode (Codec.encode record) = .ok record := Codec.decode_encode hc
      rw [if_pos rfl, if_pos rfl]
      dsimp only
      rw [hdecode]
      rfl
    · simp [hk, Ne.symm hk]
  | delete k =>
    simp only [StoreCall.done, StoreCall.change?, held, get?_deleteUnit, Hour.cell_inj]
    by_cases hk : k = h
    · simp [hk]
    · simp [hk, Ne.symm hk]

theorem hasUnit_deleteUnit (t : Table) (h k : Hour) :
    (t.deleteUnit h.cell).hasUnit k.cell = true ↔ h ≠ k ∧ t.hasUnit k.cell = true := by
  simp only [hasUnit_iff, mem_rows_deleteUnit]
  constructor
  · rintro ⟨r, ⟨hr, hne⟩, hu⟩
    refine ⟨?_, r, hr, hu⟩
    rintro rfl
    exact hne hu
  · rintro ⟨hne, r, hr, hu⟩
    refine ⟨r, ⟨hr, fun hu' => hne ?_⟩, hu⟩
    exact Hour.cell_inj.mp (hu'.symm.trans hu)

/-- **Which hours have a row** after a call. -/
theorem hasUnit_done (c : StoreCall) (t : Table) (h : Hour) :
    (c.done t).hasUnit h.cell = (c.change? h).elim (t.hasUnit h.cell) Option.isSome := by
  rw [Bool.eq_iff_iff]
  cases c with
  | get k => rfl
  | scan limit => rfl
  | put k record =>
    simp only [StoreCall.done, StoreCall.change?, hasUnit_store]
    by_cases hk : k = h
    · simp [hk]
    · simp [hk]
  | delete k =>
    simp only [StoreCall.done, StoreCall.change?, hasUnit_deleteUnit]
    by_cases hk : k = h
    · simp [hk]
    · simp [hk]

/-- **Every other row** stays as it is, whether it is of another hour or of none. -/
theorem mem_rows_done (hr : ∀ h : Hour, r.unit = h.cell → c.change? h = none) :
    r ∈ (c.done t).rows ↔ r ∈ t.rows := by
  cases c with
  | get k => rfl
  | scan limit => rfl
  | put k record =>
    have hne : r.unit ≠ k.cell := by
      intro hu
      simpa [StoreCall.change?] using hr k hu
    have hnew : r ≠ ⟨k.cell, recordSlot, .blob (Codec.encode record)⟩ := by
      rintro rfl
      exact hne rfl
    simp [StoreCall.done, mem_rows_store, hne, hnew]
  | delete k =>
    have hne : r.unit ≠ k.cell := by
      intro hu
      simpa [StoreCall.change?] using hr k hu
    simp [StoreCall.done, mem_rows_deleteUnit, hne]

theorem Keyed.done (ht : t.Keyed) (c : StoreCall) : (c.done t).Keyed := by
  intro r hr
  cases c with
  | get k => exact ht r hr
  | scan limit => exact ht r hr
  | put k record =>
    rcases mem_rows_store.mp hr with rfl | ⟨hr, -⟩
    · rfl
    · exact ht r hr
  | delete k => exact ht r (mem_rows_deleteUnit.mp hr).1

/-! ## Some calls on a table -/

def after (t : Table) (cs : List StoreCall) : Table := cs.foldl (fun t c => c.done t) t

/-- What is held of an hour after some calls: the record of its last put, nothing if it was
deleted since, and what the table held if it was neither put nor deleted. -/
def heldAfter (t : Table) (cs : List StoreCall) (h : Hour) :
    Except StoreError (Option HourRecord) :=
  (StoreCall.lastChange? cs h).elim (t.held h) .ok

def hasAfter (t : Table) (cs : List StoreCall) (h : Hour) : Bool :=
  (StoreCall.lastChange? cs h).elim (t.hasUnit h.cell) Option.isSome

/-- **The last change of an hour decides** what is held of it. -/
theorem held_after {cs : List StoreCall} (hcs : ∀ c ∈ cs, c.Fits) (t : Table) (h : Hour) :
    (t.after cs).held h = t.heldAfter cs h := by
  induction cs generalizing t with
  | nil => rfl
  | cons c cs ih =>
    obtain ⟨hc, hcs⟩ := List.forall_mem_cons.mp hcs
    have hrest : (t.after (c :: cs)).held h = (c.done t).heldAfter cs h := ih hcs (c.done t)
    rw [hrest, heldAfter, held_done hc, heldAfter, StoreCall.lastChange?_cons]
    cases StoreCall.lastChange? cs h <;> rfl

theorem hasUnit_after (t : Table) (cs : List StoreCall) (h : Hour) :
    (t.after cs).hasUnit h.cell = t.hasAfter cs h := by
  induction cs generalizing t with
  | nil => rfl
  | cons c cs ih =>
    have hrest : (t.after (c :: cs)).hasUnit h.cell = (c.done t).hasAfter cs h := ih (c.done t)
    rw [hrest, hasAfter, hasUnit_done, hasAfter, StoreCall.lastChange?_cons]
    cases StoreCall.lastChange? cs h <;> rfl

theorem Keyed.after (ht : t.Keyed) (cs : List StoreCall) : (t.after cs).Keyed := by
  induction cs generalizing t with
  | nil => exact ht
  | cons c cs ih => exact ih (ht.done c)

end Table

/-! ## Looking through the hours -/

theorem Hour.rank_cell_lt_iff_key {h k : Hour} : h.cell.rank < k.cell.rank ↔ h.key < k.key := by
  simp [Hour.cell, Cell.rank]

/-- The hours of a list up to the first at which a visitor stops, and that one. -/
def Hour.upTo (stop : Hour → Bool) : List Hour → List Hour
  | [] => []
  | h :: rest => h :: if stop h then [] else upTo stop rest

theorem Hour.upTo_sublist (stop : Hour → Bool) (hours : List Hour) :
    (upTo stop hours).Sublist hours := by
  induction hours with
  | nil => exact .slnil
  | cons h rest ih =>
    simp only [upTo]
    split
    · exact (List.nil_sublist rest).cons_cons h
    · exact ih.cons_cons h

/-- What is visited is what comes after no hour at which the visitor stops. -/
theorem Hour.mem_upTo_iff {stop : Hour → Bool} {hours : List Hour}
    (hsorted : hours.Pairwise fun h k => h.key < k.key) {h : Hour} :
    h ∈ upTo stop hours ↔ h ∈ hours ∧ ∀ k ∈ hours, k.key < h.key → stop k = false := by
  induction hours with
  | nil => simp [upTo]
  | cons first rest ih =>
    obtain ⟨hfirst, hrest⟩ := List.pairwise_cons.mp hsorted
    rw [upTo, List.forall_mem_cons, List.mem_cons, List.mem_cons]
    constructor
    · rintro (rfl | hmem)
      · refine ⟨.inl rfl, fun hlt => absurd hlt (List.lt_irrefl _), fun k hk hlt => ?_⟩
        exact absurd (List.lt_trans hlt (hfirst k hk)) (List.lt_irrefl _)
      · split at hmem
        · cases hmem
        · rename_i hgoes
          obtain ⟨hh, hall⟩ := (ih hrest).mp hmem
          exact ⟨.inr hh, fun _ => Bool.eq_false_iff.mpr hgoes, hall⟩
    · rintro ⟨rfl | hh, hgoes, hall⟩
      · exact .inl rfl
      · refine .inr ?_
        rw [hgoes (hfirst h hh), if_neg Bool.false_ne_true]
        exact (ih hrest).mpr ⟨hh, hall⟩

/-- With no text among the units, nothing ends a look but the visitor. -/
theorem Scan.ofUnits_eq {units : List Cell} (hunits : ∀ u ∈ units, u.isText = false)
    (stop : Hour → Bool) :
    (ofUnits stop units).error = none ∧
      (ofUnits stop units).seen = Hour.upTo stop (units.filterMap Cell.hour?) := by
  induction units with
  | nil => exact ⟨rfl, rfl⟩
  | cons unit rest ih =>
    obtain ⟨hunit, hrest⟩ := List.forall_mem_cons.mp hunits
    obtain ⟨herror, hseen⟩ := ih hrest
    cases unit with
    | text s => cases hunit
    | blob bytes =>
      cases hkey : Hour.ofKey? bytes with
      | none =>
        have hnone : Cell.hour? (.blob bytes) = none := hkey
        rw [List.filterMap_cons_none hnone]
        simp only [ofUnits, hkey]
        exact ⟨herror, hseen⟩
      | some k =>
        have hsome : Cell.hour? (.blob bytes) = some k := hkey
        rw [List.filterMap_cons_some hsome]
        simp only [ofUnits, hkey, Hour.upTo]
        cases hstop : stop k with
        | true => simp
        | false => simp [herror, hseen]

namespace Transaction

variable {t : Transaction} {db : Database} {table : Table}

/-- **A transaction that answers as a map of records.** The table that it sees has a row of
exactly the hours that `has` tells, in whatever slot. -/
structure Maps (t : Transaction) (table : Table)
    (found : Hour → Except StoreError (Option HourRecord)) (has : Hour → Bool) : Prop where
  view : t.view = some table
  rows : ∀ h, has h = true ↔ ∃ r ∈ table.rows, r.unit = h.cell
  get : ∀ h, t.get h = found h
  scan : ∀ stop, (t.scan stop).error = none ∧
    (t.scan stop).seen.Pairwise (fun h k => h.key < k.key) ∧
    ∀ h, h ∈ (t.scan stop).seen ↔
      has h = true ∧ ∀ k, has k = true → k.key < h.key → stop k = false
  put : t.writable = true → ∀ h record, (t.put h record).1 = .ok ()
  delete : t.writable = true → ∀ h, (t.delete h).1 = .ok (has h)

theorem Sees.get_eq_held (hsees : t.Sees db table) (h : Hour) : t.get h = table.held h := by
  simp only [Transaction.get, hsees.view, hsees.base, hsees.faults, Table.held,
    Bool.false_eq_true, if_false]
  cases table.get? h.cell recordSlot with
  | none => rfl
  | some c =>
    cases c with
    | text s => rfl
    | blob bytes =>
      dsimp only
      cases Codec.decode bytes <;> rfl

theorem Sees.maps (hsees : t.Sees db table) (hkeyed : table.Keyed) :
    t.Maps table table.held fun h => table.hasUnit h.cell := by
  refine ⟨hsees.view, fun h => Table.hasUnit_iff, hsees.get_eq_held, fun stop => ?_,
    fun hw h record => ?_, fun hw h => ?_⟩
  · have hunits : ∀ u ∈ table.units, u.isText = false := by
      intro u hu
      obtain ⟨r, hr, rfl⟩ := Table.hasUnit_iff.mp (Table.mem_units_iff.mp hu)
      exact hkeyed r hr
    have hsorted : table.hours.Pairwise fun h k => h.key < k.key :=
      table.pairwise_hours.imp Hour.rank_cell_lt_iff_key.mp
    obtain ⟨herror, hseen⟩ := Scan.ofUnits_eq hunits stop
    have hscan : t.scan stop = Scan.ofUnits stop table.units := by
      rw [scan, hsees.view]
    change (Scan.ofUnits stop table.units).seen = Hour.upTo stop table.hours at hseen
    rw [hscan, hseen]
    refine ⟨herror, hsorted.sublist (Hour.upTo_sublist stop table.hours), fun h => ?_⟩
    rw [Hour.mem_upTo_iff hsorted]
    simp only [Table.mem_hours_iff]
  · obtain ⟨t', hput, -⟩ := hsees.put hw h record
    rw [hput]
  · obtain ⟨t', hdelete, -⟩ := hsees.delete hw h
    rw [hdelete]

/-- **One call.** -/
theorem Sees.call (hsees : t.Sees db table) (hw : t.writable = true) (c : StoreCall) :
    (t.call c).2.2.Sees db (c.done table) ∧ (t.call c).2.2.writable = true := by
  cases c with
  | get h => exact ⟨hsees.look, (writable_look hsees).trans hw⟩
  | scan limit => exact ⟨hsees.look, (writable_look hsees).trans hw⟩
  | put h record =>
    obtain ⟨t', hput, hsees', hw'⟩ := hsees.put hw h record
    simp only [Transaction.call, hput]
    exact ⟨hsees', hw'⟩
  | delete h =>
    obtain ⟨t', hdelete, hsees', hw'⟩ := hsees.delete hw h
    simp only [Transaction.call, hdelete]
    exact ⟨hsees', hw'⟩

/-- **Some calls.** -/
theorem Sees.calls (hsees : t.Sees db table) (hw : t.writable = true) (cs : List StoreCall) :
    (t.calls cs).2.2.Sees db (table.after cs) ∧ (t.calls cs).2.2.writable = true := by
  induction cs generalizing t table with
  | nil => exact ⟨hsees, hw⟩
  | cons c cs ih =>
    obtain ⟨hsees', hw'⟩ := hsees.call hw c
    exact ih hsees' hw'

/-- A call is answered by the transaction that the calls before it have left. -/
theorem getElem?_calls (t : Transaction) (cs : List StoreCall) (c : StoreCall)
    (rest : List StoreCall) :
    (t.calls (cs ++ c :: rest)).1[cs.length]? = some ((t.calls cs).2.2.call c).1 := by
  induction cs generalizing t with
  | nil => rfl
  | cons first cs ih => exact ih (t.call first).2.2

/-! ## Reading only -/

/-- A call that writes is refused by a transaction that may only read. -/
theorem call_readOnly (hw : t.writable = false) (c : StoreCall) :
    (t.call c).2.2.writable = false ∧
      (∀ h record, c = .put h record → (t.call c).1 = .put (.error .readOnly)) ∧
      ∀ h, c = .delete h → (t.call c).1 = .delete (.error .readOnly) := by
  have hlook : t.look.writable = false := by
    rw [look_writable, hw]
  cases c with
  | get h =>
    refine ⟨hlook, fun _ _ hc => ?_, fun _ hc => ?_⟩
    · cases hc
    · cases hc
  | scan limit =>
    refine ⟨hlook, fun _ _ hc => ?_, fun _ hc => ?_⟩
    · cases hc
    · cases hc
  | put h record =>
    have hcall : t.call (.put h record) = (.put (.error .readOnly), [], t) := by
      simp only [Transaction.call, Transaction.put, hw, Bool.not_false, if_true]
    rw [hcall]
    refine ⟨hw, fun _ _ _ => rfl, fun _ hc => ?_⟩
    cases hc
  | delete h =>
    have hcall : t.call (.delete h) = (.delete (.error .readOnly), [], t) := by
      simp only [Transaction.call, Transaction.delete, hw, Bool.not_false, if_true]
    rw [hcall]
    refine ⟨hw, fun _ _ hc => ?_, fun _ _ => rfl⟩
    cases hc

theorem calls_readOnly (hw : t.writable = false) (cs : List StoreCall) :
    (t.calls cs).2.2.writable = false := by
  induction cs generalizing t with
  | nil => exact hw
  | cons c cs ih => exact ih (call_readOnly hw c).1

/-- Every call that writes is refused, wherever it stands among the calls. -/
theorem replies_readOnly (hw : t.writable = false) (cs : List StoreCall) (i : Nat) :
    (∀ h record, cs[i]? = some (.put h record) →
      (t.calls cs).1[i]? = some (.put (.error .readOnly))) ∧
    ∀ h, cs[i]? = some (.delete h) → (t.calls cs).1[i]? = some (.delete (.error .readOnly)) := by
  induction cs generalizing t i with
  | nil =>
    refine ⟨fun _ _ hc => ?_, fun _ hc => ?_⟩
    · cases hc
    · cases hc
  | cons c cs ih =>
    obtain ⟨hw', hput, hdelete⟩ := call_readOnly hw c
    cases i with
    | zero =>
      refine ⟨fun h record hc => ?_, fun h hc => ?_⟩
      · exact congrArg some (hput h record (Option.some.inj hc))
      · exact congrArg some (hdelete h (Option.some.inj hc))
    | succ i => exact ih hw' i

end Transaction

namespace Store

variable {s : Store} {d : Disk} {link : Link} {table : Table}

/-- A transaction that may only read leaves every file as it is. -/
theorem content_settle_readOnly (hs : s.link = some link) {ending : Transaction.Ending}
    (hw : ending.transaction.writable = false) {f : FileNumber} (hf : f < d.next) :
    (s.settle d ending).content f = d.content f := by
  simp only [settle, hs, hw, Bool.false_eq_true, if_false]
  split
  · exact Disk.content_look link hf
  · rfl

/-- What is committed is what the next transaction begins with. -/
theorem begin_committed (hs : s.link = some link) (hd : d.Serves link table) {t : Transaction}
    {db : Database} {new : Table} (hsees : t.Sees db new) (hw : t.writable = true)
    (hkeyed : new.Keyed) (again : Bool) :
    ∃ t' d' notices, s.begin (s.settle d t.commit) again = (some t', d', notices) ∧
      t'.writable = again ∧ t'.Maps new new.held fun h => new.hasUnit h.cell := by
  obtain ⟨-, htransaction, hdatabase⟩ := hsees.commit hw
  obtain ⟨hserves, -⟩ := settle_writing hs hd (htransaction.symm ▸ hw)
    (show t.commit.database.table = some new by rw [hdatabase]) (by rw [hdatabase])
  cases again with
  | true =>
    obtain ⟨t', hbegin, hsees', hw'⟩ := begin_writing hs hserves
    exact ⟨t', _, _, hbegin, hw', hsees'.maps hkeyed⟩
  | false =>
    obtain ⟨t', hbegin, hsees', hw'⟩ := begin_reading hs hserves
    exact ⟨t', _, _, hbegin, hw', hsees'.maps hkeyed⟩

/-- A transaction that may write, on a healthy database, from its first call to the next
transaction. -/
theorem begin_writing_maps (hs : s.link = some link) (hd : d.Serves link table)
    (hkeyed : table.Keyed) :
    ∃ t d₁ notices, s.begin d true = (some t, d₁, notices) ∧
      ∀ cs, (∀ c ∈ cs, c.Fits) → ∃ last after, (t.calls cs).2.2 = last ∧ last.writable = true ∧
        last.Maps after (table.heldAfter cs) (table.hasAfter cs) ∧
        (∀ c rest, (t.calls (cs ++ c :: rest)).1[cs.length]? = some (last.call c).1) ∧
        (∀ c, ∃ next, (last.call c).2.2.view = some next ∧
          ∀ r : Row, (∀ h : Hour, r.unit = h.cell → c.change? h = none) →
            (r ∈ next.rows ↔ r ∈ after.rows)) ∧
        last.commit.result = .ok () ∧
        ∀ again, ∃ t' d' notices', s.begin (s.settle d₁ last.commit) again =
            (some t', d', notices') ∧ t'.writable = again ∧
          t'.Maps after (table.heldAfter cs) (table.hasAfter cs) := by
  obtain ⟨t, hbegin, hsees, hw⟩ := begin_writing hs hd
  refine ⟨t, _, _, hbegin, fun cs hcs => ?_⟩
  obtain ⟨hsees', hw'⟩ := hsees.calls hw cs
  have hkeyed' := hkeyed.after cs
  have hheld : (table.after cs).held = table.heldAfter cs :=
    funext (Table.held_after hcs table)
  have hhas : (fun h : Hour => (table.after cs).hasUnit h.cell) = table.hasAfter cs :=
    funext (Table.hasUnit_after table cs)
  refine ⟨_, table.after cs, rfl, hw', ?_, t.getElem?_calls cs, fun c => ?_,
    (hsees'.commit hw').1, fun again => ?_⟩
  · rw [← hheld, ← hhas]
    exact hsees'.maps hkeyed'
  · exact ⟨_, (hsees'.call hw' c).1.view, fun r hr => Table.mem_rows_done hr⟩
  · rw [← hheld, ← hhas]
    exact begin_committed hs hd.look hsees' hw' hkeyed' again

/-- A transaction that may only read, on whatever database: it refuses what would write, and no
file changes by it. -/
theorem begin_reading_keeps (hs : s.link = some link) {t : Transaction} {d₁ : Disk}
    {notices : List Notice} (hbegin : s.begin d false = (some t, d₁, notices))
    (cs : List StoreCall) (f : Finish) :
    (∀ i : Nat, (∀ h record, cs[i]? = some (StoreCall.put h record) →
        (t.calls cs).1[i]? = some (StoreReply.put (.error .readOnly))) ∧
      ∀ h, cs[i]? = some (StoreCall.delete h) →
        (t.calls cs).1[i]? = some (StoreReply.delete (.error .readOnly))) ∧
    ∀ g < d.next, (s.settle d₁ ((t.calls cs).2.2.finish f)).content g = d.content g := by
  obtain ⟨link', hs', rfl, -, ht⟩ := begin_eq_some hbegin
  have hw : t.writable = false := by rw [ht]
  refine ⟨Transaction.replies_readOnly hw cs, fun g hg => ?_⟩
  have hw' : ((t.calls cs).2.2.finish f).transaction.writable = false := by
    rw [(Transaction.finish_cases _ f).1]
    exact Transaction.calls_readOnly hw cs
  exact content_settle_readOnly hs hw' hg

/-- **A transaction is a map of records.** On a healthy database whose units are all bytes, with
whatever slots and values:

* After any calls of a transaction that may write, it holds of each hour the record of its last
  put, nothing if it was deleted since, and else what the table held at the beginning; an hour has
  a row if it was put last, or was not changed and had one; and so is every next call answered.
  A call leaves the rows alone that are not of its hour, those under malformed keys among them.
* A commit succeeds, and the next transaction begins with the same map.
* A transaction that may only read, on any disk, refuses every put and delete, and no file
  changes by it however it ends. -/
theorem begin_maps (hs : s.link = some link) (hd : d.Serves link table) (hkeyed : table.Keyed) :
    (∃ t d₁ notices, s.begin d true = (some t, d₁, notices) ∧
      ∀ cs, (∀ c ∈ cs, c.Fits) → ∃ last after, (t.calls cs).2.2 = last ∧ last.writable = true ∧
        last.Maps after (table.heldAfter cs) (table.hasAfter cs) ∧
        (∀ c rest, (t.calls (cs ++ c :: rest)).1[cs.length]? = some (last.call c).1) ∧
        (∀ c, ∃ next, (last.call c).2.2.view = some next ∧
          ∀ r : Row, (∀ h : Hour, r.unit = h.cell → c.change? h = none) →
            (r ∈ next.rows ↔ r ∈ after.rows)) ∧
        last.commit.result = .ok () ∧
        ∀ again, ∃ t' d' notices', s.begin (s.settle d₁ last.commit) again =
            (some t', d', notices') ∧ t'.writable = again ∧
          t'.Maps after (table.heldAfter cs) (table.hasAfter cs)) ∧
    (∃ t d₁ notices, s.begin d false = (some t, d₁, notices)) ∧
    (∀ d' t d₁ notices, s.begin d' false = (some t, d₁, notices) → ∀ cs f,
      (∀ i : Nat, (∀ h record, cs[i]? = some (StoreCall.put h record) →
          (t.calls cs).1[i]? = some (StoreReply.put (.error .readOnly))) ∧
        ∀ h, cs[i]? = some (StoreCall.delete h) →
          (t.calls cs).1[i]? = some (StoreReply.delete (.error .readOnly))) ∧
      ∀ g < d'.next, (s.settle d₁ ((t.calls cs).2.2.finish f)).content g = d'.content g) ∧
    ∀ h k : Hour, h.cell = k.cell → h = k := by
  refine ⟨begin_writing_maps hs hd hkeyed, ?_, ?_, fun h k hcell => Hour.cell_inj.mp hcell⟩
  · obtain ⟨t, hbegin, -⟩ := begin_reading hs hd
    exact ⟨t, _, _, hbegin⟩
  · intro d' t d₁ notices hbegin cs f
    exact begin_reading_keeps hs hbegin cs f

/-- A table with two rows of one hour, an hour whose value is no record, and a row of no hour. -/
def strangeTable : Table :=
  (((Table.empty.store 5 .empty).put ⟨Hour.cell 5, .blob [1], .text "?"⟩).put
    ⟨Hour.cell 6, recordSlot, .blob [0]⟩).put ⟨.blob [5], recordSlot, .blob []⟩

def strangeDisk : Disk :=
  { Disk.empty.set ["stats.db"] (.file 0) with
    content := fun _ => .database { table := some strangeTable }
    next := 2 }

/-- After a put of an hour and a delete of another, the transaction holds the record of the one,
nothing of the other, in whose slots there were two rows, and of a third what cannot be read. One
that may only read refuses the put. -/
theorem begin_maps_sample : (∃ t d₁ notices last,
    sampleStore.begin strangeDisk true = (some t, d₁, notices) ∧
      (t.calls [.put (-1) { total := 3 }, .delete 5]).2.2 = last ∧
      last.get (-1) = .ok (some { total := 3 }) ∧ last.get 5 = .ok none ∧
      last.get 6 = .error (.codec .endOfInput) ∧ (last.delete 5).1 = .ok false ∧
      (last.delete 6).1 = .ok true) ∧
    ∃ t d₁ notices, sampleStore.begin strangeDisk false = (some t, d₁, notices) ∧
      (t.calls [.put (-1) { total := 3 }]).1[0]? = some (.put (.error .readOnly)) := by
  have hserves : strangeDisk.Serves { number := 1, file := 0, place := some ["stats.db"] }
      strangeTable := ⟨⟨rfl, rfl, rfl⟩, by decide, Nat.zero_lt_two⟩
  obtain ⟨⟨t, d₁, notices, hbegin, hcalls⟩, ⟨t', d', notices', hbegin'⟩, hreading, -⟩ :=
    begin_maps (s := sampleStore) rfl hserves (by unfold Table.Keyed; decide +kernel)
  have hfits : HourRecord.Fits { total := 3 } :=
    ⟨by decide, pairsFit_nil, pairsFit_nil, pairsFit_nil⟩
  have hall : ∀ c ∈ [StoreCall.put (-1) { total := 3 }, .delete 5], c.Fits :=
    List.forall_mem_cons.mpr ⟨hfits, List.forall_mem_singleton.mpr trivial⟩
  obtain ⟨last, after, hlast, hw, hmaps, -⟩ := hcalls _ hall
  refine ⟨⟨t, d₁, notices, last, hbegin, hlast, ?_, ?_, ?_, ?_, ?_⟩, t', d', notices', hbegin',
    ((hreading _ _ _ _ hbegin' _ .rollback).1 0).1 _ _ rfl⟩
  · rw [hmaps.get]
    rfl
  · rw [hmaps.get]
    rfl
  · rw [hmaps.get]
    rfl
  · rw [hmaps.delete hw]
    rfl
  · rw [hmaps.delete hw]
    rfl

end Store

end QueryTally
