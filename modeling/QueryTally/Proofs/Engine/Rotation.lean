import QueryTally.Engine.Rotation
import QueryTally.Proofs.Engine.Query
import QueryTally.Proofs.LiveHour

/-! # Rotating

On a store that serves a table a rotation stores the record of the retired hour, purges what
lies before the window, and begins the present hour. A query finds the same as before: it
reads from the table what it took from memory, and what is purged it does not look at. -/

namespace QueryTally.Engine

open QueryTally.Disk QueryTally.Hour

variable {e : Engine} {d : Disk} {link : Link} {table : Table} {live : LiveHour} {now : Hour}

/-- The table after an hour was stored in it and the hours before a cutoff were purged. -/
def rotated (live : LiveHour) (cutoff : Hour) (table : Table) : Table :=
  (table.store live.hour live.toRecord).purge cutoff

theorem flush_eq (e : Engine) (live : LiveHour) {db : Database} {t : Transaction}
    (hsees : t.Sees db table) (hw : t.writable = true) {cutoff : Hour}
    (hcutoff : now.windowStart e.limit = .ok cutoff) :
    ∃ ending, e.flush live now t = (.ok (), ending) ∧ ending.transaction.writable = true ∧
      ending.database.table = some (rotated live cutoff table) ∧
      ending.database.formatted = true := by
  obtain ⟨t₁, ht₁, hsees₁, hw₁⟩ := hsees.put hw live.hour live.toRecord
  obtain ⟨hsees₂, hw₂, -⟩ := hsees₁.purgeBefore hw₁ cutoff
  obtain ⟨-, htransaction, hdatabase⟩ := hsees₂.commit hw₂
  simp only [flush, ht₁, hcutoff, Except.isOk, Except.toBool, Bool.true_or, if_true]
  refine ⟨_, rfl, ?_, ?_, ?_⟩
  · rw [htransaction, hw₂]
  · rw [hdatabase]
    rfl
  · rw [hdatabase]

theorem rotate_same (hlive : e.live = some live) (h : live.hour = now) :
    e.rotate now d = { result := .ok false, engine := e, disk := d, notices := [] } := by
  simp only [rotate, hlive, h, if_true]

/-- **Rotating.** In any other hour the live one is stored, the window is purged, and the
present hour begins. -/
theorem rotate_eq (hlive : e.live = some live) (hs : e.store.link = some link)
    (h : d.Serves link table) (hne : live.hour ≠ now) {cutoff : Hour}
    (hcutoff : now.windowStart e.limit = .ok cutoff) :
    (e.rotate now d).result = .ok true ∧
      (e.rotate now d).engine = { e with live := some (LiveHour.start now) } ∧
      (e.rotate now d).disk.Serves link (rotated live cutoff table) ∧
      ChangedBy link d (e.rotate now d).disk := by
  obtain ⟨t, ht, hsees, hw⟩ := Store.begin_writing hs h
  obtain ⟨ending, hflush, hwriting, htable, hformatted⟩ := flush_eq e live hsees hw hcutoff
  obtain ⟨hserves, hchanged⟩ := Store.settle_writing hs h.look hwriting htable hformatted
  simp only [rotate, hlive, hne, if_false, ht, hflush]
  exact ⟨rfl, trivial, hserves, (ChangedBy.look link d).trans hchanged⟩

theorem rotate_overflow (hlive : e.live = some live) (hs : e.store.link = some link)
    (h : d.Serves link table) (hne : live.hour ≠ now) {o : Overflow}
    (hcutoff : now.windowStart e.limit = .error o) : (e.rotate now d).result = .error o := by
  obtain ⟨t, ht, hsees, hw⟩ := Store.begin_writing hs h
  obtain ⟨t₁, ht₁, -, -⟩ := hsees.put hw live.hour live.toRecord
  simp only [rotate, hlive, hne, if_false, ht, flush, ht₁, hcutoff]
  rfl

/-- What a query finds for an hour of the window is the same after a rotation. -/
theorem recordAt_rotated (hnames : live.NamesFit) (hne : live.hour ≠ now) {cutoff hour : Hour}
    (hcutoff : cutoff ≤ hour) :
    recordAt (LiveHour.start now) (rotated live cutoff table) now hour =
      recordAt live table now hour := by
  have hstored : (rotated live cutoff table).record? hour =
      if hour = live.hour then some live.toRecord else table.record? hour := by
    rw [rotated, Table.record?_purge hcutoff, Table.record?_store (LiveHour.toRecord_fits hnames)]
  have hhour : (LiveHour.start now).hour = now := rfl
  simp only [recordAt, Window.slotOf, Store.recordIn, hstored, hhour, LiveHour.toRecord_start]
  by_cases hnow : hour = now
  · rw [if_pos hnow, if_neg fun e => hne (e.symm.trans hnow), if_pos hnow]
  · rw [if_neg hnow, if_neg hnow, if_neg hnow]
    by_cases hlive : hour = live.hour
    · rw [if_pos hlive, if_pos hlive]
      rfl
    · rw [if_neg hlive, if_neg hlive]

/-- **Rotation is invisible to queries.** Whatever the live hour, the limit and the clock, on
a store with a healthy database: where a query gives a report, a rotation succeeds, and a
query after it gives the same report. -/
theorem query_after_rotate (hstore : e.store.Serves d table) (hlive : e.live = some live)
    (hnames : live.NamesFit) {g : Granularity} {r : Report}
    (hquery : (e.query g now d).result = .ok r) :
    (e.rotate now d).result = .ok (decide (live.hour ≠ now)) ∧
      ((e.rotate now d).engine.query g now (e.rotate now d).disk).result = .ok r := by
  obtain ⟨link, hs, hserves⟩ := hstore
  by_cases hne : live.hour = now
  · rw [rotate_same hlive hne]
    exact ⟨congrArg Except.ok (by simpa using hne), hquery⟩
  · rw [query_eq_ok_iff hlive hs hserves] at hquery
    obtain ⟨first, hfirst, -, hreport⟩ := reportFor_eq_ok_iff.mp hquery
    obtain ⟨hresult, hengine, hserves', -⟩ := rotate_eq hlive hs hserves hne hfirst
    refine ⟨hresult.trans (congrArg Except.ok (by simpa using hne)), ?_⟩
    have hbegun : { e with live := some (LiveHour.start now) }.live =
        some (LiveHour.start now) := rfl
    rw [hengine, query_eq_ok_iff hbegun hs hserves']
    refine reportFor_eq_ok_iff.mpr ⟨first, hfirst, exists_minus_windowStart hfirst, ?_⟩
    rw [← hreport]
    refine congrArg (Report.ofWindow · g) (windowOf_congr (toInt_windowStart hfirst) ?_)
    exact fun hour hle _ => recordAt_rotated hnames hne hle

def sampleTable : Table :=
  Table.empty.store 999
    { total := 5, results := [5, 0, 0, 0, 0], domains := [⟨"example.org", 5⟩] }

def sampleDisk : Disk :=
  { Disk.empty.set ["stats.db"] (.file 0) with
    content := fun _ => .database { table := some sampleTable }
    next := 2 }

def sampleHour : LiveHour where
  hour := 1000
  total := 1
  results := { filtered := 1 }
  micros := 9
  blockedDomains := Tally.ofPairs [⟨"ads.example", 1⟩]
  clients := Tally.ofPairs [⟨"10.0.0.1", 1⟩]

def sample : Engine where
  limit := 3
  store :=
    { name := "stats.db", link := some { number := 1, file := 0, place := some ["stats.db"] } }
  live := some sampleHour

theorem serves_sample : sample.store.Serves sampleDisk sampleTable :=
  ⟨_, rfl, ⟨rfl, rfl, rfl⟩, by decide, Nat.zero_lt_two⟩

theorem namesFit_sampleHour : sampleHour.NamesFit := by
  unfold sampleHour
  refine ⟨nofun, ?_, ?_⟩ <;> unfold TextFits <;> decide +kernel

def sampleReport : Report where
  queries := [5, 1, 0]
  filtered := [0, 1, 0]
  safeBrowsing := [0, 0, 0]
  parental := [0, 0, 0]
  topDomains := [⟨"example.org", 5⟩]
  topBlockedDomains := [⟨"ads.example", 1⟩]
  topClients := [⟨"10.0.0.1", 1⟩]
  totalQueries := 6
  totalFiltered := 1
  totalSafeBrowsing := 0
  totalSafeSearch := 0
  totalParental := 0
  meanMicros := 9
  granularity := .hours

theorem query_after_rotate_sample :
    (sample.rotate 1001 sampleDisk).result = .ok true ∧
      ((sample.rotate 1001 sampleDisk).engine.query .hours 1001
        (sample.rotate 1001 sampleDisk).disk).result = .ok sampleReport :=
  query_after_rotate serves_sample rfl namesFit_sampleHour
    (toOption_eq_some_iff.mp (by decide +kernel))

end QueryTally.Engine
