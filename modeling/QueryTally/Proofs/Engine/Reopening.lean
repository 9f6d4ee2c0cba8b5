import QueryTally.Engine.Opening
import QueryTally.Proofs.Engine.Rotation

/-! # Closing and opening again

Closing stores the live hour. Opening purges what is more than an hour outside the window and
takes up the present hour, if a record of it is stored. A query finds the same before and
after: what the record of the live hour loses, the report does not show. -/

namespace QueryTally.Engine

open QueryTally.Disk QueryTally.Hour

variable {e : Engine} {d : Disk} {link : Link} {table : Table} {live : LiveHour} {now : Hour}
variable {place : Path}

theorem toInt_openingCutoff {limit : UInt32} {cutoff : Hour}
    (h : openingCutoff now limit = .ok cutoff) : cutoff.toInt = now.toInt - limit.toNat - 1 := by
  obtain ⟨start, hstart, hcutoff⟩ := bind_eq_ok_iff.mp h
  rw [minus_eq_ok_iff.mp hcutoff, minus_eq_ok_iff.mp hstart, toInt_ofCount]
  rfl

theorem openingCutoff_le {limit : UInt32} {cutoff : Hour}
    (h : openingCutoff now limit = .ok cutoff) : cutoff ≤ now := by
  have := toInt_openingCutoff h
  exact Int64.le_iff_toInt_le.mpr (by omega)

/-- **Closing.** The live hour is stored, and the database is let go of. -/
theorem close_eq (hlive : e.live = some live) (hs : e.store.link = some link)
    (h : d.Holds e.store.name place link table) :
    (e.close d).result = .ok () ∧
      (e.close d).engine =
        { e with store := { e.store with link := none }, live := none, shutdown := true } ∧
      Store.Ready (e.close d).disk e.store.name place (table.store live.hour live.toRecord) := by
  obtain ⟨t, ht, hsees, hw⟩ := Store.begin_writing hs h.serves
  obtain ⟨t₁, ht₁, hsees₁, hw₁⟩ := hsees.put hw live.hour live.toRecord
  obtain ⟨-, htransaction, hdatabase⟩ := hsees₁.commit hw₁
  have hwriting : t₁.commit.transaction.writable = true := by rw [htransaction, hw₁]
  obtain ⟨hserves, hchanged⟩ := Store.settle_writing hs h.serves.look hwriting
    (congrArg (·.table) hdatabase) (congrArg (·.formatted) hdatabase)
  have hholds := h.of_changedBy ((ChangedBy.look link d).trans hchanged) hserves
  simp only [close, flushLast, hlive, ht, ht₁, Store.close]
  exact ⟨trivial, trivial, Store.release_ready hs hholds⟩

theorem recover_eq (store : Store) (hs : store.link = some link) (h : d.Serves link table)
    {limit : UInt32} {cutoff : Hour} (hcutoff : openingCutoff now limit = .ok cutoff) :
    (recover store limit now d).result = .ok (table.record? now) ∧
      (recover store limit now d).disk.Serves link (table.purge cutoff) ∧
      ChangedBy link d (recover store limit now d).disk := by
  obtain ⟨t, ht, hsees, hw⟩ := Store.begin_writing hs h
  obtain ⟨hsees₁, hw₁, hsame⟩ := hsees.purgeBefore hw cutoff
  have hending : ∀ ending, (if (t.purgeBefore cutoff).deletedAny
        then (t.purgeBefore cutoff).transaction.commit
        else (t.purgeBefore cutoff).transaction.rollback) = ending →
      ending.transaction.writable = true ∧
        ending.database.table = some (table.purge cutoff) ∧
        ending.database.formatted = true := by
    rintro ending rfl
    cases hany : (t.purgeBefore cutoff).deletedAny with
    | true =>
      obtain ⟨-, htransaction, hdatabase⟩ := hsees₁.commit hw₁
      rw [if_pos rfl, htransaction, hdatabase]
      exact ⟨hw₁, rfl, rfl⟩
    | false =>
      obtain ⟨-, htransaction, hdatabase⟩ := hsees₁.rollback
      rw [if_neg Bool.false_ne_true, htransaction, hdatabase, hsame hany]
      exact ⟨hw₁, h.healthy.table, h.healthy.formatted⟩
  obtain ⟨hwriting, htable, hformatted⟩ := hending _ rfl
  obtain ⟨hserves, hchanged⟩ := Store.settle_writing hs h.look hwriting htable hformatted
  have hfound := Table.record?_purge (openingCutoff_le hcutoff) table
  simp only [recover, ht, hcutoff]
  refine ⟨?_, hserves, (ChangedBy.look link d).trans hchanged⟩
  rw [← hfound]
  rcases hsees₁.get now with hget | ⟨error, hget, hnone⟩
  · simp only [hget]
  · simp only [hget, hnone]

theorem recover_error (store : Store) (hs : store.link = some link)
    (h : d.Serves link table) {limit : UInt32} {o : Overflow}
    (hcutoff : openingCutoff now limit = .error o) :
    (recover store limit now d).result = .error o := by
  obtain ⟨t, ht, -, -⟩ := Store.begin_writing hs h
  simp only [recover, ht, hcutoff]

def started (c : Config) (runtime : Bool) : Except StatsError Unit :=
  if c.rotation.enabled then startRotation c.rotation.pollMillis runtime else .ok ()

variable {c : Config} {runtime : Bool}

/-- **Opening.** The table is purged and the present hour taken up; the engine is given only
if its rotation task can be started, but the purge stands. -/
theorem launch_eq (runtime : Bool) (h : Store.Ready d c.path place table) {cutoff : Hour}
    (hcutoff : openingCutoff now (Config.limitHours c.days) = .ok cutoff)
    (hresume : resume now (table.record? now) = .ok live) :
    ∃ link d', d'.Holds c.path place link (table.purge cutoff) ∧
      (launch c runtime now d).disk = (match started c runtime with
        | .ok () => d'
        | .error _ => d'.release link) ∧
      (launch c runtime now d).result = (match started c runtime with
        | .ok () => .ok {
            limit := Config.limitHours c.days
            store := { name := c.path, link := some link }
            live := some live }
        | .error err => .error (.failure err)) := by
  obtain ⟨link, d₁, hconnect, hholds⟩ := Store.connect_holds h
  obtain ⟨hfound, hserves, hchanged⟩ := recover_eq ⟨c.path, some link⟩ rfl hholds.serves
    hcutoff
  refine ⟨link, _, hholds.of_changedBy hchanged hserves, ?_⟩
  have hstarted : (if c.rotation.enabled then startRotation c.rotation.pollMillis runtime
    else .ok ()) = started c runtime := rfl
  simp only [launch, hconnect, hfound, hresume, hstarted]
  cases started c runtime with
  | ok u => exact ⟨rfl, rfl⟩
  | error err => exact ⟨rfl, rfl⟩

/-- An opening overflows if the hours that it would keep or the hour that it would take up
do. -/
theorem launch_overflow (runtime : Bool) (now : Hour) (h : Store.Ready d c.path place table)
    (ho : (∃ o, openingCutoff now (Config.limitHours c.days) = .error o) ∨
      ∃ o, resume now (table.record? now) = .error o) :
    ∃ o, (launch c runtime now d).result = .error (.overflow o) := by
  obtain ⟨link, d₁, hconnect, hholds⟩ := Store.connect_holds h
  cases hcutoff : openingCutoff now (Config.limitHours c.days) with
  | error o =>
    have hrecover := recover_error ⟨c.path, some link⟩ rfl hholds.serves hcutoff
    refine ⟨o, ?_⟩
    simp only [launch, hconnect, hrecover]
  | ok cutoff =>
    rw [hcutoff] at ho
    obtain ⟨o, ho⟩ := ho.resolve_left nofun
    obtain ⟨hfound, -, -⟩ := recover_eq ⟨c.path, some link⟩ rfl hholds.serves hcutoff
    refine ⟨o, ?_⟩
    simp only [launch, hconnect, hfound, ho]

theorem launch_cases (h : Store.Ready d c.path place table)
    (hok : ∀ o, (launch c runtime now d).result ≠ .error (.overflow o)) :
    ∃ cutoff live, openingCutoff now (Config.limitHours c.days) = .ok cutoff ∧
      resume now (table.record? now) = .ok live := by
  cases hcutoff : openingCutoff now (Config.limitHours c.days) with
  | error o =>
    obtain ⟨o, ho⟩ := launch_overflow runtime now h (.inl ⟨o, hcutoff⟩)
    exact absurd ho (hok o)
  | ok cutoff =>
    cases hresume : resume now (table.record? now) with
    | error o =>
      obtain ⟨o, ho⟩ := launch_overflow runtime now h (.inr ⟨o, hresume⟩)
      exact absurd ho (hok o)
    | ok live => exact ⟨cutoff, live, rfl, rfl⟩

/-- The hour that an opening takes up has names that fit. -/
theorem namesFit_resume (h : resume now (table.record? now) = .ok live) : live.NamesFit := by
  cases hr : table.record? now with
  | none =>
    rw [hr] at h
    cases h
    exact LiveHour.namesFit_start now
  | some r =>
    rw [hr] at h
    exact LiveHour.namesFit_ofRecord (Table.fits_of_record? hr) h

theorem hour_resume {r : Option HourRecord} (h : resume now r = .ok live) : live.hour = now := by
  cases r with
  | none =>
    cases h
    rfl
  | some r => exact LiveHour.hour_ofRecord h

/-- The present hour is taken up with the record that a query found for it. -/
theorem exists_resume (hnames : live.NamesFit)
    (hnow : live.hour = now ∨ table.record? now = none) :
    ∃ live', resume now ((table.store live.hour live.toRecord).record? now) = .ok live' ∧
      live'.hour = now ∧ live'.toRecord = recordAt live table now now := by
  have hfits := LiveHour.toRecord_fits hnames
  rw [Table.record?_store hfits]
  by_cases hlive : now = live.hour
  · obtain ⟨live', hresume, hrecord⟩ := LiveHour.ofRecord_toRecord now live
    refine ⟨live', ?_, LiveHour.hour_ofRecord hresume, ?_⟩
    · rw [if_pos hlive]
      exact hresume
    · rw [recordAt, Window.slotOf, if_pos hlive]
      exact hrecord
  · refine ⟨LiveHour.start now, ?_, rfl, ?_⟩
    · rw [if_neg hlive, hnow.resolve_left (Ne.symm hlive)]
      rfl
    · rw [recordAt, Window.slotOf, if_neg hlive, if_pos rfl, LiveHour.toRecord_start]

/-- What a query finds for an hour that an opening keeps is the same after it. -/
theorem recordAt_reopened (hnames : live.NamesFit) {live' : LiveHour} (hhour : live'.hour = now)
    (hrecord : live'.toRecord = recordAt live table now now) {cutoff hour : Hour}
    (hcutoff : cutoff ≤ hour) :
    recordAt live' ((table.store live.hour live.toRecord).purge cutoff) now hour =
      recordAt live table now hour := by
  have hstored : ((table.store live.hour live.toRecord).purge cutoff).record? hour =
      if hour = live.hour then some live.toRecord else table.record? hour := by
    rw [Table.record?_purge hcutoff, Table.record?_store (LiveHour.toRecord_fits hnames)]
  by_cases hnow : hour = now
  · subst hnow
    rw [← hrecord, recordAt, Window.slotOf, if_pos hhour.symm]
  · simp only [recordAt, Window.slotOf, Store.recordIn, hstored, hhour, if_neg hnow]
    by_cases hlive : hour = live.hour
    · rw [if_pos hlive, if_pos hlive]
      rfl
    · rw [if_neg hlive, if_neg hlive]

/-- **A restart is invisible to queries.** On a store with a healthy database, at a clock whose
hour is live or has no record: where a query gives a report, the engine closes, another one
opens on the same database, and its query gives the same report. -/
theorem query_after_reopen (hstore : e.store.Holds d place table) (hlive : e.live = some live)
    (hnames : live.NamesFit) (hnow : live.hour = now ∨ table.record? now = none)
    (hpath : c.path = e.store.name) (hlimit : Config.limitHours c.days = e.limit)
    (hstarted : started c runtime = .ok ()) {cutoff : Hour}
    (hcutoff : openingCutoff now e.limit = .ok cutoff) {g : Granularity} {r : Report}
    (hquery : (e.query g now d).result = .ok r) :
    (e.close d).result = .ok () ∧
      ∃ e', (launch c runtime now (e.close d).disk).result = .ok e' ∧
        (e'.query g now (launch c runtime now (e.close d).disk).disk).result = .ok r := by
  obtain ⟨link, hs, hholds⟩ := hstore
  rw [query_eq_ok_iff hlive hs hholds.serves] at hquery
  obtain ⟨first, hfirst, -, hreport⟩ := reportFor_eq_ok_iff.mp hquery
  obtain ⟨hclose, -, hready⟩ := close_eq hlive hs hholds
  obtain ⟨live', hresume, hhour, hrecord⟩ := exists_resume hnames hnow
  rw [← hpath] at hready
  rw [← hlimit] at hcutoff
  obtain ⟨link', d', hholds', hdisk, hresult⟩ := launch_eq runtime hready hcutoff hresume
  rw [hstarted] at hdisk hresult
  refine ⟨hclose, _, hresult, ?_⟩
  rw [hdisk, query_eq_ok_iff rfl rfl hholds'.serves]
  rw [← hlimit] at hfirst hreport
  refine reportFor_eq_ok_iff.mpr ⟨first, hfirst, ?_, ?_⟩
  · rw [hhour]
    exact exists_minus_windowStart hfirst
  · rw [← hreport]
    refine congrArg (Report.ofWindow · g) (windowOf_congr (toInt_windowStart hfirst) ?_)
    intro hour hle _
    refine recordAt_reopened hnames hhour hrecord (Int64.le_trans ?_ hle)
    have hlow := toInt_openingCutoff hcutoff
    have hstart := toInt_windowStart hfirst
    exact Int64.le_iff_toInt_le.mpr (by omega)

def sampleDay : Engine := { sample with limit := 24 }

theorem hosts_sample : sampleDisk.Hosts "stats.db" ["stats.db"] where
  location := ⟨"stats.db", .create, by decide +kernel, by decide,
    toOption_eq_some_iff.mp (by decide +kernel)⟩
  beside _ suffix hs := by
    have hall : companions.all fun suffix =>
        decide ((sampleDisk.find ("stats.db" ++ suffix)).toOption =
          some (Path.withSuffix ["stats.db"] suffix)) := by decide +kernel
    exact toOption_eq_some_iff.mp (of_decide_eq_true (List.all_eq_true.mp hall suffix hs))
  named := by decide +kernel
  parents := by
    rw [show parentSteps "stats.db" = [] by decide +kernel]
    trivial
  reachable := by decide +kernel
  fits := by decide +kernel
  root := by decide
  free := by decide +kernel
  fresh _ _ := ⟨rfl, nofun⟩

theorem holds_sample : sampleDay.store.Holds sampleDisk ["stats.db"] sampleTable := by
  obtain ⟨link, hs, hserves⟩ := serves_sample
  obtain rfl := Option.some.inj hs
  exact ⟨_, rfl, hosts_sample, hserves, rfl, rfl, by decide⟩

def sampleDayReport : Report :=
  { sampleReport with
    queries := List.replicate 22 0 ++ [5, 1]
    filtered := List.replicate 23 0 ++ [1]
    safeBrowsing := List.replicate 24 0
    parental := List.replicate 24 0 }

theorem query_after_reopen_sample :
    (sampleDay.close sampleDisk).result = .ok () ∧
      ∃ e', (launch { path := "stats.db", rotation := { enabled := false } } false 1000
          (sampleDay.close sampleDisk).disk).result = .ok e' ∧
        (e'.query .hours 1000 (launch { path := "stats.db", rotation := { enabled := false } }
          false 1000 (sampleDay.close sampleDisk).disk).disk).result = .ok sampleDayReport :=
  query_after_reopen holds_sample rfl namesFit_sampleHour (.inl rfl) rfl rfl rfl
    (show openingCutoff 1000 24 = .ok 975 by rfl)
    (toOption_eq_some_iff.mp (by decide +kernel))

end QueryTally.Engine
