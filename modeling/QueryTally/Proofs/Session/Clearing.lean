import QueryTally.Proofs.Session.Failing
import QueryTally.Proofs.Store.Resetting

/-! # Nothing comes back after a clearing

A clearing begins the present hour and resets the store. If the reset succeeds, the engine goes
on with a file that has no row, and if it fails without a store; either way all that is stored
and reported from then on was counted since (`Walled`). -/

namespace QueryTally.Session

open QueryTally.Disk QueryTally.Hour

variable {s s₀ : Session} {x : Step} {a : Answer} {acts : List Act} {again : Bool} {e : Engine}

/-! ## Without a store -/

/-- A session in which no engine has a store that is open. -/
def Storeless (s : Session) : Prop := ∀ e, s.engine = some e → e.store.link = none

theorem storeless_withEngine {f : Engine → Outcome} (h : s.Storeless)
    (hf : ∀ e, s.engine = some e → e.store.link = none →
      (f e).session.disk = s.disk ∧ (f e).session.Storeless) :
    (s.withEngine f).session.disk = s.disk ∧ (s.withEngine f).session.Storeless := by
  unfold withEngine
  cases hengine : s.engine with
  | none => exact ⟨rfl, h⟩
  | some e => exact hf e hengine (h e hengine)

theorem storeless_of_engine {s' : Session} (hengine : s'.engine = some e)
    (hs : e.store.link = none) : s'.Storeless := by
  intro e' he'
  obtain rfl := Option.some.inj (hengine.symm.trans he')
  exact hs

theorem storeless_of_shut {s' : Session} (hengine : s'.engine = some e)
    (hshut : e.store.isOpen = false) : s'.Storeless :=
  storeless_of_engine hengine
    (Option.isNone_iff_eq_none.mp (Option.isSome_eq_false_iff.mp hshut))

theorem storeless_runTask (h : s.Storeless) (withEngine : Bool) (policy : RotationPolicy)
    (signal : Signal) :
    (s.runTask withEngine policy signal).session.disk = s.disk ∧
      (s.runTask withEngine policy signal).session.Storeless := by
  unfold runTask
  split
  · exact ⟨rfl, h⟩
  · rename_i hsome
    cases withEngine with
    | false => exact ⟨Engine.run_gone policy signal s.clock s.disk, h⟩
    | true =>
      cases hengine : s.engine with
      | none =>
        rw [hengine] at hsome
        exact absurd rfl hsome
      | some e =>
        obtain ⟨e', he', hs', hdisk⟩ :=
          Engine.run_shut (h e hengine) policy signal s.clock s.disk
        exact ⟨hdisk, storeless_of_engine he' hs'⟩

/-- **Steps without a store.** -/
theorem storeless_step (h : s.Storeless) (hx : Stays x) (hclear : x ≠ .clear) :
    (s.step x).session.disk = s.disk ∧ (s.step x).session.Storeless := by
  cases x with
  | clear => exact absurd rfl hclear
  | launch file days poll => exact absurd rfl (hx.2 file days poll)
  | setClock hour => exact ⟨rfl, h⟩
  | addClock hours => exact ⟨rfl, h⟩
  | ingest events =>
    refine storeless_withEngine h fun e hengine hs => ?_
    unfold ingest
    split
    · rename_i e' hall
      exact ⟨rfl, storeless_of_engine rfl (by rw [Engine.ingestAll_store hall, hs])⟩
    · exact ⟨rfl, h⟩
  | query g =>
    refine storeless_withEngine h fun e hengine hs => ⟨?_, storeless_of_engine hengine hs⟩
    exact (Engine.query_shut hs g s.clock s.disk).1
  | rotate =>
    refine storeless_withEngine h fun e hengine hs => ?_
    obtain ⟨hdisk, hstore, -⟩ := Engine.rotate_shut hs s.clock s.disk
    exact ⟨hdisk, storeless_of_engine rfl (by rw [hstore, hs])⟩
  | configure days =>
    refine storeless_withEngine h fun e hengine hs => ?_
    obtain ⟨-, hstore⟩ := Engine.configure_keeps e days
    exact ⟨rfl, storeless_of_engine rfl (hstore.symm ▸ hs)⟩
  | info => exact storeless_withEngine h fun e _ _ => ⟨rfl, h⟩
  | close =>
    refine storeless_withEngine h fun e hengine hs => ?_
    obtain ⟨hdisk, hstore⟩ := Engine.close_shut hs s.disk
    exact ⟨hdisk, storeless_of_engine rfl hstore⟩
  | drop =>
    refine storeless_withEngine h fun e hengine hs => ⟨?_, nofun⟩
    simp only [reply, dropEngine, hengine, Store.release, hs]
  | debug => exact storeless_withEngine h fun e _ _ => ⟨rfl, h⟩
  | awaitRotation =>
    refine storeless_withEngine h fun e hengine hs => ?_
    unfold awaitRotation
    split
    · obtain ⟨e', he', hs', hdisk⟩ := Engine.look_shut hs s.clock s.disk
      exact ⟨hdisk, storeless_of_engine he' hs'⟩
    · exact ⟨rfl, h⟩
  | spawn pollMillis =>
    refine storeless_withEngine h fun e _ _ => ?_
    unfold spawn
    split <;> exact ⟨rfl, h⟩
  | join =>
    simp only [step, join]
    split <;> exact ⟨rfl, h⟩
  | runTask withEngine policy signal => exact storeless_runTask h withEngine policy signal
  | _ => exact hx.1.elim

/-- **Clearing.** -/
theorem clear_session (hengine : s.engine = some e) (hopen : e.isClosed = false) :
    ∃ e', (s.step .clear).session.engine = some e' ∧
      (s.step .clear).answer = .ok (.info e'.info) ∧
      e'.live = some (LiveHour.start s.clock) ∧ ∃ notices, e.store.reset s.disk =
        ((e.store.reset s.disk).1, e'.store, (s.step .clear).session.disk, notices) := by
  obtain ⟨hresult, hdisk, hturned⟩ := Engine.clear_eq hopen s.clock s.disk
  simp only [step, withEngine, hengine, clear, afterTurn, hresult, hdisk, hturned]
  exact ⟨_, rfl, rfl, rfl, _, rfl⟩

/-- A clearing that fails leaves no store open. -/
theorem storeless_clear (h : s.Storeless)
    (hfails : ∀ e, s.engine = some e → (e.store.reset s.disk).1.isOk = false) :
    (s.step .clear).session.Storeless := by
  cases hengine : s.engine with
  | none =>
    simp only [step, withEngine, hengine]
    exact h
  | some e =>
    cases hopen : e.isClosed with
    | true =>
      simp only [step, withEngine, hengine, clear, Engine.clear, hopen, if_true, afterTurn]
      exact storeless_of_engine rfl (h e hengine)
    | false =>
      obtain ⟨e', hengine', -, -, notices, hreset⟩ := clear_session hengine hopen
      exact storeless_of_shut hengine' ((Store.isOpen_reset hreset).trans (hfails e hengine))

/-- The steps on the engine, but for a clearing that succeeds. -/
def Lacks (s : Session) (x : Step) : Prop :=
  Stays x ∧ (x = .clear → ∀ e, s.engine = some e → (e.store.reset s.disk).1.isOk = false)

theorem storeless_of_weathered (h₀ : s₀.Storeless) (h : Weathered Lacks s₀ acts again s) :
    s.Storeless := by
  induction h with
  | start => exact h₀
  | @step acts again s x a h hx hok ih =>
    by_cases hclear : x = .clear
    · obtain rfl := hclear
      exact storeless_clear ih (hx.2 rfl)
    · exact (storeless_step ih hx.1 hclear).2
  | disturbed h hd ih => exact ih

/-- A session whose engine does without a store: what it is asked does not touch the disk, a
rotation begins the present hour, and a query is answered from the live hour alone. -/
structure Unaided (s : Session) : Prop where
  storeless : s.Storeless
  disk : ∀ x, Stays x → x ≠ .clear → (s.step x).session.disk = s.disk
  rotate : ∀ e u, s.engine = some e → e.live = some u →
    (s.step .rotate).answer = .ok (.rotated (decide (u.hour ≠ s.clock)) (some s.clock))
  query : ∀ e g, s.engine = some e → (s.step (.query g)).answer =
    (Engine.reportWith e.live (fun _ => .empty) e.limit g s.clock).map .report

theorem unaided_of_storeless (h : s.Storeless) : s.Unaided where
  storeless := h
  disk x hx hclear := (storeless_step h hx hclear).1
  rotate e u hengine hlive := by
    obtain ⟨hresult, hhour⟩ := (Engine.rotate_shut (h e hengine) s.clock s.disk).2.2 u hlive
    simp only [step, withEngine, hengine, afterTurn, hresult, hhour]
    rfl
  query e g hengine := by
    have hresult := (Engine.query_shut (h e hengine) g s.clock s.disk).2
    simp only [step, withEngine, hengine, query, hresult]
    cases Engine.reportWith e.live (fun _ => .empty) e.limit g s.clock with
    | error o => rfl
    | ok r => rfl

/-! ## What was counted since -/

/-- A session in which the live hour, and every row of the file of the engine, is backed by what
acts have counted, and was never taken up from a record. -/
structure Walled (acts : List Act) (s : Session) : Prop where
  name : ∀ e, s.engine = some e → Location.Plain e.store.name
  live : ∀ u, s.live? = some u → Backed false acts u
  rows : ∀ e link, s.engine = some e → e.store.link = some link →
    ∀ r, s.disk.HasRow link.file r → ∃ u, Backed false acts u ∧ r = u.row

theorem walled_clear (hengine : s.engine = some e) (hopen : e.isClosed = false)
    (hname : Location.Plain e.store.name) : Walled [] (s.step .clear).session := by
  obtain ⟨e', hengine', -, hlive, notices, hreset⟩ := clear_session hengine hopen
  refine ⟨fun e₁ h₁ => ?_, fun u hu => ?_, fun e₁ link h₁ hs r hr => ?_⟩
  · obtain rfl := Option.some.inj (hengine'.symm.trans h₁)
    rw [(Store.unwritten_reset hreset).2]
    exact hname
  · rw [live?_eq hengine', hlive] at hu
    obtain rfl := Option.some.inj hu
    exact .begun _ _ _
  · obtain rfl := Option.some.inj (hengine'.symm.trans h₁)
    exact absurd hr (Store.not_hasRow_reset hname hreset hs r)

/-- **One step.** -/
theorem Walled.step (h : Walled acts s) (hx : Stays x) (hok : (s.step x).answer = .ok a) :
    Walled (acts ++ [s.act x]) (s.step x).session := by
  have hlive : ∀ u, (s.step x).session.live? = some u → Backed false (acts ++ [s.act x]) u := by
    have hbacked := backed_of_stays hx hok h.live
    rwa [resumedAfter_of_stays false hx, ite_self] at hbacked
  obtain ⟨ks, -, -, hgoes⟩ := step_goes hx hok
  cases hgoes with
  | gone hengine =>
    refine ⟨fun e he => ?_, hlive, fun e link he => ?_⟩
    · cases hengine.symm.trans he
    · cases hengine.symm.trans he
  | @works e e' hengine hengine' hw =>
    refine ⟨fun e₁ h₁ => ?_, hlive, fun e₁ link h₁ hs r hr => ?_⟩
    · obtain rfl := Option.some.inj (hengine'.symm.trans h₁)
      have hname := h.name e hengine
      rcases hw.store with hstore | hstore | ⟨result, notices, hreset⟩
      · rwa [hstore]
      · rwa [hstore]
      · rwa [(Store.unwritten_reset hreset).2]
    · obtain rfl := Option.some.inj (hengine'.symm.trans h₁)
      -- A connection that is not the old one is from a reset, and its file has no row at all, so
      -- it does not matter what is left on the rest of the disk.
      rcases hw.store with hstore | hstore | ⟨result, notices, hreset⟩
      · rw [hstore] at hs
        rcases hw.rows link.file r hr with hr | ⟨u, link', hu, hs', -, rfl⟩
        · obtain ⟨u, hu, rfl⟩ := h.rows e link hengine hs r hr
          exact ⟨u, hu.mono _, rfl⟩
        · exact ⟨u, (h.live u ((live?_eq hengine).trans hu)).mono _, rfl⟩
      · rw [hstore] at hs
        cases hs
      · exact absurd hr (Store.not_hasRow_reset (h.name e hengine) hreset hs r)

theorem walled_of_weathered (h₀ : Walled [] s₀) (h : Weathered (fun _ => Stays) s₀ acts again s) :
    Walled acts s := by
  induction h with
  | start => exact h₀
  | step h hx hok ih => exact ih.step hx hok
  | disturbed h hd ih =>
    exact ⟨ih.name, ih.live, fun e link he hs r hr => ih.rows e link he hs r (hd _ r hr)⟩

/-- A report each of whose hours has the record of an hour that was begun with nothing in it,
and in which were counted some of the lookups that acts have counted in it. -/
def Accounts (acts : List Act) (s : Session) (g : Granularity) (report : Report) : Prop :=
  ∃ e first record, s.engine = some e ∧ s.clock.windowStart e.limit = .ok first ∧
    Report.ofWindow ⟨first, (span first e.limit.toNat).map record⟩ g = .ok report ∧
    ∀ hour, ∃ ks u, ks.Sublist (countedIn acts hour) ∧
      (LiveHour.start hour).recordAll ks = .ok u ∧ record hour = u.toRecord

theorem Walled.accounts (h : Walled acts s) {g : Granularity} {report : Report}
    (hq : (s.step (.query g)).answer = .ok (.report report)) : Accounts acts s g report := by
  obtain ⟨e, first, record, hengine, hfirst, hreport, hrecord⟩ := report_backed h.live h.rows hq
  refine ⟨e, first, record, hengine, hfirst, hreport, fun hour => ?_⟩
  obtain ⟨u, rfl, ⟨resumed, ks, harises, hagain, hsub⟩, hr⟩ := hrecord hour
  have hnever : resumed = false := by
    cases resumed with
    | false => rfl
    | true => exact absurd (hagain rfl) Bool.false_ne_true
  exact ⟨ks, u, hsub, harises.eq_recordAll hnever, hr⟩

/-- If nothing was counted there is nothing to report. -/
theorem Accounts.blank {g : Granularity} {report : Report} (h : Accounts acts s g report)
    (hnone : counted acts = []) : report.Blank := by
  obtain ⟨e, first, record, -, -, hreport, hrecord⟩ := h
  refine Report.blank_ofWindow hreport fun r hr => ?_
  obtain ⟨hour, -, rfl⟩ := List.mem_map.mp hr
  obtain ⟨ks, u, hsub, hu, hr⟩ := hrecord hour
  rw [countedIn, hnone] at hsub
  obtain rfl := List.sublist_nil.mp hsub
  cases hu
  rw [hr, LiveHour.toRecord_start]

/-- **Clearing is a barrier.** Whatever a reset meets on the disk, a clearing begins the present
hour, and leaves the store open exactly if the reset succeeds. If the database takes the name of
the store for the path that it is, then at any point of a run after that, in which the engine is
used and cleared again and the disk may fail between the steps, a report accounts for nothing
but what was counted since. If the reset fails, the engine does without a store until a clearing
succeeds. -/
theorem clear_bars (hengine : s.engine = some e) (hopen : e.isClosed = false)
    (hname : Location.Plain e.store.name) :
    ∃ e', (s.step .clear).session.engine = some e' ∧
      (s.step .clear).answer = .ok (.info e'.info) ∧
      e'.live = some (LiveHour.start s.clock) ∧
      e'.store.isOpen = (e.store.reset s.disk).1.isOk ∧
      (∀ acts again s', Weathered (fun _ => Stays) (s.step .clear).session acts again s' →
        ∀ g report, (s'.step (.query g)).answer = .ok (.report report) →
          Accounts acts s' g report ∧ (counted acts = [] → report.Blank)) ∧
      ((e.store.reset s.disk).1.isOk = false →
        ∀ acts again s', Weathered Lacks (s.step .clear).session acts again s' → s'.Unaided) := by
  obtain ⟨e', hengine', hanswer, hlive, notices, hreset⟩ := clear_session hengine hopen
  have hshut := Store.isOpen_reset hreset
  refine ⟨e', hengine', hanswer, hlive, hshut, fun acts again s' h g report hq => ?_,
    fun hfails acts again s' h => ?_⟩
  · have hwalled := walled_of_weathered (walled_clear hengine hopen hname) h
    have haccounts := hwalled.accounts hq
    exact ⟨haccounts, haccounts.blank⟩
  · have hstoreless := storeless_of_shut hengine' (hshut.trans hfails)
    exact unaided_of_storeless (storeless_of_weathered hstoreless h)

/-- An hour is stored, and a directory stands where the log of the database would. -/
def barredSample : Session :=
  let steps := [.launch "stats.db" 1 none, .ingest sampleEvents, .setClock 1001, .rotate,
    .makeDirectory "stats.db-wal"]
  steps.foldl (fun s x => (s.step x).session) sampleStart

theorem open_barred : ∃ e, barredSample.engine = some e ∧ e.isClosed = false ∧
    Location.Plain e.store.name ∧ (e.store.reset barredSample.disk).1.isOk = false := by
  obtain ⟨e, hengine, he⟩ := (Option.any_eq_true _ _).mp (by decide +kernel :
    (barredSample.engine.any fun e => !e.isClosed && (e.store.name == "w/stats.db" &&
      !(e.store.reset barredSample.disk).1.isOk)) = true)
  obtain ⟨hopen, he⟩ := Bool.and_eq_true_iff.mp he
  obtain ⟨hname, hfails⟩ := Bool.and_eq_true_iff.mp he
  have hplain : Location.Plain "w/stats.db" := by
    intro file access h
    have hpath : Location.ofName? "w/stats.db" = some (.file "w/stats.db" .create) := by
      decide +kernel
    obtain ⟨rfl, -⟩ := Location.file.inj (Option.some.inj (hpath.symm.trans h))
    exact ⟨rfl, by decide +kernel⟩
  have hname : e.store.name = "w/stats.db" := eq_of_beq hname
  refine ⟨e, hengine, (Bool.not_eq_true' _).mp hopen, ?_, (Bool.not_eq_true' _).mp hfails⟩
  rwa [hname]

def recountedSample : Session :=
  ((barredSample.step .clear).session.step (.ingest sampleEvents)).session

theorem weathered_recounted : ∃ acts again,
    Weathered (fun _ => Stays) (barredSample.step .clear).session acts again recountedSample ∧
      counted acts = (lookups sampleEvents).map (1001, ·) := by
  have hstays : Stays (.ingest sampleEvents) := ⟨by decide +kernel, nofun⟩
  obtain ⟨a, hok⟩ := exists_eq_ok_of_isOk (by decide +kernel :
    ((barredSample.step .clear).session.step (.ingest sampleEvents)).answer.isOk = true)
  exact ⟨_, _, .step .start hstays hok, by decide +kernel⟩

/-- The reset fails, so the three lookups that were stored before are still in the file. A query
shows nothing at first, and then the three that are counted after the clearing. -/
theorem clear_bars_sample : ∃ e r r' acts, (barredSample.step .clear).session.engine = some e ∧
    e.live = some (LiveHour.start 1001) ∧ e.store.isOpen = false ∧
    (barredSample.step .clear).session.Unaided ∧
    ((barredSample.step .clear).session.step (.query .hours)).answer = .ok (.report r) ∧
    r.Blank ∧
    (recountedSample.step (.query .hours)).answer = .ok (.report r') ∧
    Accounts acts recountedSample .hours r' ∧
    counted acts = (lookups sampleEvents).map (1001, ·) ∧ r'.totalQueries = 3 := by
  obtain ⟨e, hengine, hopen, hname, hfails⟩ := open_barred
  obtain ⟨e', hengine', -, hlive, hshut, hreports, hunaided⟩ := clear_bars hengine hopen hname
  obtain ⟨r, hr⟩ := exists_report hengine' (by decide +kernel :
    ((barredSample.step .clear).session.step (.query .hours)).answer.isOk = true)
  have hclock : barredSample.clock = 1001 := by decide +kernel
  obtain ⟨acts, again, hrun, hcounted⟩ := weathered_recounted
  obtain ⟨_, hengine''⟩ := Option.isSome_iff_exists.mp
    (by decide +kernel : recountedSample.engine.isSome = true)
  obtain ⟨r', hr'⟩ := exists_report hengine''
    (by decide +kernel : (recountedSample.step (.query .hours)).answer.isOk = true)
  have htotal : (recountedSample.step (.query .hours)).answer.toOption.bind
      (fun a => a.report?.map (·.totalQueries)) = some 3 := by decide +kernel
  rw [hr'] at htotal
  exact ⟨e', r, r', acts, hengine', hclock ▸ hlive, hshut.trans hfails,
    hunaided hfails [] false _ .start, hr, (hreports [] false _ .start .hours r hr).2 rfl, hr',
    (hreports acts again _ hrun .hours r' hr').1, hcounted, Option.some.inj htotal⟩

/-- An hour is stored in a file whose name leads down into a directory and up again, and the
directory is removed. -/
def strayedSample : Session :=
  let steps := [.launch "m/../x.db" 1 none, .ingest sampleEvents, .setClock 1001, .rotate,
    .remove "m"]
  steps.foldl (fun s x => (s.step x).session) sampleStart

/-- The file is not found, so it is not removed, but the database finds it again: a query shows
three lookups though none was counted since the clearing. -/
theorem clear_strays : strayedSample.live?.isSome = true ∧
    ∃ r, ((strayedSample.step .clear).session.step (.query .hours)).answer = .ok (.report r) ∧
      r.totalQueries = 3 ∧ ¬ r.Blank := by
  obtain ⟨e, hengine⟩ := Option.isSome_iff_exists.mp
    (by decide +kernel : (strayedSample.step .clear).session.engine.isSome = true)
  obtain ⟨r, hr⟩ := exists_report hengine (by decide +kernel :
    ((strayedSample.step .clear).session.step (.query .hours)).answer.isOk = true)
  have htotal : ((strayedSample.step .clear).session.step (.query .hours)).answer.toOption.bind
      (fun a => a.report?.map (·.totalQueries)) = some 3 := by decide +kernel
  rw [hr] at htotal
  have htotal : r.totalQueries = 3 := Option.some.inj htotal
  refine ⟨by decide +kernel, r, hr, htotal, fun hblank => ?_⟩
  exact absurd (htotal.symm.trans hblank.totals.1) (by decide)

end QueryTally.Session
