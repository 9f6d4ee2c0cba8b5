import QueryTally.Proofs.Session.Runs
import QueryTally.Proofs.Engine.Failing

/-! # Runs in which the store may fail

Between any two steps of such a run the disk may change in every way but one: no file gets a
row. So a database may refuse what it is asked, lose its table or stand in the way of a reset,
and any of that may end again. What is counted, stored and taken up along the run is all
backed by what the run has counted (`Backed`): no lookup gets into an hour twice. -/

namespace QueryTally

open QueryTally.Disk QueryTally.Hour

def Answer.report? : Answer → Option Report
  | .report r => some r
  | _ => none

namespace Session

/-- The steps of somebody who opens engines and uses them, and does nothing else to a file. -/
def Operates : Step → Prop
  | .setClock _ | .addClock _ | .launch _ _ _ | .query _ | .rotate | .configure _ | .info
  | .clear | .close | .drop | .debug | .awaitRotation | .spawn _ | .join | .runTask _ _ _ => True
  | .ingest events => ∀ p ∈ events, TextFits p.1.domain
  | _ => False

instance : (x : Step) → Decidable (Operates x)
  | .setClock _ | .addClock _ | .launch _ _ _ | .query _ | .rotate | .configure _ | .info
  | .clear | .close | .drop | .debug | .awaitRotation | .spawn _ | .join | .runTask _ _ _ =>
    isTrue trivial
  | .ingest events => inferInstanceAs (Decidable (∀ p ∈ events, TextFits p.1.domain))
  | .storeOpen _ | .storeClose | .storeReset | .storeInfo | .load _ _ | .transaction _ _ _
  | .writeFile _ _ | .makeDirectory _ | .remove _ | .fileExists _ | .putRow _ _ | .dump _
  | .dumpRaw _ | .sabotage _ _ => isFalse id

/-- The steps that do so on the engine that there is. -/
def Stays (x : Step) : Prop := Operates x ∧ ∀ file days poll, x ≠ .launch file days poll

/-- Whether the live hour has ever been taken up from a record, given whether the one before a
step had. An hour that is as it was begun has not. -/
def resumedAfter (s : Session) (again : Bool) (x : Step) : Bool :=
  if (s.step x).session.live? = some (LiveHour.start s.clock) then false
  else match x with
    | .launch _ _ _ => true
    | _ => again

/-- The sessions to which steps under a rule lead, with the acts of the steps and whether the
live hour has ever been taken up from a record, if between the steps the disk may change in such
a way that no file gets a row. -/
inductive Weathered (rule : Session → Step → Prop) (s₀ : Session) : List Act → Bool → Session → Prop
  | start : Weathered rule s₀ [] false s₀
  | step {acts : List Act} {again : Bool} {s : Session} {x : Step} {a : Answer}
      (h : Weathered rule s₀ acts again s) (hx : rule s x) (hok : (s.step x).answer = .ok a) :
      Weathered rule s₀ (acts ++ [s.act x]) (s.resumedAfter again x) (s.step x).session
  | disturbed {acts : List Act} {again : Bool} {s : Session} {d : Disk}
      (h : Weathered rule s₀ acts again s) (hd : s.disk.Unwritten d) :
      Weathered rule s₀ acts again { s with disk := d }

/-! ## What a run has counted -/

def Act.lookups : Act → List (Hour × Lookup)
  | .counted hour ks => ks.map (hour, ·)
  | _ => []

/-- The lookups that acts have counted, with their hours. -/
def counted (acts : List Act) : List (Hour × Lookup) := acts.flatMap Act.lookups

/-- The lookups that acts have counted in an hour. -/
def countedIn (acts : List Act) (hour : Hour) : List Lookup :=
  ((counted acts).filter (·.1 == hour)).map (·.2)

theorem countedIn_append (acts more : List Act) (hour : Hour) :
    countedIn (acts ++ more) hour = countedIn acts hour ++ countedIn more hour := by
  simp only [countedIn, counted, List.flatMap_append, List.filter_append, List.map_append]

theorem countedIn_singleton {a : Act} {hour : Hour} {ks : List Lookup}
    (h : a.lookups = ks.map (hour, ·)) : countedIn [a] hour = ks := by
  have hall : ∀ p ∈ ks.map (hour, ·), (p.1 == hour) = true := by
    intro p hp
    obtain ⟨l, -, rfl⟩ := List.mem_map.mp hp
    exact beq_self_eq_true hour
  simp only [countedIn, counted, List.flatMap_singleton, h, List.filter_eq_self.mpr hall,
    List.map_map]
  exact List.map_id ks

/-- An hour in which nothing was counted but what acts have counted in it, each lookup once at
most. It may have been taken up again only if `again` says so. -/
def Backed (again : Bool) (acts : List Act) (u : LiveHour) : Prop :=
  ∃ resumed ks, u.Arises resumed ks ∧ (resumed = true → again = true) ∧
    ks.Sublist (countedIn acts u.hour)

namespace Backed

variable {again : Bool} {acts : List Act} {u v : LiveHour}

theorem begun (again : Bool) (acts : List Act) (hour : Hour) :
    Backed again acts (LiveHour.start hour) :=
  ⟨false, [], .start hour, nofun, List.nil_sublist _⟩

theorem mono (h : Backed again acts u) (more : List Act) : Backed again (acts ++ more) u := by
  obtain ⟨resumed, ks, harises, hagain, hsub⟩ := h
  refine ⟨resumed, ks, harises, hagain, ?_⟩
  rw [countedIn_append]
  exact hsub.trans (List.sublist_append_left _ _)

theorem weaken (h : Backed again acts u) : Backed true acts u := by
  obtain ⟨resumed, ks, harises, -, hsub⟩ := h
  exact ⟨resumed, ks, harises, fun _ => rfl, hsub⟩

theorem counted (h : Backed again acts u) {ks : List Lookup} (hks : ∀ l ∈ ks, l.Proper)
    (hv : u.recordAll ks = .ok v) {a : Act} (ha : a.lookups = ks.map (u.hour, ·)) :
    Backed again (acts ++ [a]) v := by
  obtain ⟨resumed, ls, harises, hagain, hsub⟩ := h
  refine ⟨resumed, ls ++ ks, harises.recordAll hks hv, hagain, ?_⟩
  rw [(LiveHour.adds_recordAll hv).hour, countedIn_append, countedIn_singleton ha]
  exact hsub.append_right ks

theorem resumed (h : Backed true acts u) (hv : LiveHour.ofRecord u.hour u.toRecord = .ok v) :
    Backed true acts v := by
  obtain ⟨resumed, ks, harises, -, hsub⟩ := h
  refine ⟨true, ks, harises.resumed hv, fun _ => rfl, ?_⟩
  rwa [LiveHour.hour_ofRecord hv]

theorem namesFit (h : Backed again acts u) : u.NamesFit := by
  obtain ⟨resumed, ks, harises, -⟩ := h
  exact harises.namesFit

end Backed

/-! ## Steps -/

variable {s s' : Session} {x : Step} {a : Answer} {acts : List Act} {ks : List Lookup}
variable {f : FileNumber} {r : Row}

/-- What a step on the engine can do that counts some lookups: the engine is gone, or it has
done something. -/
inductive Goes (s : Session) (ks : List Lookup) (s' : Session) : Prop
  | gone (hengine : s'.engine = none) (hd : s.disk.Unwritten s'.disk)
  | works {e e' : Engine} (hengine : s.engine = some e) (hengine' : s'.engine = some e')
      (h : e.Weathers s.clock ks s.disk e' s'.disk)

theorem Goes.refl (hengine : s'.engine = s.engine) (hd : s'.disk = s.disk) : s.Goes [] s' := by
  cases he : s.engine with
  | none => exact .gone (hengine.trans he) (hd ▸ .refl _)
  | some e => exact .works he (hengine.trans he) (hd ▸ .refl _ _ _)

theorem goes_withEngine {g : Engine → Outcome}
    (h : ∀ e, s.engine = some e → s.Goes ks (g e).session) : s.Goes ks (s.withEngine g).session := by
  unfold withEngine
  cases he : s.engine with
  | none => exact .gone he (.refl _)
  | some e => exact h e he

theorem unwritten_dropEngine (s : Session) : s.disk.Unwritten s.dropEngine.disk := by
  unfold dropEngine
  cases s.engine with
  | none => exact .refl _
  | some e => exact Store.unwritten_release e.store s.disk

theorem goes_runTask (withEngine : Bool) (policy : RotationPolicy) (signal : Signal) :
    s.Goes [] (s.runTask withEngine policy signal).session := by
  unfold runTask
  split
  · exact .refl rfl rfl
  · cases withEngine with
    | false => exact .refl rfl (Engine.run_gone policy signal s.clock s.disk)
    | true =>
      rename_i hsome
      cases he : s.engine with
      | none =>
        rw [he] at hsome
        exact absurd rfl hsome
      | some e =>
        obtain ⟨e', he', hw⟩ := Engine.run_weathers e policy signal s.clock s.disk
        exact .works he he' hw

/-- Counting events. -/
theorem ingest_goes {events : List (Event × Nat)} (hfit : ∀ p ∈ events, TextFits p.1.domain)
    (hok : (s.step (.ingest events)).answer = .ok a) :
    ∃ ks, (∀ l ∈ ks, l.Proper) ∧
      (∀ u, s.live? = some u → (s.act (.ingest events)).lookups = ks.map (u.hour, ·)) ∧
      s.Goes ks (s.step (.ingest events)).session := by
  cases hlive : s.live? with
  | none =>
    refine ⟨[], nofun, nofun, ?_⟩
    simp only [step]
    refine goes_withEngine fun e hengine => ?_
    have hall := Engine.ingestAll_closed ((live?_eq hengine).symm.trans hlive) events
    rw [Engine.ingestAll] at hall
    simp only [ingest, hall]
    exact .refl hengine.symm rfl
  | some u =>
    refine ⟨lookups events, proper_of_mem_lookups hfit, fun v hv => ?_, ?_⟩
    · obtain rfl := Option.some.inj hv
      simp only [act, hlive, Act.lookups]
    · cases hengine : s.engine with
      | none =>
        rw [live?, hengine] at hlive
        cases hlive
      | some e =>
        rw [live?_eq hengine] at hlive
        simp only [step, withEngine, hengine, ingest] at hok ⊢
        cases hall : e.ingestAll events with
        | error o =>
          rw [Engine.ingestAll] at hall
          rw [hall] at hok
          cases hok
        | ok e' =>
          obtain ⟨v, rfl, hv⟩ := Engine.ingestAll_eq hlive hall
          rw [Engine.ingestAll] at hall
          rw [hall]
          refine .works hengine rfl ⟨fun f r h => .inl h, fun w hw => ?_, .inl rfl⟩
          obtain rfl := Option.some.inj hw
          exact .inr ⟨u, hlive, hv⟩

/-- The other steps count nothing. -/
theorem lookups_act (hx : ∀ events, x ≠ .ingest events) : (s.act x).lookups = [] := by
  unfold act
  split
  · exact absurd rfl (hx _)
  · split
    · split <;> rfl
    · rfl
  · split <;> rfl
  · split <;> rfl
  · rfl
  · rfl

/-- **Steps on the engine.** -/
theorem step_goes (hx : Stays x) (hok : (s.step x).answer = .ok a) :
    ∃ ks, (∀ l ∈ ks, l.Proper) ∧
      (∀ u, s.live? = some u → (s.act x).lookups = ks.map (u.hour, ·)) ∧
      s.Goes ks (s.step x).session := by
  by_cases hingest : ∃ events, x = .ingest events
  · obtain ⟨events, rfl⟩ := hingest
    exact ingest_goes hx.1 hok
  · refine ⟨[], nofun, fun _ _ => lookups_act (not_exists.mp hingest), ?_⟩
    cases x with
    | ingest events => exact absurd ⟨events, rfl⟩ hingest
    | launch file days poll => exact absurd rfl (hx.2 file days poll)
    | setClock hour => exact .refl rfl rfl
    | addClock hours => exact .refl rfl rfl
    | query g =>
      refine goes_withEngine fun e hengine => .works hengine hengine ?_
      exact .kept _ rfl rfl (Engine.query_weathers e g s.clock s.disk).1
    | rotate =>
      exact goes_withEngine fun e hengine =>
        .works hengine rfl (Engine.rotate_weathers e s.clock s.disk)
    | configure days =>
      refine goes_withEngine fun e hengine => .works hengine rfl ?_
      obtain ⟨hlive, hstore⟩ := Engine.configure_keeps e days
      exact .kept _ hlive hstore (.refl _)
    | info => exact goes_withEngine fun e _ => .refl rfl rfl
    | clear =>
      exact goes_withEngine fun e hengine =>
        .works hengine rfl (Engine.clear_weathers e s.clock s.disk)
    | close =>
      exact goes_withEngine fun e hengine =>
        .works hengine rfl (Engine.close_weathers e s.clock s.disk)
    | drop => exact goes_withEngine fun e _ => .gone rfl (unwritten_dropEngine s)
    | debug => exact goes_withEngine fun e _ => .refl rfl rfl
    | awaitRotation =>
      refine goes_withEngine fun e hengine => ?_
      unfold awaitRotation
      split
      · obtain ⟨e', he', hw⟩ := Engine.look_weathers e s.clock s.disk
        exact .works hengine he' hw
      · exact .refl rfl rfl
    | spawn pollMillis =>
      refine goes_withEngine fun e _ => ?_
      unfold spawn
      split <;> exact .refl rfl rfl
    | join =>
      simp only [step, join]
      split <;> exact .refl rfl rfl
    | runTask withEngine policy signal => exact goes_runTask withEngine policy signal
    | _ => exact hx.1.elim

/-- **Opening an engine.** -/
theorem launch_goes (s : Session) (file : String) (days : UInt32) (poll : Option UInt64) :
    s.disk.Unwritten (s.step (.launch file days poll)).session.disk ∧
      ∀ v, (s.step (.launch file days poll)).session.live? = some v →
        v = LiveHour.start s.clock ∨ ∃ f bytes record,
          s.disk.HasRow f ⟨s.clock.cell, recordSlot, .blob bytes⟩ ∧
          Codec.decode bytes = .ok record ∧ LiveHour.ofRecord s.clock record = .ok v := by
  have hdrop := unwritten_dropEngine s
  have hgone : s.dropEngine.engine = none := rfl
  have hclock : s.dropEngine.clock = s.clock := rfl
  simp only [step, launch]
  generalize ({ path := s.dropEngine.fullName file, days
                rotation := ⟨poll.getD 1000, poll.isSome⟩ } : Config) = c
  obtain ⟨hdisk, hlive⟩ := Engine.launch_weathers c s.dropEngine.runtime s.clock s.dropEngine.disk
  rw [hclock]
  generalize Engine.launch c s.dropEngine.runtime s.clock s.dropEngine.disk = opening
    at hdisk hlive
  have hunwritten := hdrop.trans hdisk
  split
  · rename_i e he
    refine ⟨hunwritten, fun v hv => ?_⟩
    have hv : e.live = some v := hv
    rcases hlive e he with hstart | ⟨u, f, bytes, record, hu, hrow, hdecode, hresume⟩
    · exact .inl (Option.some.inj (hv.symm.trans hstart))
    · obtain rfl := Option.some.inj (hv.symm.trans hu)
      exact .inr ⟨f, bytes, record, hdrop f _ hrow, hdecode, hresume⟩
  · refine ⟨hunwritten, fun v hv => ?_⟩
    rw [live?] at hv
    cases hv
  · refine ⟨hunwritten, fun v hv => ?_⟩
    rw [live?] at hv
    cases hv

/-! ## Runs -/

variable {again : Bool} {s₀ : Session}

/-- The live hour after a step on the engine is begun, or backed if the one before was. -/
theorem Goes.live (h : s.Goes ks s') (hks : ∀ l ∈ ks, l.Proper)
    (ha : ∀ u, s.live? = some u → (s.act x).lookups = ks.map (u.hour, ·))
    (hlive : ∀ u, s.live? = some u → Backed again acts u) :
    ∀ v, s'.live? = some v →
      v = LiveHour.start s.clock ∨ Backed again (acts ++ [s.act x]) v := by
  intro v hv
  cases h with
  | gone hengine =>
    rw [live?, hengine] at hv
    cases hv
  | works hengine hengine' hw =>
    rw [live?_eq hengine'] at hv
    rcases hw.live v hv with rfl | ⟨u, hu, hcount⟩
    · exact .inl rfl
    · rw [← live?_eq hengine] at hu
      exact .inr ((hlive u hu).counted hks hcount (ha u hu))

/-- A row after a step on the engine was there before, or is that of the live hour. -/
theorem Goes.row (h : s.Goes ks s') (hr : s'.disk.HasRow f r) :
    s.disk.HasRow f r ∨ ∃ u, s.live? = some u ∧ r = u.row := by
  cases h with
  | gone _ hd => exact .inl (hd f r hr)
  | works hengine _ hw =>
    rcases hw.rows f r hr with hr | ⟨u, link, hlive, -, -, hr⟩
    · exact .inl hr
    · exact .inr ⟨u, (live?_eq hengine).trans hlive, hr⟩

theorem stays_or_launch (hx : Operates x) :
    Stays x ∨ ∃ file days poll, x = .launch file days poll := by
  by_cases hlaunch : ∃ file days poll, x = .launch file days poll
  · exact .inr hlaunch
  · exact .inl ⟨hx, fun file days poll e => hlaunch ⟨file, days, poll, e⟩⟩

theorem resumedAfter_of_stays (again : Bool) (hx : Stays x) :
    s.resumedAfter again x =
      if (s.step x).session.live? = some (LiveHour.start s.clock) then false else again := by
  unfold resumedAfter
  cases x with
  | launch file days poll => exact absurd rfl (hx.2 file days poll)
  | _ => rfl

/-- The live hour after a step on the engine is backed if the one before was. -/
theorem backed_of_stays (hx : Stays x) (hok : (s.step x).answer = .ok a)
    (hlive : ∀ u, s.live? = some u → Backed again acts u) :
    ∀ v, (s.step x).session.live? = some v →
      Backed (s.resumedAfter again x) (acts ++ [s.act x]) v := by
  intro v hv
  obtain ⟨ks, hks, ha, hgoes⟩ := step_goes hx hok
  rw [resumedAfter_of_stays again hx]
  split
  · rename_i hbegun
    obtain rfl := Option.some.inj (hbegun.symm.trans hv)
    exact .begun _ _ _
  · rename_i hnew
    rcases hgoes.live hks ha hlive v hv with rfl | hbacked
    · exact absurd hv hnew
    · exact hbacked

/-- A row after a step was there before, or is that of the live hour. -/
theorem row_of_step (hx : Operates x) (hok : (s.step x).answer = .ok a)
    (hr : (s.step x).session.disk.HasRow f r) :
    s.disk.HasRow f r ∨ ∃ u, s.live? = some u ∧ r = u.row := by
  rcases stays_or_launch hx with hstays | ⟨file, days, poll, rfl⟩
  · obtain ⟨ks, -, -, hgoes⟩ := step_goes hstays hok
    exact hgoes.row hr
  · exact .inl ((launch_goes s file days poll).1 f r hr)

/-- A session in which the live hour and every row of every file is backed by what was
counted. -/
structure Accounted (again : Bool) (acts : List Act) (s : Session) : Prop where
  live : ∀ u, s.live? = some u → Backed again acts u
  rows : ∀ f r, s.disk.HasRow f r → ∃ u, Backed true acts u ∧ r = u.row

/-- **One step.** -/
theorem Accounted.step (h : Accounted again acts s) (hx : Operates x)
    (hok : (s.step x).answer = .ok a) :
    Accounted (s.resumedAfter again x) (acts ++ [s.act x]) (s.step x).session := by
  have hrow : ∀ f r, s.disk.HasRow f r → ∃ u, Backed true (acts ++ [s.act x]) u ∧ r = u.row := by
    intro f r hr
    obtain ⟨u, hu, rfl⟩ := h.rows f r hr
    exact ⟨u, hu.mono _, rfl⟩
  refine ⟨fun v hv => ?_, fun f r hr => ?_⟩
  · rcases stays_or_launch hx with hstays | ⟨file, days, poll, rfl⟩
    · exact backed_of_stays hstays hok h.live v hv
    · unfold resumedAfter
      -- Only an opening takes an hour up. It does so from a row, and all rows are backed.
      rcases (launch_goes s file days poll).2 v hv with rfl | ⟨f, bytes, record, hr, hdecode, hresume⟩
      · exact .begun _ _ _
      · obtain ⟨u, hu, hr⟩ := hrow f _ hr
        obtain ⟨hhour, rfl⟩ := LiveHour.eq_of_row hu.namesFit hr hdecode
        split
        · rename_i hbegun
          obtain rfl := Option.some.inj (hbegun.symm.trans hv)
          exact .begun _ _ _
        · exact hu.resumed (hhour ▸ hresume)
  · rcases row_of_step hx hok hr with hr | ⟨u, hlive, rfl⟩
    · exact hrow f r hr
    · exact ⟨u, (h.live u hlive).weaken.mono _, rfl⟩

/-- **Runs.** From a session without an engine and without a row in any file. -/
theorem accounted_of_weathered (hengine : s₀.engine = none)
    (hempty : ∀ f r, ¬ s₀.disk.HasRow f r) (h : Weathered (fun _ => Operates) s₀ acts again s) :
    Accounted again acts s := by
  induction h with
  | start =>
    refine ⟨fun u hu => ?_, fun f r hr => absurd hr (hempty f r)⟩
    rw [live?, hengine] at hu
    cases hu
  | step h hx hok ih => exact ih.step hx hok
  | disturbed h hd ih => exact ⟨ih.live, fun f r hr => ih.rows f r (hd f r hr)⟩

/-! ## Reports -/

theorem query_of_report {g : Granularity} {report : Report}
    (h : (s.step (.query g)).answer = .ok (.report report)) :
    ∃ e, s.engine = some e ∧ (e.query g s.clock s.disk).result = .ok report := by
  simp only [step, withEngine] at h
  cases hengine : s.engine with
  | none =>
    rw [hengine] at h
    cases h
  | some e =>
    rw [hengine] at h
    refine ⟨e, rfl, ?_⟩
    dsimp only [query] at h
    cases hresult : (e.query g s.clock s.disk).result with
    | ok r =>
      rw [hresult] at h
      cases h
      rfl
    | error halt =>
      rw [hresult] at h
      cases halt with
      | overflow o => cases h
      | failure err => cases h

/-- An engine answers a query with a report, unless something overflows. -/
theorem exists_report {e : Engine} (hengine : s.engine = some e) {g : Granularity}
    (hok : (s.step (.query g)).answer.isOk = true) :
    ∃ report, (s.step (.query g)).answer = .ok (.report report) := by
  obtain ⟨stored, hresult, -⟩ := (Engine.query_weathers e g s.clock s.disk).2
  simp only [step, withEngine, hengine, query, hresult] at hok ⊢
  cases hreport : Engine.reportWith e.live stored e.limit g s.clock with
  | error o =>
    rw [hreport] at hok
    cases hok
  | ok report => exact ⟨report, rfl⟩

/-- **What a report is made of.** If the live hour and the rows of the file of the engine are
backed, so is the record of each hour of the window. -/
theorem report_backed (hlive : ∀ u, s.live? = some u → Backed again acts u)
    (hrows : ∀ e link, s.engine = some e → e.store.link = some link →
      ∀ r, s.disk.HasRow link.file r → ∃ u, Backed again acts u ∧ r = u.row)
    {g : Granularity} {report : Report}
    (h : (s.step (.query g)).answer = .ok (.report report)) :
    ∃ e first record, s.engine = some e ∧ s.clock.windowStart e.limit = .ok first ∧
      Report.ofWindow ⟨first, (span first e.limit.toNat).map record⟩ g = .ok report ∧
      ∀ hour, ∃ u, u.hour = hour ∧ Backed again acts u ∧ record hour = u.toRecord := by
  obtain ⟨e, hengine, hquery⟩ := query_of_report h
  obtain ⟨first, record, hfirst, hreport, hrecord⟩ :=
    Engine.report_of_units (B := Backed again acts) (fun _ => Backed.namesFit)
      (Backed.begun again acts) (fun u hu => hlive u ((live?_eq hengine).trans hu))
      (fun link hs => hrows e link hengine hs) hquery
  exact ⟨e, first, record, hengine, hfirst, hreport, hrecord⟩

theorem Accounted.report (h : Accounted again acts s) {g : Granularity} {report : Report}
    (hq : (s.step (.query g)).answer = .ok (.report report)) :
    ∃ e first record, s.engine = some e ∧ s.clock.windowStart e.limit = .ok first ∧
      Report.ofWindow ⟨first, (span first e.limit.toNat).map record⟩ g = .ok report ∧
      ∀ hour, ∃ u, u.hour = hour ∧ Backed true acts u ∧ record hour = u.toRecord :=
  report_backed (fun u hu => (h.live u hu).weaken) (fun _ link _ _ => h.rows link.file) hq

end Session
end QueryTally
