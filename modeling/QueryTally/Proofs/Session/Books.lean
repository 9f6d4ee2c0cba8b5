import QueryTally.Session
import QueryTally.Proofs.Engine.Counting
import QueryTally.Proofs.Engine.Reopening

/-! # The books of a session

What matters of a session with a healthy database is its live hour and its table: its books.
A step does to them what its act says (`Session.act`), and the acts are few. `step_turns` says
so once for each step that a user of the engine takes, so that nothing that is proved of runs
looks at a disk again. -/

namespace QueryTally.Session

open QueryTally.Disk

/-- What a step does to the hours that are counted and stored. -/
inductive Act where
  | none
  | counted (hour : Hour) (lookups : List Lookup)
  /-- An hour was stored, the hours before a floor purged, and the present hour begun. -/
  | rotated (hour : Hour) (floor : Int)
  | cleared
  | closed (hour : Hour)
  /-- The hours before a floor were purged, and the present hour taken up or begun. -/
  | opened (floor : Int)
  deriving DecidableEq

/-- The hour that is being counted, if an engine is open. -/
def live? (s : Session) : Option LiveHour := s.engine.bind (·.live)

def act (s : Session) : Step → Act
  | .ingest events => match s.live? with
    | some u => .counted u.hour (lookups events)
    | none => .none
  | .rotate => match s.engine, s.live? with
    | some e, some u =>
      if u.hour = s.clock then .none
      else .rotated u.hour (s.clock.toInt - e.limit.toNat + 1)
    | _, _ => .none
  | .clear => if s.live?.isSome then .cleared else .none
  | .close => match s.live? with
    | some u => .closed u.hour
    | none => .none
  | .launch _ days _ => .opened (s.clock.toInt - (Config.limitHours days).toNat - 1)
  | _ => .none

/-- The steps of somebody who opens one engine after the other on a file, closes each before
the next, and does nothing else to the file. -/
def Admits (s : Session) (file : String) : Step → Prop
  | .setClock _ | .addClock _ | .query _ | .rotate | .configure _ | .info | .clear | .close => True
  | .ingest events => ∀ p ∈ events, TextFits p.1.domain
  | .launch name _ _ => name = file ∧ s.live? = none
  | _ => False

instance (s : Session) (file : String) : (x : Step) → Decidable (s.Admits file x)
  | .setClock _ | .addClock _ | .query _ | .rotate | .configure _ | .info | .clear | .close =>
    isTrue trivial
  | .ingest events => inferInstanceAs (Decidable (∀ p ∈ events, TextFits p.1.domain))
  | .launch name _ _ =>
    decidable_of_iff (name = file ∧ s.live?.isNone = true)
      (and_congr_right fun _ => Option.isNone_iff_eq_none)
  | .drop | .debug | .awaitRotation | .spawn _ | .join | .runTask _ _ _ | .storeOpen _
  | .storeClose | .storeReset | .storeInfo | .load _ _ | .transaction _ _ _ | .writeFile _ _
  | .makeDirectory _ | .remove _ | .fileExists _ | .putRow _ _ | .dump _ | .dumpRaw _
  | .sabotage _ _ => isFalse id

instance (x : Step) : Decidable (x = .clear) :=
  decidable_of_iff ((x matches .clear) = true) (by cases x <;> simp)

/-- A live hour and a table. -/
structure Books where
  live : Option LiveHour
  table : Table

/-- What an act does to the books. -/
inductive Turns (now : Hour) : Act → Books → Books → Prop
  | none (b : Books) : Turns now .none b b
  | counted {u v : LiveHour} {ks : List Lookup} {t : Table} (h : LiveHour.Adds u ks v) :
      Turns now (.counted u.hour ks) ⟨some u, t⟩ ⟨some v, t⟩
  | rotated {u : LiveHour} {t : Table} {cutoff : Hour} (hne : u.hour ≠ now)
      (hnames : u.NamesFit) :
      Turns now (.rotated u.hour cutoff.toInt) ⟨some u, t⟩
        ⟨some (LiveHour.start now), Engine.rotated u cutoff t⟩
  | cleared {u : LiveHour} {t : Table} :
      Turns now .cleared ⟨some u, t⟩ ⟨some (LiveHour.start now), Table.empty⟩
  | closed {u : LiveHour} {t : Table} (hnames : u.NamesFit) :
      Turns now (.closed u.hour) ⟨some u, t⟩ ⟨none, t.store u.hour u.toRecord⟩
  | opened {u : LiveHour} {t : Table} {cutoff : Hour} (hle : cutoff ≤ now)
      (hresume : Engine.resume now (t.record? now) = .ok u) :
      Turns now (.opened cutoff.toInt) ⟨none, t⟩ ⟨some u, t.purge cutoff⟩
  | refused {t : Table} {cutoff : Hour} :
      Turns now (.opened cutoff.toInt) ⟨none, t⟩ ⟨none, t.purge cutoff⟩

/-- A session whose books these are: its engine is open on a healthy database, or there is
none that is open and the database is ready for one. -/
inductive Stands (s : Session) (name : String) (place : Path) : Books → Prop
  | active {e : Engine} {u : LiveHour} {t : Table} (hengine : s.engine = some e)
      (hlive : e.live = some u) (hname : e.store.name = name)
      (hstore : e.store.Holds s.disk place t) (hnames : u.NamesFit) :
      Stands s name place ⟨some u, t⟩
  | idle {t : Table} (hengine : ∀ e, s.engine = some e → e.live = none ∧ e.store.link = none)
      (hready : Store.Ready s.disk name place t) : Stands s name place ⟨none, t⟩

variable {s : Session} {name file : String} {place : Path} {b : Books} {e : Engine}
variable {a : Answer}

theorem live?_eq (hengine : s.engine = some e) : s.live? = e.live := by
  rw [live?, hengine]
  rfl

theorem Stands.live_eq (h : s.Stands name place b) : s.live? = b.live := by
  cases h with
  | active hengine hlive => exact (live?_eq hengine).trans hlive
  | idle hengine =>
    cases hs : s.engine with
    | none => rw [live?, hs]; rfl
    | some e => exact (live?_eq hs).trans (hengine e hs).1

/-- Only a clearing clears. -/
theorem eq_clear_of_act {x : Step} (h : s.act x = .cleared) : x = .clear := by
  cases x with
  | clear => rfl
  | ingest events =>
    simp only [act] at h
    split at h <;> cases h
  | rotate =>
    simp only [act] at h
    split at h
    · split at h <;> cases h
    · cases h
  | close =>
    simp only [act] at h
    split at h <;> cases h
  | _ => cases h

/-- The books do not depend on the clock and the tasks. -/
theorem Stands.congr {s' : Session} (h : s.Stands name place b) (he : s'.engine = s.engine)
    (hd : s'.disk = s.disk) : s'.Stands name place b := by
  cases h with
  | active hengine hlive hname hstore hnames =>
    exact .active (he.trans hengine) hlive hname (hd ▸ hstore) hnames
  | idle hengine hready => exact .idle (by rwa [he]) (hd ▸ hready)

/-- A query leaves the books as they are. -/
theorem query_stands (h : s.Stands name place b) (g : Granularity) :
    (s.step (.query g)).session.Stands name place b := by
  cases h with
  | @active e u t hengine hlive hname hstore hnames =>
    obtain ⟨link, hs, hholds⟩ := hstore
    obtain ⟨hserves, hchanged⟩ := Engine.query_serves hs hholds.serves g s.clock
    simp only [step, withEngine, hengine]
    exact .active hengine hlive hname ⟨link, hs, hholds.of_changedBy hchanged hserves⟩ hnames
  | idle hengine hready =>
    simp only [step, withEngine]
    cases hs : s.engine with
    | none => exact .idle hengine hready
    | some e =>
      obtain ⟨-, hlink⟩ := hengine e hs
      exact Stands.congr (s := s) (.idle hengine hready) rfl (Engine.query_closed hlink)

theorem configure_stands (h : s.Stands name place b) (days : Int32) :
    (s.step (.configure days)).session.Stands name place b := by
  cases h with
  | @active e u t hengine hlive hname hstore hnames =>
    obtain ⟨hlive', hstore'⟩ := e.configure_keeps days
    simp only [step, withEngine, hengine]
    refine .active rfl (hlive'.trans hlive) ?_ ?_ hnames
    · rw [hstore', hname]
    · rw [hstore']
      exact hstore
  | idle hengine hready =>
    simp only [step, withEngine]
    cases hs : s.engine with
    | none => exact .idle hengine hready
    | some e =>
      obtain ⟨hlive', hstore'⟩ := e.configure_keeps days
      refine .idle (fun e' he' => ?_) hready
      obtain rfl := Option.some.inj he'
      rw [hlive', hstore']
      exact hengine e hs

theorem ingest_turns (h : s.Stands name place b) {events : List (Event × Nat)}
    (hevents : ∀ p ∈ events, TextFits p.1.domain)
    (hok : (s.step (.ingest events)).answer = .ok a) :
    ∃ b', (s.step (.ingest events)).session.Stands name place b' ∧
      Turns s.clock (s.act (.ingest events)) b b' := by
  have hlive? := h.live_eq
  cases h with
  | @active e u t hengine hlive hname hstore hnames =>
    have hact : s.act (.ingest events) = .counted u.hour (lookups events) := by
      simp only [act, hlive?]
    simp only [step, withEngine, hengine, ingest] at hok ⊢
    cases hall : e.ingestAll events with
    | error o =>
      rw [Engine.ingestAll] at hall
      rw [hall] at hok
      cases hok
    | ok e' =>
      obtain ⟨v, rfl, hrecord⟩ := Engine.ingestAll_eq hlive hall
      have hadds := LiveHour.adds_recordAll hrecord
      rw [Engine.ingestAll] at hall
      rw [hall, hact]
      have hfit := hadds.namesFit (textFits_of_mem_lookups hevents) hnames
      exact ⟨⟨some v, t⟩, .active rfl rfl hname hstore hfit, .counted hadds⟩
  | @idle t hengine hready =>
    have hact : s.act (.ingest events) = .none := by simp only [act, hlive?]
    rw [hact]
    refine ⟨⟨none, t⟩, ?_, .none _⟩
    simp only [step, withEngine]
    cases hs : s.engine with
    | none => exact .idle hengine hready
    | some e =>
      have hall := Engine.ingestAll_closed (hengine e hs).1 events
      rw [Engine.ingestAll] at hall
      simp only [ingest]
      rw [hall]
      exact Stands.congr (s := s) (.idle hengine hready) hs.symm rfl

theorem rotate_turns (h : s.Stands name place b) (hok : (s.step .rotate).answer = .ok a) :
    ∃ b', (s.step .rotate).session.Stands name place b' ∧ Turns s.clock (s.act .rotate) b b' := by
  have hlive? := h.live_eq
  cases h with
  | @active e u t hengine hlive hname hstore hnames =>
    simp only [step, withEngine, hengine, afterTurn, act, hlive?] at hok ⊢
    by_cases hne : u.hour = s.clock
    · rw [if_pos hne, Engine.rotate_same hlive hne]
      exact ⟨_, .active rfl hlive hname hstore hnames, .none _⟩
    · rw [if_neg hne]
      obtain ⟨link, hs, hholds⟩ := hstore
      cases hcutoff : s.clock.windowStart e.limit with
      | error o =>
        rw [Engine.rotate_overflow hlive hs hholds.serves hne hcutoff] at hok
        cases hok
      | ok cutoff =>
        obtain ⟨-, hengine', hserves, hchanged⟩ := Engine.rotate_eq hlive hs hholds.serves hne
          hcutoff
        refine ⟨⟨some (LiveHour.start s.clock), Engine.rotated u cutoff t⟩, ?_, ?_⟩
        · rw [hengine']
          exact .active rfl rfl hname ⟨link, hs, hholds.of_changedBy hchanged hserves⟩
            (LiveHour.namesFit_start _)
        · rw [← Hour.toInt_windowStart hcutoff]
          exact .rotated hne hnames
  | @idle t hengine hready =>
    refine ⟨⟨none, t⟩, ?_, ?_⟩
    · simp only [step, withEngine]
      cases hs : s.engine with
      | none => exact .idle hengine hready
      | some e =>
        have hlive := (hengine e hs).1
        simp only [afterTurn, Engine.rotate, hlive]
        exact Stands.congr (s := s) (.idle hengine hready) hs.symm rfl
    · have hact : s.act .rotate = .none := by
        simp only [act, hlive?]
        cases s.engine <;> rfl
      rw [hact]
      exact .none _

/-- Clearing an open engine needs a name that is a path: only then is what it removes what it
opens again. -/
theorem clear_turns (h : s.Stands name place b)
    (hpath : s.act .clear = .cleared → Location.ofName? name = some (.file name .create)) :
    ∃ b', (s.step .clear).session.Stands name place b' ∧ Turns s.clock (s.act .clear) b b' := by
  have hlive? := h.live_eq
  cases h with
  | @active e u t hengine hlive hname hstore hnames =>
    have hact : s.act .clear = .cleared := by simp only [act, hlive?, Option.isSome_some, if_true]
    obtain ⟨link, hs, hholds⟩ := hstore
    subst hname
    obtain ⟨link', d', hreset, hholds'⟩ := Store.reset_holds hs hholds (hpath hact)
    have hopen : e.isClosed = false := by rw [Engine.isClosed, hlive]; rfl
    rw [hact]
    simp only [step, withEngine, hengine, clear, afterTurn, Engine.clear, hopen,
      Bool.false_eq_true, if_false, hreset]
    exact ⟨_, .active rfl rfl rfl ⟨link', rfl, hholds'⟩ (LiveHour.namesFit_start _), .cleared⟩
  | @idle t hengine hready =>
    refine ⟨⟨none, t⟩, ?_, ?_⟩
    · simp only [step, withEngine]
      cases hs : s.engine with
      | none => exact .idle hengine hready
      | some e =>
        have hclosed : e.isClosed = true := by rw [Engine.isClosed, (hengine e hs).1]; rfl
        simp only [clear, afterTurn, Engine.clear, hclosed, if_true]
        exact Stands.congr (s := s) (.idle hengine hready) hs.symm rfl
    · simp only [act, hlive?]
      exact .none _

theorem close_turns (h : s.Stands name place b) :
    ∃ b', (s.step .close).session.Stands name place b' ∧ Turns s.clock (s.act .close) b b' := by
  have hlive? := h.live_eq
  cases h with
  | @active e u t hengine hlive hname hstore hnames =>
    obtain ⟨link, hs, hholds⟩ := hstore
    obtain ⟨-, hengine', hready⟩ := Engine.close_eq hlive hs hholds
    have hact : s.act .close = .closed u.hour := by simp only [act, hlive?]
    rw [hact]
    refine ⟨⟨none, t.store u.hour u.toRecord⟩, ?_, .closed hnames⟩
    simp only [step, withEngine, hengine, afterTurn, endTasks]
    refine .idle (fun e' he' => ?_) (hname ▸ hready)
    obtain rfl := Option.some.inj he'
    rw [hengine']
    exact ⟨rfl, rfl⟩
  | @idle t hengine hready =>
    refine ⟨⟨none, t⟩, ?_, ?_⟩
    · simp only [step, withEngine]
      cases hs : s.engine with
      | none => exact .idle hengine hready
      | some e =>
        obtain ⟨hlive, hlink⟩ := hengine e hs
        simp only [afterTurn, endTasks, Engine.close, Engine.flushLast, hlive, Store.close,
          Store.release, hlink]
        refine .idle (fun e' he' => ?_) hready
        obtain rfl := Option.some.inj he'
        exact ⟨rfl, rfl⟩
    · have hact : s.act .close = .none := by simp only [act, hlive?]
      rw [hact]
      exact .none _

theorem dropEngine_eq (h : ∀ e, s.engine = some e → e.store.link = none) :
    s.dropEngine = { s.endTasks with engine := none } := by
  unfold dropEngine
  cases hs : s.engine with
  | none => rfl
  | some e =>
    simp only [Store.release, h e hs]
    rfl

theorem launch_turns (h : s.Stands name place b) (hfile : s.fullName file = name)
    (hclosed : s.live? = none) {days : UInt32} {pollMillis : Option UInt64}
    (hok : (s.step (.launch file days pollMillis)).answer = .ok a) :
    ∃ b', (s.step (.launch file days pollMillis)).session.Stands name place b' ∧
      Turns s.clock (s.act (.launch file days pollMillis)) b b' := by
  have hlive? := h.live_eq
  cases h with
  | active hengine hlive =>
    rw [hlive?] at hclosed
    cases hclosed
  | @idle t hengine hready =>
    have hdrop := dropEngine_eq fun e he => (hengine e he).2
    have hpath : s.dropEngine.fullName file = name := by rw [hdrop]; exact hfile
    have hdisk : s.dropEngine.disk = s.disk := by rw [hdrop]; rfl
    have hclock : s.dropEngine.clock = s.clock := by rw [hdrop]; rfl
    have hnone : s.dropEngine.engine = none := by rw [hdrop]
    change (s.launch file days pollMillis).answer = _ at hok
    change ∃ b', (s.launch file days pollMillis).session.Stands name place b' ∧ _
    simp only [launch, hpath, hdisk, hclock] at hok ⊢
    generalize s.dropEngine.runtime = runtime at hok ⊢
    generalize hc : ({ path := name, days, rotation := ⟨pollMillis.getD 1000, pollMillis.isSome⟩ } :
      Config) = c at hok ⊢
    have hcpath : c.path = name := by rw [← hc]
    have hcdays : c.days = days := by rw [← hc]
    have hoverflow : ∀ o, (Engine.launch c runtime s.clock s.disk).result ≠
        .error (.overflow o) := by
      intro o ho
      rw [ho] at hok
      cases hok
    rw [← hcpath] at hready
    obtain ⟨cutoff, live, hcutoff, hresume⟩ := Engine.launch_cases hready hoverflow
    obtain ⟨link, d', hholds, hd, hresult⟩ := Engine.launch_eq runtime hready hcutoff hresume
    have hfloor : cutoff.toInt = s.clock.toInt - (Config.limitHours days).toNat - 1 := by
      rw [← hcdays]
      exact Engine.toInt_openingCutoff hcutoff
    have hact : s.act (.launch file days pollMillis) = .opened cutoff.toInt :=
      congrArg Act.opened hfloor.symm
    rw [hact]
    -- The store has been purged by the time that the task is refused.
    cases hstarted : Engine.started c runtime with
    | ok _ =>
      rw [hstarted] at hd hresult
      rw [hresult, hd]
      refine ⟨⟨some live, t.purge cutoff⟩, ?_, .opened (Engine.openingCutoff_le hcutoff) hresume⟩
      exact .active rfl rfl hcpath ⟨link, rfl, hholds⟩ (Engine.namesFit_resume hresume)
    | error err =>
      rw [hstarted] at hd hresult
      rw [hresult, hd]
      refine ⟨⟨none, t.purge cutoff⟩, ?_, .refused⟩
      refine .idle (fun e he => ?_) ?_
      · cases hnone.symm.trans he
      · rw [← hcpath]
        exact Store.ready_of_hosts hholds.release.1 hholds.release.2

/-- **What steps do to the books.** A step that is taken without an overflow leaves the
database healthy and does to the books what its act says, if the name is a path whenever the
step clears. -/
theorem step_turns (h : s.Stands name place b) (hfile : s.fullName file = name) {x : Step}
    (hx : s.Admits file x)
    (hpath : s.act x = .cleared → Location.ofName? name = some (.file name .create))
    (hok : (s.step x).answer = .ok a) :
    ∃ b', (s.step x).session.Stands name place b' ∧ Turns s.clock (s.act x) b b' := by
  cases x with
  | setClock hour => exact ⟨b, h.congr rfl rfl, .none b⟩
  | addClock hours => exact ⟨b, h.congr rfl rfl, .none b⟩
  | query g => exact ⟨b, query_stands h g, .none b⟩
  | configure days => exact ⟨b, configure_stands h days, .none b⟩
  | info =>
    refine ⟨b, ?_, .none b⟩
    simp only [step, withEngine]
    split <;> exact h
  | ingest events => exact ingest_turns h hx hok
  | rotate => exact rotate_turns h hok
  | clear => exact clear_turns h hpath
  | close => exact close_turns h
  | launch name days pollMillis =>
    obtain ⟨rfl, hclosed⟩ := hx
    exact launch_turns h hfile hclosed hok
  | _ => exact hx.elim

end QueryTally.Session
