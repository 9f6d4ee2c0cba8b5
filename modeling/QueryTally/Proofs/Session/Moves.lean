import QueryTally.Proofs.Session.Failing

/-! # The books under every use of an engine

An engine may also be dropped instead of closed, be replaced by another while it is open, and be
rotated by its task, in which an overflow ends nothing. On a healthy database these steps do to
the books what acts do, or they lose the live hour (`Moves`). -/

namespace QueryTally

open QueryTally.Disk

/-- A rotation that overflows stores nothing. The live hour is given up all the same. -/
theorem Engine.rotate_error {e : Engine} {d : Disk} {link : Link} {table : Table} {live : LiveHour}
    {now : Hour} (hlive : e.live = some live) (hs : e.store.link = some link)
    (h : d.Serves link table) (hne : live.hour ≠ now) {o : Overflow}
    (hcutoff : now.windowStart e.limit = .error o) :
    (e.rotate now d).engine = { e with live := some (LiveHour.start now) } ∧
      (e.rotate now d).disk.Serves link table ∧ ChangedBy link d (e.rotate now d).disk := by
  obtain ⟨t, ht, hsees, hw⟩ := Store.begin_writing hs h
  obtain ⟨t₁, ht₁, hsees₁, hw₁⟩ := hsees.put hw live.hour live.toRecord
  -- The put goes with the transaction: what is durable is what was there when it began.
  obtain ⟨-, -, hdatabase⟩ := hsees₁.rollback
  have hdurable : t₁.durable = d.seen link := hdatabase
  have htable : t₁.durable.table = some table := hdurable ▸ h.healthy.table
  have hformatted : t₁.durable.formatted = true := hdurable ▸ h.healthy.formatted
  have hsettle : ∀ ending : Transaction.Ending, ending.transaction.writable = true →
      ending.database.table = some table → ending.database.formatted = true →
      (e.store.settle (d.look link) ending).Serves link table ∧
        ChangedBy link (d.look link) (e.store.settle (d.look link) ending) :=
    fun ending hw htable hformatted => Store.settle_writing hs h.look hw htable hformatted
  simp only [rotate, hlive, hne, if_false, ht, flush, ht₁, hcutoff]
  obtain ⟨hserves, hchanged⟩ := hsettle { t₁.drop with
    notices := Notice.flushing live.hour :: flushNotices live.hour (.ok ()) ++ t₁.drop.notices }
    hw₁ htable hformatted
  exact ⟨trivial, hserves, (ChangedBy.look link d).trans hchanged⟩

namespace Session

variable {s : Session} {name file : String} {place : Path} {b b' : Books} {e : Engine}
variable {a : Answer} {x : Step}

/-- What a step of somebody who uses engines can do to the books. -/
inductive Moves (now : Hour) : Books → Books → Prop
  | turned {act : Act} {b b' : Books} (h : Turns now act b b') : Moves now b b'
  | lost (live : Option LiveHour) (t : Table) : Moves now ⟨live, t⟩ ⟨none, t⟩
  /-- The live hour was given up for the present one, and not stored. -/
  | begun (u : LiveHour) (t : Table) : Moves now ⟨some u, t⟩ ⟨some (LiveHour.start now), t⟩
  | trans {b b' b'' : Books} (h : Moves now b b') (k : Moves now b' b'') : Moves now b b''

/-- The steps of somebody who uses engines on one file and does nothing else to it. -/
def Uses (file : String) (x : Step) : Prop :=
  Operates x ∧ ∀ name days pollMillis, x = .launch name days pollMillis → name = file

def launched? : Step → Option String
  | .launch name _ _ => some name
  | _ => none

instance (file : String) (x : Step) : Decidable (Uses file x) :=
  decidable_of_iff (Operates x ∧ (launched? x).all (· == file) = true) <|
    and_congr_right fun _ => by
      cases x with
      | launch name days pollMillis => simp [launched?]
      | _ => simp [launched?]

theorem base_operates (hx : Operates x) : (s.step x).session.base = s.base := by
  have hadmitted : s.Admits "" x → (s.step x).session.base = s.base := base_step
  cases x with
  | drop => exact base_withEngine fun e => rfl
  | debug => exact base_withEngine fun e => rfl
  | awaitRotation =>
    refine base_withEngine fun e => ?_
    unfold awaitRotation
    split <;> rfl
  | spawn pollMillis =>
    refine base_withEngine fun e => ?_
    unfold spawn
    split <;> rfl
  | join =>
    simp only [step, join]
    split <;> rfl
  | runTask withEngine policy signal =>
    simp only [step, runTask]
    split <;> rfl
  | launch name days pollMillis =>
    simp only [step, launch]
    split <;> rfl
  | ingest events => exact hadmitted hx
  | setClock hour => rfl
  | addClock hours => rfl
  | query g => exact hadmitted trivial
  | rotate => exact hadmitted trivial
  | configure days => exact hadmitted trivial
  | info => exact hadmitted trivial
  | clear => exact hadmitted trivial
  | close => exact hadmitted trivial
  | _ => exact hx.elim

/-- Dropping an engine leaves the database as it is. -/
theorem dropEngine_stands (h : s.Stands name place b) :
    s.dropEngine.Stands name place ⟨none, b.table⟩ := by
  cases h with
  | @active e u t hengine hlive hname hstore hnames =>
    obtain ⟨link, hs, hholds⟩ := hstore
    simp only [dropEngine, hengine]
    exact .idle nofun (hname ▸ Store.release_ready hs hholds)
  | @idle t hengine hready =>
    rw [dropEngine_eq fun e he => (hengine e he).2]
    exact .idle nofun hready

/-- The rotation task looks at the clock. -/
theorem look_moves (h : s.Stands name place b) (hengine : s.engine = some e) :
    ∃ b', ({ s with
        engine := (RotationTask.look (some e) s.clock s.disk).engine
        disk := (RotationTask.look (some e) s.clock s.disk).disk } : Session).Stands name place b' ∧
      Moves s.clock b b' := by
  cases h with
  | @active e' u t hengine' hlive hname hstore hnames =>
    obtain rfl := Option.some.inj (hengine.symm.trans hengine')
    have hopen : e.isClosed = false := by rw [Engine.isClosed, hlive]; rfl
    simp only [RotationTask.look, hopen, Bool.false_eq_true, if_false]
    by_cases hne : u.hour = s.clock
    · rw [Engine.rotate_same hlive hne]
      exact ⟨_, .active rfl hlive hname hstore hnames, .turned (.none _)⟩
    · obtain ⟨link, hs, hholds⟩ := hstore
      have hstart := LiveHour.namesFit_start s.clock
      cases hcutoff : s.clock.windowStart e.limit with
      | ok cutoff =>
        obtain ⟨-, hrotated, hserves, hchanged⟩ := Engine.rotate_eq hlive hs hholds.serves hne
          hcutoff
        rw [hrotated]
        have hstore' := hholds.of_changedBy hchanged hserves
        exact ⟨_, .active rfl rfl hname ⟨link, hs, hstore'⟩ hstart, .turned (.rotated hne hnames)⟩
      | error o =>
        obtain ⟨hrotated, hserves, hchanged⟩ := Engine.rotate_error hlive hs hholds.serves hne
          hcutoff
        rw [hrotated]
        have hstore' := hholds.of_changedBy hchanged hserves
        exact ⟨_, .active rfl rfl hname ⟨link, hs, hstore'⟩ hstart, .begun u t⟩
  | @idle t hnone hready =>
    have hclosed : e.isClosed = true := by rw [Engine.isClosed, (hnone e hengine).1]; rfl
    simp only [RotationTask.look, hclosed, if_true]
    exact ⟨_, Stands.congr (s := s) (.idle hnone hready) hengine.symm rfl, .turned (.none _)⟩

theorem runTask_moves (h : s.Stands name place b) (withEngine : Bool) (policy : RotationPolicy)
    (signal : Signal) :
    ∃ b', (s.step (.runTask withEngine policy signal)).session.Stands name place b' ∧
      Moves s.clock b b' := by
  simp only [step, runTask]
  split
  · exact ⟨b, h, .turned (.none b)⟩
  · cases withEngine with
    | false =>
      exact ⟨b, h.congr rfl (Engine.run_gone policy signal s.clock s.disk), .turned (.none b)⟩
    | true =>
      rename_i hsome
      cases hengine : s.engine with
      | none =>
        rw [hengine] at hsome
        exact absurd rfl hsome
      | some e =>
        rcases Engine.run_or_look policy signal (some e) s.clock s.disk with
          ⟨hsame, hdisk⟩ | ⟨hlook, hdisk⟩
        · exact ⟨b, h.congr (hsame.trans hengine.symm) hdisk, .turned (.none b)⟩
        · obtain ⟨b', hstands, hmoves⟩ := look_moves h hengine
          exact ⟨b', hstands.congr hlook hdisk, hmoves⟩

/-- An engine that is opened takes the place of the one there is. -/
theorem launch_moves (h : s.Stands name place b) (hfile : s.fullName file = name)
    {days : UInt32} {pollMillis : Option UInt64}
    (hok : (s.step (.launch file days pollMillis)).answer = .ok a) :
    ∃ b', (s.step (.launch file days pollMillis)).session.Stands name place b' ∧
      Moves s.clock b b' := by
  have htwice : s.dropEngine.dropEngine = s.dropEngine := by
    rw [dropEngine_eq (s := s.dropEngine) nofun]
    cases hspawned : s.spawned <;> simp [dropEngine, endTasks, hspawned]
  have hlaunch : s.step (.launch file days pollMillis) =
      s.dropEngine.step (.launch file days pollMillis) := by
    simp only [step, launch, htwice]
  rw [hlaunch] at hok ⊢
  obtain ⟨b', hstands, hturns⟩ := launch_turns (dropEngine_stands h) hfile rfl hok
  exact ⟨b', hstands, .trans (.lost b.live b.table) (.turned hturns)⟩

/-- An open engine can reset its store. -/
def Resets (s : Session) : Prop :=
  ∀ e, s.engine = some e → e.isClosed = false → (e.store.reset s.disk).1.isOk = true

instance (s : Session) : Decidable s.Resets :=
  decidable_of_iff
    ((s.engine.all fun e => e.isClosed || (e.store.reset s.disk).1.isOk) = true) <| by
    cases hengine : s.engine with
    | none => simp [Resets, hengine]
    | some e => cases he : e.isClosed <;> simp [Resets, hengine, he]

/-- A clearing that does not fail clears the books, or begins the present hour beside the table
that there was. -/
theorem clear_moves (h : s.Stands name place b) (hresets : s.Resets) :
    ∃ b', (s.step .clear).session.Stands name place b' ∧ Moves s.clock b b' := by
  cases h with
  | @active e u t hengine hlive hname hstore hnames =>
    obtain ⟨link, hs, hholds⟩ := hstore
    subst hname
    have hopen : e.isClosed = false := by rw [Engine.isClosed, hlive]; rfl
    obtain ⟨link', d', new, hreset, hholds', hnew⟩ :=
      Store.reset_holds_or hs hholds (hresets e hengine hopen)
    simp only [step, withEngine, hengine, clear, afterTurn, Engine.clear, hopen,
      Bool.false_eq_true, if_false, hreset]
    refine ⟨⟨some (LiveHour.start s.clock), new⟩,
      .active rfl rfl rfl ⟨link', rfl, hholds'⟩ (LiveHour.namesFit_start _), ?_⟩
    rcases hnew with rfl | rfl
    · exact .turned .cleared
    · exact .begun u new
  | @idle t hnone hready =>
    have hidle : s.act .clear ≠ .cleared := by
      have hlive? := (Stands.idle hnone hready).live_eq
      simp only [act, hlive?, Option.isSome_none, Bool.false_eq_true, if_false, ne_eq, reduceCtorEq,
        not_false_eq_true]
    obtain ⟨b', hstands, hturns⟩ := clear_turns (.idle hnone hready) fun hact => absurd hact hidle
    exact ⟨b', hstands, .turned hturns⟩

theorem moves_withEngine {f : Engine → Outcome} (h : s.Stands name place b)
    (hf : ∀ e, s.engine = some e →
      ∃ b', (f e).session.Stands name place b' ∧ Moves s.clock b b') :
    ∃ b', (s.withEngine f).session.Stands name place b' ∧ Moves s.clock b b' := by
  unfold withEngine
  cases hengine : s.engine with
  | none => exact ⟨b, h, .turned (.none b)⟩
  | some e => exact hf e hengine

/-- **What every use does to the books.** A clearing must not fail, and does not if the name is a
path. -/
theorem step_moves (h : s.Stands name place b) (hfile : s.fullName file = name) (hx : Uses file x)
    (hclear : x = .clear → Location.ofName? name = some (.file name .create) ∨ s.Resets)
    (hok : (s.step x).answer = .ok a) :
    ∃ b', (s.step x).session.Stands name place b' ∧ Moves s.clock b b' := by
  have hturned : s.Admits file x →
      (s.act x = .cleared → Location.ofName? name = some (.file name .create)) →
        ∃ b', (s.step x).session.Stands name place b' ∧ Moves s.clock b b' := by
    intro hadmits hpath
    obtain ⟨b', hstands, hturns⟩ := step_turns h hfile hadmits hpath hok
    exact ⟨b', hstands, .turned hturns⟩
  have hadmitted : s.Admits file x → x ≠ .clear →
      ∃ b', (s.step x).session.Stands name place b' ∧ Moves s.clock b b' :=
    fun hadmits hne => hturned hadmits fun hact => absurd (eq_clear_of_act hact) hne
  have hsame : ∀ {s' : Session}, s'.engine = s.engine → s'.disk = s.disk →
      ∃ b', s'.Stands name place b' ∧ Moves s.clock b b' :=
    fun hengine hdisk => ⟨b, h.congr hengine hdisk, .turned (.none b)⟩
  cases x with
  | setClock hour => exact hadmitted trivial nofun
  | addClock hours => exact hadmitted trivial nofun
  | query g => exact hadmitted trivial nofun
  | rotate => exact hadmitted trivial nofun
  | configure days => exact hadmitted trivial nofun
  | info => exact hadmitted trivial nofun
  | close => exact hadmitted trivial nofun
  | ingest events => exact hadmitted hx.1 nofun
  | clear =>
    rcases hclear rfl with hpath | hresets
    · exact hturned trivial fun _ => hpath
    · exact clear_moves h hresets
  | launch name days pollMillis =>
    obtain rfl := hx.2 name days pollMillis rfl
    exact launch_moves h hfile hok
  | drop =>
    exact moves_withEngine h fun e _ => ⟨_, dropEngine_stands h, .lost b.live b.table⟩
  | debug => exact moves_withEngine h fun e _ => hsame rfl rfl
  | awaitRotation =>
    refine moves_withEngine h fun e hengine => ?_
    unfold awaitRotation
    split
    · exact look_moves h hengine
    · exact hsame rfl rfl
  | spawn pollMillis =>
    refine moves_withEngine h fun e _ => ?_
    unfold spawn
    split <;> exact hsame rfl rfl
  | join =>
    simp only [step, join]
    split <;> exact hsame rfl rfl
  | runTask withEngine policy signal => exact runTask_moves h withEngine policy signal
  | _ => exact hx.1.elim

end Session
end QueryTally
