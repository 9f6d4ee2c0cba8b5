import QueryTally.Proofs.Engine.Failing
import QueryTally.Proofs.Engine.Intervals
import QueryTally.Session

/-! # What a step makes of an engine

A step puts an engine in the place of the one there was, or it leaves it alone, or it has it do
one of its operations (`Session.Becomes`). So what an opening brings about and every operation
keeps holds of every engine of a session. -/

namespace QueryTally

/-- The number of days that an engine is to retain from a step on, if the step says so: an opening
does, and so does a configuration with a number that is accepted. -/
def Step.interval? : Step → Option UInt32
  | .launch _ days _ => some days
  | .configure days =>
    if Engine.Accepts days then some (UInt32.ofNat days.toInt.toNat) else none
  | _ => none

/-- **An engine that was opened** counts, and retains the days of its configuration. -/
theorem Engine.eq_of_launch {c : Config} {runtime : Bool} {now : Hour} {d : Disk} {e : Engine}
    (h : (Engine.launch c runtime now d).result = .ok e) :
    ∃ store live, e = { limit := Config.limitHours c.days, store, live := some live } := by
  unfold Engine.launch at h
  split at h
  · cases h
  · dsimp only at h
    split at h
    · cases h
    · split at h
      · cases h
      · split at h
        · cases h
        · cases h
          exact ⟨_, _, rfl⟩

namespace Session

variable {s : Session} {e e' : Engine} {x : Step} {now : Hour} {d : Disk} {told : Option UInt32}

/-! ## Steps that leave the engine alone -/

theorem engine_withStore {f : Store → Outcome} (hf : ∀ st, (f st).session.engine = s.engine) :
    (s.withStore f).session.engine = s.engine := by
  unfold withStore
  split
  · rfl
  · exact hf _

theorem engine_withDatabase {file : String} {f : Session → Link → Database → Outcome}
    (hf : ∀ s link db, (f s link db).session.engine = s.engine) :
    (s.withDatabase file f).session.engine = s.engine := by
  unfold withDatabase
  split
  · rfl
  · split
    · dsimp only
      split
      · rfl
      · exact hf _ _ _
    · rfl

theorem engine_withTable {file : String} {f : Session → Link → Database → Table → Outcome}
    (hf : ∀ s link db table, (f s link db table).session.engine = s.engine) :
    (s.withTable file f).session.engine = s.engine := by
  refine engine_withDatabase fun s link db => ?_
  split
  · rfl
  · exact hf s link db _

theorem engine_storeOpen (s : Session) (file : String) :
    (s.storeOpen file).session.engine = s.engine := by
  unfold storeOpen
  rfl

theorem engine_afterChange (s : Session) (change : Except StoreError Unit × Disk) :
    (s.afterChange change).session.engine = s.engine := rfl

/-- Putting a row past the store and making a database refuse things leave the engine alone. -/
theorem engine_outside (s : Session) (file : String) :
    (∀ row, (s.putRow file row).session.engine = s.engine) ∧
      ∀ what, (s.sabotage file what).session.engine = s.engine := by
  constructor
  · intro row
    refine engine_withTable fun s link db table => ?_
    split <;> rfl
  · intro what
    refine engine_withDatabase fun s link db => ?_
    split
    · rfl
    · split
      · rfl
      · split <;> rfl

/-! ## Steps of the engine -/

/-- What an engine becomes in a step, given the interval that it is told. -/
inductive Becomes (now : Hour) (d : Disk) : Option UInt32 → Engine → Engine → Prop
  | same (e : Engine) : Becomes now d none e e
  | counted {e e' : Engine} {events : List (Event × Nat)} (h : e.ingestAll events = .ok e') :
      Becomes now d none e e'
  | rotated (e : Engine) : Becomes now d none e (e.rotate now d).engine
  | cleared (e : Engine) : Becomes now d none e (e.clear now d).engine
  | closed (e : Engine) : Becomes now d none e (e.close d).engine
  | configured (e : Engine) (days : Int32) :
      Becomes now d (Step.configure days).interval? e (e.configure days).1

/-- The rotation task looks at the clock. -/
theorem becomes_look (h : (RotationTask.look (some e) now d).engine = some e') :
    Becomes now d none e e' := by
  unfold RotationTask.look at h
  dsimp only at h
  split at h
  · cases h
    exact .same e
  · cases h
    exact .rotated e

theorem becomes_run {policy : RotationPolicy} {signal : Signal}
    (h : (RotationTask.run policy signal (some e) now d).engine = some e') :
    Becomes now d none e e' := by
  rcases Engine.run_or_look policy signal (some e) now d with ⟨hsame, -⟩ | ⟨hlook, -⟩
  · cases hsame.symm.trans h
    exact .same e
  · exact becomes_look (hlook.symm.trans h)

theorem becomes_withEngine {f : Engine → Outcome}
    (h : (s.withEngine f).session.engine = some e')
    (hf : ∀ e, s.engine = some e → (f e).session.engine = some e' → Becomes now d told e e') :
    ∃ e, s.engine = some e ∧ Becomes now d told e e' := by
  unfold withEngine at h
  cases hengine : s.engine with
  | none =>
    rw [hengine] at h
    cases hengine.symm.trans h
  | some e =>
    rw [hengine] at h
    exact ⟨e, rfl, hf e hengine h⟩

/-- An engine that a step put in place of the one there was. -/
def Launches (s : Session) (x : Step) (e : Engine) : Prop :=
  ∃ file days pollMillis config disk, x = .launch file days pollMillis ∧ config.days = days ∧
    (Engine.launch config s.runtime s.clock disk).result = .ok e

theorem launches_of_launch {file : String} {days : UInt32} {pollMillis : Option UInt64}
    (h : (s.launch file days pollMillis).session.engine = some e) :
    s.Launches (.launch file days pollMillis) e := by
  unfold Session.launch at h
  dsimp only at h
  split at h
  · rename_i e' hlaunch
    cases h
    exact ⟨file, days, pollMillis, _, _, rfl, rfl, hlaunch⟩
  · cases h
  · cases h

theorem becomes_runTask {withEngine : Bool} {policy : RotationPolicy} {signal : Signal}
    (h : (s.runTask withEngine policy signal).session.engine = some e') :
    ∃ e, s.engine = some e ∧ Becomes s.clock s.disk none e e' := by
  unfold Session.runTask at h
  split at h
  · exact ⟨e', h, .same e'⟩
  · rename_i hsome
    cases withEngine with
    | false => exact ⟨e', h, .same e'⟩
    | true =>
      cases hengine : s.engine with
      | none =>
        rw [hengine] at hsome
        exact absurd rfl hsome
      | some e =>
        rw [hengine] at h
        exact ⟨e, rfl, becomes_run h⟩

/-- **What every step makes of an engine.** -/
theorem engine_of_step (h : (s.step x).session.engine = some e') :
    s.Launches x e' ∨ ∃ e, s.engine = some e ∧ Becomes s.clock s.disk x.interval? e e' := by
  have hkept : ∀ {s' : Session}, s'.engine = s.engine → s'.engine = some e' →
      ∃ e, s.engine = some e ∧ Becomes s.clock s.disk none e e' :=
    fun hsame h' => ⟨e', hsame.symm.trans h', .same e'⟩
  have hread : ∀ {f : Engine → Outcome}, (∀ e, (f e).session.engine = s.engine) →
      (s.withEngine f).session.engine = some e' →
      ∃ e, s.engine = some e ∧ Becomes s.clock s.disk none e e' := by
    intro f hf h'
    refine becomes_withEngine h' fun e he hfe => ?_
    cases he.symm.trans ((hf e).symm.trans hfe)
    exact .same e'
  cases x with
  | launch file days poll => exact .inl (launches_of_launch h)
  | setClock hour => exact .inr (hkept rfl h)
  | addClock hours => exact .inr (hkept rfl h)
  | ingest events =>
    refine .inr (becomes_withEngine h fun e he hfe => ?_)
    unfold Session.ingest at hfe
    split at hfe
    · rename_i hall
      cases hfe
      exact .counted hall
    · cases he.symm.trans hfe
      exact .same e'
  | query g => exact .inr (hread (fun _ => rfl) h)
  | rotate =>
    refine .inr (becomes_withEngine h fun e _ hfe => ?_)
    cases hfe
    exact .rotated e
  | configure days =>
    refine .inr (becomes_withEngine h fun e _ hfe => ?_)
    cases hfe
    exact .configured e days
  | info => exact .inr (hread (fun _ => rfl) h)
  | clear =>
    refine .inr (becomes_withEngine h fun e _ hfe => ?_)
    cases hfe
    exact .cleared e
  | close =>
    refine .inr (becomes_withEngine h fun e _ hfe => ?_)
    cases hfe
    exact .closed e
  | drop =>
    refine .inr (becomes_withEngine h fun e _ hfe => ?_)
    cases hfe
  | debug => exact .inr (hread (fun _ => rfl) h)
  | awaitRotation =>
    refine .inr (becomes_withEngine h fun e he hfe => ?_)
    unfold Session.awaitRotation at hfe
    split at hfe
    · exact becomes_look hfe
    · cases he.symm.trans hfe
      exact .same e'
  | spawn pollMillis =>
    refine .inr (hread (fun e => ?_) h)
    unfold Session.spawn
    split <;> rfl
  | join =>
    refine .inr (hkept ?_ h)
    simp only [Session.step, join]
    split <;> rfl
  | runTask withEngine policy signal => exact .inr (becomes_runTask h)
  | storeOpen file => exact .inr (hkept (s.engine_storeOpen file) h)
  | storeClose => exact .inr (hkept (engine_withStore fun _ => rfl) h)
  | storeReset => exact .inr (hkept (engine_withStore fun _ => rfl) h)
  | storeInfo => exact .inr (hkept (engine_withStore fun _ => rfl) h)
  | load first last => exact .inr (hkept (engine_withStore fun _ => rfl) h)
  | transaction writable calls finish =>
    refine .inr (hkept (engine_withStore fun store => ?_) h)
    unfold transaction
    split <;> rfl
  | writeFile file text => exact .inr (hkept (s.engine_afterChange _) h)
  | makeDirectory file => exact .inr (hkept (s.engine_afterChange _) h)
  | remove file => exact .inr (hkept (s.engine_afterChange _) h)
  | fileExists file => exact .inr (hkept rfl h)
  | putRow file row => exact .inr (hkept ((s.engine_outside file).1 row) h)
  | dump file =>
    refine .inr (hkept (engine_withTable fun s _ _ table => ?_) h)
    unfold dump
    split <;> rfl
  | dumpRaw file => exact .inr (hkept (engine_withTable fun _ _ _ _ => rfl) h)
  | sabotage file what => exact .inr (hkept ((s.engine_outside file).2 what) h)

end Session
end QueryTally
