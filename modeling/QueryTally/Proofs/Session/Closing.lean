import QueryTally.Proofs.Engine.Answering
import QueryTally.Proofs.Session.Engines
import QueryTally.Proofs.Session.Runs

/-! # Closed is closed

Whether an engine counts, whether its store is open and what it tells the tasks that work for it
go together in every session (`Engine.Coherent`). Once an engine is closed nothing opens it again:
whatever it is asked for, it leaves the disk alone and reports that there was nothing. -/

namespace QueryTally

open QueryTally.Hour

namespace Engine

variable {e e' : Engine} {d : Disk} {now : Hour}

/-! ## Whether an engine is closed -/

/-- An engine that tells its tasks to stop when it is closed and not before, and whose store is
closed then. -/
structure Coherent (e : Engine) : Prop where
  shutdown : e.shutdown = e.isClosed
  store : e.isClosed = true → e.store.isOpen = false

/-- An engine that counts is coherent if it tells its tasks what one did that counted. -/
theorem Coherent.counting (h : e.Coherent) (hopen : e.isClosed = false)
    (hshutdown : e'.shutdown = e.shutdown) (hopen' : e'.isClosed = false) : e'.Coherent := by
  refine ⟨?_, fun hclosed => ?_⟩
  · rw [hshutdown, h.shutdown, hopen, hopen']
  · rw [hopen'] at hclosed
    cases hclosed

theorem isClosed_of_live {u : LiveHour} (h : e.live = some u) : e.isClosed = false := by
  rw [isClosed, h]
  rfl

theorem Coherent.ingestAll (h : e.Coherent) {events : List (Event × Nat)}
    (hall : e.ingestAll events = .ok e') : e'.Coherent := by
  cases hlive : e.live with
  | none =>
    rw [ingestAll_closed hlive] at hall
    cases hall
    exact h
  | some u =>
    obtain ⟨v, rfl, -⟩ := ingestAll_eq hlive hall
    exact h.counting (isClosed_of_live hlive) rfl rfl

theorem Coherent.rotate (h : e.Coherent) (now : Hour) (d : Disk) :
    (e.rotate now d).engine.Coherent := by
  unfold Engine.rotate
  cases hlive : e.live with
  | none => exact h
  | some retired =>
    dsimp only
    split
    · exact h
    · split <;> exact h.counting (isClosed_of_live hlive) rfl rfl

theorem Coherent.configure (h : e.Coherent) (days : Int32) : (e.configure days).1.Coherent := by
  unfold Engine.configure
  split
  · exact h
  · split
    · exact ⟨h.shutdown, h.store⟩
    · exact h

theorem Coherent.clear (h : e.Coherent) (now : Hour) (d : Disk) :
    (e.clear now d).engine.Coherent := by
  unfold Engine.clear
  cases hclosed : e.isClosed with
  | true => exact h
  | false => exact h.counting hclosed rfl rfl

theorem coherent_close (e : Engine) (d : Disk) : (e.close d).engine.Coherent := ⟨rfl, fun _ => rfl⟩

theorem coherent_launch {c : Config} {runtime : Bool} (h : (launch c runtime now d).result = .ok e) :
    e.Coherent := by
  obtain ⟨store, live, rfl⟩ := eq_of_launch h
  exact ⟨rfl, nofun⟩

/-! ## An engine that is closed -/

structure Shut (e : Engine) : Prop where
  live : e.live = none
  shutdown : e.shutdown = true
  store : e.store.link = none

theorem shut_close (e : Engine) (d : Disk) : (e.close d).engine.Shut := ⟨rfl, rfl, rfl⟩

theorem Shut.isClosed (h : e.Shut) : e.isClosed = true := by
  rw [Engine.isClosed, h.live]
  rfl

theorem Shut.rotate (h : e.Shut) (now : Hour) (d : Disk) :
    e.rotate now d = { result := .ok false, engine := e, disk := d, notices := [] } := by
  simp only [Engine.rotate, h.live]

theorem Shut.clear (h : e.Shut) (now : Hour) (d : Disk) :
    (e.clear now d).engine = e ∧ (e.clear now d).disk = d := by
  rw [Engine.clear, if_pos h.isClosed]
  exact ⟨rfl, rfl⟩

theorem Shut.configure (h : e.Shut) (days : Int32) : (e.configure days).1.Shut := by
  unfold Engine.configure
  split
  · exact h
  · split
    · exact ⟨h.live, h.shutdown, h.store⟩
    · exact h

theorem Shut.look (h : e.Shut) (now : Hour) (d : Disk) :
    (RotationTask.look (some e) now d).engine = some e ∧
      (RotationTask.look (some e) now d).disk = d := by
  simp only [RotationTask.look, h.isClosed, if_true, and_self]

theorem Shut.run (h : e.Shut) (policy : RotationPolicy) (signal : Signal) (now : Hour) (d : Disk) :
    (RotationTask.run policy signal (some e) now d).engine = some e ∧
      (RotationTask.run policy signal (some e) now d).disk = d := by
  obtain ⟨hengine, hdisk⟩ := h.look now d
  rcases run_or_look policy signal (some e) now d with hrun | ⟨hrun, hrun'⟩
  · exact hrun
  · rw [hrun, hrun']
    exact ⟨hengine, hdisk⟩

/-- What a closed engine has for the hours of a window. -/
theorem Shut.slots (h : e.Shut) (d : Disk) (first now : Hour) :
    ∀ record ∈ e.slots d first now, record = .empty := by
  intro record hrecord
  obtain ⟨hour, -, rfl⟩ := List.mem_map.mp hrecord
  have hreads : e.store.reads d hour = .empty := by
    rw [Store.reads, begin_shut h.store]
  simp only [slotFor, h.live, hreads, ite_self]

/-- **A query of a closed engine** reports that there was nothing. -/
theorem Shut.query (h : e.Shut) {first : Hour} (hfirst : now.windowStart e.limit = .ok first)
    (g : Granularity) (d : Disk) :
    ∃ r, (e.query g now d).result = .ok r ∧ r.Blank ∧
      ∀ series ∈ [r.queries, r.filtered, r.safeBrowsing, r.parental],
        series.length = Report.pointCount g (span first e.limit.toNat) := by
  have hempty := h.slots d first now
  obtain ⟨r, hr⟩ : ∃ r, (e.query g now d).result = .ok r := by
    refine exists_query_ok_iff.mpr ⟨first, hfirst, fun u hu => ?_, Report.fit_of_empty hempty⟩
    cases h.live.symm.trans hu
  refine ⟨r, hr, ?_, ?_⟩
  · rw [query_result, mapError_eq_ok_iff] at hr
    obtain ⟨first', hfirst', hreport⟩ := reportWith_eq_ok hr
    obtain rfl := Except.ok.inj (hfirst.symm.trans hfirst')
    exact Report.blank_ofWindow hreport hempty
  · simp only [List.forall_mem_cons, List.not_mem_nil, false_imp_iff, implies_true, and_true]
    exact Report.forall_everySeries.mp (length_everySeries hfirst hr)

end Engine

namespace Session

variable {s s₀ s' : Session} {e : Engine} {x : Step}

/-! ## Every session -/

/-- The sessions that steps lead to, whatever they answer, if between the steps the disk may
change in every way. -/
inductive Visited (s₀ : Session) : Session → Prop
  | start : Visited s₀ s₀
  | step {s : Session} (h : Visited s₀ s) (x : Step) : Visited s₀ (s.step x).session
  | disturbed {s : Session} (h : Visited s₀ s) (d : Disk) : Visited s₀ { s with disk := d }

def Coherent (s : Session) : Prop := ∀ e, s.engine = some e → e.Coherent

theorem coherent_of_becomes {now : Hour} {d : Disk} {told : Option UInt32} {e' : Engine}
    (h : e.Coherent) (hbecomes : Becomes now d told e e') : e'.Coherent := by
  cases hbecomes with
  | same => exact h
  | counted hall => exact h.ingestAll hall
  | rotated => exact h.rotate now d
  | cleared => exact h.clear now d
  | closed => exact e.coherent_close d
  | configured e days => exact h.configure days

/-- **Every step** keeps an engine coherent. -/
theorem Coherent.step (h : s.Coherent) (x : Step) : (s.step x).session.Coherent := by
  intro e' hengine
  rcases engine_of_step hengine with ⟨_, _, _, _, _, -, -, hlaunch⟩ | ⟨e, he, hbecomes⟩
  · exact Engine.coherent_launch hlaunch
  · exact coherent_of_becomes (h e he) hbecomes

/-- **Every run.** -/
theorem Visited.coherent (h₀ : s₀.engine = none) (h : Visited s₀ s) : s.Coherent := by
  induction h with
  | start =>
    intro e hengine
    cases h₀.symm.trans hengine
  | step h x ih => exact ih.step x
  | disturbed h d ih => exact ih

/-! ## After closing -/

/-- The steps by which an engine is used. -/
def Asks : Step → Prop
  | .setClock _ | .addClock _ | .ingest _ | .query _ | .rotate | .configure _ | .info | .clear
  | .close | .debug | .awaitRotation | .spawn _ | .join | .runTask _ _ _ => True
  | _ => False

/-- The sessions to which such steps lead, whatever they answer, if between the steps the disk may
change in every way. -/
inductive Used (s₀ : Session) : Session → Prop
  | start : Used s₀ s₀
  | step {s : Session} {x : Step} (h : Used s₀ s) (hx : Asks x) : Used s₀ (s.step x).session
  | disturbed {s : Session} (h : Used s₀ s) (d : Disk) : Used s₀ { s with disk := d }

def Over (s : Session) : Prop := ∃ e, s.engine = some e ∧ e.Shut

/-- **Steps after closing** leave the engine closed and the disk as it is. -/
theorem Over.step (h : s.Over) (hx : Asks x) :
    (s.step x).session.Over ∧ (s.step x).session.disk = s.disk := by
  obtain ⟨e, hengine, he⟩ := h
  have hkept : s.Over := ⟨e, hengine, he⟩
  cases x with
  | setClock hour => exact ⟨hkept, rfl⟩
  | addClock hours => exact ⟨hkept, rfl⟩
  | ingest events =>
    have hall := Engine.ingestAll_closed he.live events
    rw [Engine.ingestAll] at hall
    simp only [Session.step, withEngine, hengine, ingest, hall]
    exact ⟨⟨e, rfl, he⟩, rfl⟩
  | query g =>
    simp only [Session.step, withEngine, hengine, query]
    exact ⟨⟨e, rfl, he⟩, Engine.query_closed he.store⟩
  | rotate =>
    simp only [Session.step, withEngine, hengine, afterTurn, he.rotate]
    exact ⟨⟨e, rfl, he⟩, trivial⟩
  | configure days =>
    simp only [Session.step, withEngine, hengine]
    exact ⟨⟨_, rfl, he.configure days⟩, rfl⟩
  | info =>
    simp only [Session.step, withEngine, hengine]
    exact ⟨hkept, rfl⟩
  | clear =>
    obtain ⟨hturned, hdisk⟩ := he.clear s.clock s.disk
    simp only [Session.step, withEngine, hengine, clear, afterTurn, hturned, hdisk]
    exact ⟨⟨e, rfl, he⟩, trivial⟩
  | close =>
    simp only [Session.step, withEngine, hengine, afterTurn]
    exact ⟨⟨_, rfl, e.shut_close s.disk⟩, (Engine.close_shut he.store s.disk).1⟩
  | debug =>
    simp only [Session.step, withEngine, hengine]
    exact ⟨hkept, rfl⟩
  | awaitRotation =>
    obtain ⟨hlook, hdisk⟩ := he.look s.clock s.disk
    simp only [Session.step, withEngine, hengine, awaitRotation]
    split
    · exact ⟨⟨e, hlook, he⟩, hdisk⟩
    · exact ⟨hkept, rfl⟩
  | spawn pollMillis =>
    simp only [Session.step, withEngine, hengine, spawn]
    split
    · exact ⟨hkept, rfl⟩
    · exact ⟨⟨e, rfl, he⟩, rfl⟩
  | join =>
    simp only [Session.step, join]
    split <;> exact ⟨⟨e, hengine, he⟩, rfl⟩
  | runTask withEngine policy signal =>
    simp only [Session.step, runTask, hengine]
    cases withEngine with
    | false => exact ⟨⟨e, rfl, he⟩, Engine.run_gone policy signal s.clock s.disk⟩
    | true =>
      obtain ⟨hrun, hdisk⟩ := he.run policy signal s.clock s.disk
      exact ⟨⟨e, hrun, he⟩, hdisk⟩
  | _ => exact hx.elim

theorem Used.over (h₀ : s₀.Over) (h : Used s₀ s) : s.Over := by
  induction h with
  | start => exact h₀
  | step h hx ih => exact (ih.step hx).1
  | disturbed h d ih =>
    obtain ⟨e, hengine, he⟩ := ih
    exact ⟨e, hengine, he⟩

theorem over_close (hengine : s.engine = some e) : (s.step .close).session.Over := by
  simp only [Session.step, withEngine, hengine, afterTurn]
  exact ⟨_, rfl, e.shut_close s.disk⟩

/-- What a closed engine answers to a query. -/
theorem Over.query (hengine : s.engine = some e) (he : e.Shut) (g : Granularity) :
    (∀ o, s.clock.windowStart e.limit = .error o → (s.step (.query g)).answer = .error o) ∧
      ∀ first, s.clock.windowStart e.limit = .ok first →
        ∃ r, (s.step (.query g)).answer = .ok (.report r) ∧ r.Blank ∧
          ∀ series ∈ [r.queries, r.filtered, r.safeBrowsing, r.parental],
            series.length = Report.pointCount g (span first e.limit.toNat) := by
  simp only [Session.step, withEngine, hengine, Session.query]
  refine ⟨fun o ho => ?_, fun first hfirst => ?_⟩
  · have hresult : (e.query g s.clock s.disk).result = .error (.overflow o) := by
      rw [Engine.query, ho]
    rw [hresult]
  · obtain ⟨r, hr, hblank, hpoints⟩ := he.query hfirst g s.disk
    rw [hr]
    exact ⟨r, rfl, hblank, hpoints⟩

/-- **Closed is final.** In every session that began without an engine, whatever its steps and
whatever happens to the disk between them, an engine tells its tasks to stop exactly if it is
closed, and then its store is closed too. And whatever state an engine is closed in, from then on,
through all steps by which it is used, at any hour and on any disk: it is closed, it has told its
tasks to stop and its store is closed, no step changes the disk, there is nothing to rotate, and a
query whose window can be told is answered with a report that has a zero for each hour, or each
day that the window closes, and nothing else. -/
theorem close_final :
    (∀ s₀ s : Session, s₀.engine = none → Visited s₀ s → ∀ e, s.engine = some e →
      e.shutdown = e.isClosed ∧ (e.isClosed = true → e.store.isOpen = false)) ∧
    ∀ (s : Session) (e : Engine), s.engine = some e → ∀ s', Used (s.step .close).session s' →
      ∃ e', s'.engine = some e' ∧ e'.isClosed = true ∧ e'.shutdown = true ∧
        e'.store.isOpen = false ∧
        (∀ x, Asks x → (s'.step x).session.disk = s'.disk) ∧
        (s'.step .rotate).answer = .ok (.rotated false none) ∧
        ∀ g, (∀ o, s'.clock.windowStart e'.limit = .error o →
            (s'.step (.query g)).answer = .error o) ∧
          ∀ first, s'.clock.windowStart e'.limit = .ok first →
            ∃ r, (s'.step (.query g)).answer = .ok (.report r) ∧ r.Blank ∧
              ∀ series ∈ [r.queries, r.filtered, r.safeBrowsing, r.parental],
                series.length = Report.pointCount g (span first e'.limit.toNat) := by
  refine ⟨fun s₀ s h₀ h e he => ?_, fun s e hengine s' h => ?_⟩
  · obtain ⟨hshutdown, hstore⟩ := h.coherent h₀ e he
    exact ⟨hshutdown, hstore⟩
  · have hover := h.over (over_close hengine)
    have hdisk : ∀ x, Asks x → (s'.step x).session.disk = s'.disk := fun x hx => (hover.step hx).2
    obtain ⟨e', hengine', he'⟩ := hover
    refine ⟨e', hengine', he'.isClosed, he'.shutdown, ?_, hdisk, ?_, Over.query hengine' he'⟩
    · rw [Store.isOpen, he'.store]
      rfl
    · have hhour : e'.hour? = none := by
        rw [Engine.hour?, he'.live]
        rfl
      simp only [Session.step, withEngine, hengine', afterTurn, he'.rotate, hhour]
      rfl

def closingSample : Session :=
  { start "w" false 1001 with
    engine := some Engine.sample
    disk :=
      { Engine.sampleDisk with
        content := fun _ => .database
          { table := some Engine.sampleTable, faults := { begin := id } } } }

/-- An engine that was launched has not told its tasks to stop. One whose last flush is refused is
closed: after a clearing and a longer interval a query reports two days without a lookup. -/
theorem close_final_sample :
    (∃ e, ((start "w" false 1001).step (.launch "stats.db" 1 none)).session.engine = some e ∧
      e.isClosed = false ∧ e.shutdown = false) ∧
    ∃ e r,
      let s := ((closingSample.step .close).session.step .clear).session
      let s' := (s.step (.configure 2)).session
      s'.engine = some e ∧ e.shutdown = true ∧
        (s'.step .rotate).answer = .ok (.rotated false none) ∧
        (s'.step (.query .days)).answer = .ok (.report r) ∧ r.Blank ∧ r.queries.length = 2 := by
  obtain ⟨hcoherent, hfinal⟩ := close_final
  constructor
  · have hopen : (((start "w" false 1001).step (.launch "stats.db" 1 none)).session.engine.any
        fun e => !e.isClosed) = true := by decide +kernel
    obtain ⟨e, hengine, he⟩ := (Option.any_eq_true _ _).mp hopen
    have hclosed : e.isClosed = false := by simpa using he
    refine ⟨e, hengine, hclosed, ?_⟩
    rw [(hcoherent _ _ rfl (.step .start _) e hengine).1, hclosed]
  · have hused : Used (closingSample.step .close).session
        ((((closingSample.step .close).session.step .clear).session.step
          (.configure 2)).session) :=
      .step (.step .start trivial) trivial
    obtain ⟨e, hengine, -, hshutdown, -, -, hrotate, hquery⟩ := hfinal closingSample _ rfl _ hused
    have hlimit : ((((closingSample.step .close).session.step .clear).session.step
        (.configure 2)).session.engine.map (·.limit)) = some 48 := by decide +kernel
    rw [hengine, Option.map_some, Option.some.injEq] at hlimit
    obtain ⟨r, hr, hblank, hpoints⟩ := (hquery .days).2 954 (by rw [hlimit]; rfl)
    refine ⟨e, r, hengine, hshutdown, hrotate, hr, hblank, ?_⟩
    rw [hpoints _ List.mem_cons_self, hlimit]
    decide +kernel

end Session

end QueryTally
