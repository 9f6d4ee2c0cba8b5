import QueryTally.Proofs.Disk.Looking
import QueryTally.Proofs.Engine.Nesting
import QueryTally.Proofs.Session.Engines

/-! # Intervals in turn

An engine that is told one interval and then another reports on nested windows. It has no memory
of an interval but the last that it accepted, and a query between them is only a look at the
disk: so a session that comes back to an interval gives the same reports again. -/

namespace QueryTally

theorem Store.reads_look {s : Store} {d : Disk} {link : Link} (hs : s.link = some link)
    (h : link.Placed d) (hour : Hour) : s.reads (d.look link) hour = s.reads d hour := by
  simp only [Store.reads, Store.begin, hs, Disk.seen_look h]
  cases (d.seen link).begin false <;> rfl

namespace Engine

variable {e : Engine} {b : Int32}

def configureAll (e : Engine) (told : List Int32) : Engine :=
  told.foldl (fun e days => (e.configure days).1) e

theorem configureAll_append (e : Engine) (told more : List Int32) :
    e.configureAll (told ++ more) = (e.configureAll told).configureAll more := List.foldl_append

theorem configureAll_refused {refused : List Int32} (h : ∀ days ∈ refused, ¬ Accepts days)
    (e : Engine) : e.configureAll refused = e := by
  induction refused generalizing e with
  | nil => rfl
  | cons days rest ih =>
    obtain ⟨hdays, hrest⟩ := List.forall_mem_cons.mp h
    have hsame := configure_of_not_accepts hdays e
    change (e.configure days).1.configureAll rest = e
    rw [hsame, ih hrest]

/-- Being told intervals changes nothing but the limit. -/
theorem exists_configureAll_eq (e : Engine) (told : List Int32) :
    ∃ limit, e.configureAll told = { e with limit } := by
  induction told generalizing e with
  | nil => exact ⟨e.limit, rfl⟩
  | cons days rest ih =>
    obtain ⟨first, hfirst⟩ := e.exists_configure_eq days
    obtain ⟨limit, hlimit⟩ := ih { e with limit := first }
    refine ⟨limit, ?_⟩
    change (e.configure days).1.configureAll rest = _
    rw [hfirst]
    exact hlimit

/-- **The last interval that is accepted** is all that an engine keeps of what it was told. -/
theorem configureAll_eq (hb : Accepts b) {refused : List Int32}
    (hrefused : ∀ days ∈ refused, ¬ Accepts days) (e : Engine) (told : List Int32) :
    e.configureAll (told ++ b :: refused) = (e.configure b).1 := by
  obtain ⟨limit, hlimit⟩ := e.exists_configureAll_eq told
  rw [configureAll_append, hlimit]
  change (({ e with limit } : Engine).configure b).1.configureAll refused = _
  rw [configureAll_refused hrefused, configure_of_accepts hb, configure_of_accepts hb]

end Engine

/-- The number of days that a step asks an engine to retain, accepted or not. -/
def Step.asked? : Step → Option Int32
  | .configure days => some days
  | _ => none

namespace Session

variable {s s₀ : Session} {e : Engine} {x : Step} {xs : List Step} {g : Granularity}

/-- The steps by which an engine is told an interval, or asked for a report or for its state. -/
def Consults : Step → Prop
  | .configure _ | .query _ | .info | .debug => True
  | _ => False

/-- The session after some steps, whatever they answer. -/
def after (s : Session) (xs : List Step) : Session := xs.foldl (fun s x => (s.step x).session) s

/-- A session that has consulted its engine, since it was in another state: the disk may have been
looked into, and the engine is the given one. -/
structure Consulted (s₀ : Session) (e : Engine) (s : Session) : Prop where
  engine : s.engine = some e
  clock : s.clock = s₀.clock
  reads : e.store.reads s.disk = e.store.reads s₀.disk
  placed : ∀ link, e.store.link = some link → link.Placed s.disk

theorem Consulted.configure (h : Consulted s₀ e s) (days : Int32) :
    Consulted s₀ (e.configure days).1 (s.step (.configure days)).session := by
  obtain ⟨-, hstore⟩ := e.configure_keeps days
  simp only [Session.step, withEngine, h.engine]
  refine ⟨rfl, h.clock, ?_, ?_⟩
  · rw [hstore]
    exact h.reads
  · rw [hstore]
    exact h.placed

theorem Consulted.query (h : Consulted s₀ e s) (g : Granularity) :
    Consulted s₀ e (s.step (.query g)).session := by
  simp only [Session.step, withEngine, h.engine, Session.query]
  rcases e.query_disk g s.clock s.disk with hdisk | ⟨link, hs, hdisk⟩
  · rw [hdisk]
    exact ⟨rfl, h.clock, h.reads, h.placed⟩
  · rw [hdisk]
    have hplaced := h.placed link hs
    refine ⟨rfl, h.clock, ?_, fun link' hs' => ?_⟩
    · rw [← h.reads]
      exact funext (Store.reads_look hs hplaced)
    · obtain rfl := Option.some.inj (hs.symm.trans hs')
      exact hplaced.look

/-- **A step that consults the engine.** -/
theorem Consulted.step (h : Consulted s₀ e s) (hx : Consults x) :
    Consulted s₀ (e.configureAll x.asked?.toList) (s.step x).session := by
  cases x with
  | configure days => exact h.configure days
  | query g => exact h.query g
  | info =>
    simp only [Session.step, withEngine, h.engine]
    exact h
  | debug =>
    simp only [Session.step, withEngine, h.engine]
    exact h
  | _ => exact hx.elim

/-- **Steps that consult the engine.** -/
theorem Consulted.after (h : Consulted s₀ e s) (hxs : ∀ x ∈ xs, Consults x) :
    Consulted s₀ (e.configureAll (xs.filterMap Step.asked?)) (s.after xs) := by
  induction xs generalizing e s with
  | nil => exact h
  | cons x xs ih =>
    obtain ⟨hx, hrest⟩ := List.forall_mem_cons.mp hxs
    have hnext := ih (h.step hx) hrest
    have htold : (x :: xs).filterMap Step.asked? = x.asked?.toList ++ xs.filterMap Step.asked? := by
      rw [List.filterMap_cons]
      cases x.asked? <;> rfl
    rw [htold, Engine.configureAll_append]
    exact hnext

/-- What is answered to a query is what the engine would have answered at first. -/
theorem Consulted.answer (h : Consulted s₀ e s) (g : Granularity) :
    (e.query g s.clock s.disk).result = (e.query g s₀.clock s₀.disk).result := by
  rw [h.clock]
  exact Engine.query_congr fun _ _ hour _ _ _ => congrFun h.reads hour

/-- Sessions that have consulted the same engine answer alike. -/
theorem answer_congr {s' : Session} (h : Consulted s₀ e s) (h' : Consulted s₀ e s') :
    (s.step (.query g)).answer = (s'.step (.query g)).answer := by
  simp only [Session.step, withEngine, h.engine, h'.engine, Session.query, h.answer, h'.answer]

/-- **Coming back to an interval.** However an engine is consulted, it answers as if it had only
been told the last interval that it accepted. -/
theorem answer_after (hengine : s.engine = some e)
    (hplaced : ∀ link, e.store.link = some link → link.Placed s.disk) {b : Int32}
    (hb : Engine.Accepts b) (hxs : ∀ x ∈ xs, Consults x) {told refused : List Int32}
    (htold : xs.filterMap Step.asked? = told ++ b :: refused)
    (hrefused : ∀ days ∈ refused, ¬ Engine.Accepts days) (g : Granularity) :
    ((s.after xs).step (.query g)).answer = ((s.after [.configure b]).step (.query g)).answer := by
  have hstart : Consulted s e s := ⟨hengine, rfl, rfl, hplaced⟩
  have hconsulted := hstart.after hxs
  rw [htold, Engine.configureAll_eq hb hrefused] at hconsulted
  exact answer_congr hconsulted (hstart.configure b)

/-- **Nested windows agree.** Whatever the live hour, the store, the disk and the clock, if queries
under two accepted intervals both give a report:

* Each series by hours under the shorter one is the end of that under the longer one, of 24 points
  for each of its days.
* Each total under the shorter one is at most that under the longer one.
* Each series by days under the shorter one, if it has a day, is the end of that under the longer
  one, but for its first point, which is at most that in the same place.

An engine that was told any numbers of days, of which the last that is accepted is a given one, is
the engine that was told this number alone. And as long as nothing is done but to tell it numbers of
days and to ask it for reports and for its state, a session answers every query like one whose engine
was told only this number. -/
theorem query_nested :
    (∀ (e : Engine) (d : Disk) (now : Hour) (a b : Int32),
      Engine.Accepts a → Engine.Accepts b → a ≤ b →
      (∀ r r', ((e.configure a).1.query .hours now d).result = .ok r →
        ((e.configure b).1.query .hours now d).result = .ok r' →
        ∀ pick ∈ Report.everySeries, (pick r).length = 24 * a.toInt.toNat ∧ pick r <:+ pick r') ∧
      (∀ g g' r r', ((e.configure a).1.query g now d).result = .ok r →
        ((e.configure b).1.query g' now d).result = .ok r' →
        ∀ pick ∈ Report.everyTotal, pick r ≤ pick r') ∧
      (1 ≤ a → ∀ r r', ((e.configure a).1.query .days now d).result = .ok r →
        ((e.configure b).1.query .days now d).result = .ok r' →
        ∀ pick ∈ Report.everySeries, ∃ shown n n' later, pick r = n :: later ∧
          pick r' = shown ++ n' :: later ∧ n ≤ n' ∧ later.length + 1 = a.toInt.toNat ∧
          shown.length + a.toInt.toNat = b.toInt.toNat)) ∧
    (∀ (e : Engine) (b : Int32) (told refused : List Int32), Engine.Accepts b →
      (∀ days ∈ refused, ¬ Engine.Accepts days) →
      e.configureAll (told ++ b :: refused) = (e.configure b).1) ∧
    ∀ (s : Session) (e : Engine), s.engine = some e →
      (∀ link, e.store.link = some link → link.Placed s.disk) →
      ∀ (b : Int32) (xs : List Step) (told refused : List Int32), Engine.Accepts b →
        (∀ x ∈ xs, Consults x) → xs.filterMap Step.asked? = told ++ b :: refused →
        (∀ days ∈ refused, ¬ Engine.Accepts days) → ∀ g,
          ((s.after xs).step (.query g)).answer =
            ((s.after [.configure b]).step (.query g)).answer := by
  refine ⟨fun e d now a b ha hb hab => ⟨?_, ?_, ?_⟩, ?_, ?_⟩
  · exact fun r r' hr hr' => Engine.nested_hours ha hb hab hr hr'
  · exact fun g g' r r' hr hr' => Engine.nested_totals ha hb hab hr hr'
  · exact fun hpos r r' hr hr' => Engine.nested_days ha hb hab hpos hr hr'
  · exact fun e b told refused hb hrefused => Engine.configureAll_eq hb hrefused e told
  · exact fun s e hengine hplaced b xs told refused hb hxs htold hrefused g =>
      answer_after hengine hplaced hb hxs htold hrefused g

def nestingSample : Session :=
  { start "w" false 1023 with engine := some Engine.sample, disk := Engine.sampleDisk }

/-- The hour before the live one is in the window of two days, and not in that of one: of the day
that both show, the longer one has more. The session comes back to two days. -/
theorem query_nested_sample :
    (∃ r r', ((Engine.sample.configure 1).1.query .hours 1023 Engine.sampleDisk).result = .ok r ∧
      ((Engine.sample.configure 2).1.query .hours 1023 Engine.sampleDisk).result = .ok r' ∧
      r.filtered.length = 24 ∧ r.filtered <:+ r'.filtered) ∧
    (∃ r r', ((Engine.sample.configure 1).1.query .days 1023 Engine.sampleDisk).result = .ok r ∧
      ((Engine.sample.configure 2).1.query .days 1023 Engine.sampleDisk).result = .ok r' ∧
      r.queries = [1] ∧ r'.queries = [0, 6] ∧ r.totalQueries ≤ r'.totalQueries ∧
      ∃ shown n n' later, r.queries = n :: later ∧ r'.queries = shown ++ n' :: later ∧ n ≤ n') ∧
    Engine.sample.configureAll [2, 1, 2, -1] = (Engine.sample.configure 2).1 ∧
    ((nestingSample.after
        [.configure 2, .query .days, .configure 1, .query .hours, .configure 2, .configure (-1)]).step
      (.query .days)).answer = ((nestingSample.after [.configure 2]).step (.query .days)).answer := by
  obtain ⟨hnested, htold, hsession⟩ := query_nested
  have hrefused : ∀ days ∈ [(-1 : Int32)], ¬ Engine.Accepts days :=
    List.forall_mem_singleton.mpr (by decide)
  obtain ⟨hhours, htotals, hdays⟩ := hnested Engine.sample Engine.sampleDisk 1023 1 2 (by decide)
    (by decide) (by decide)
  refine ⟨?_, ?_, htold Engine.sample 2 [2, 1] [-1] (by decide) hrefused, ?_⟩
  · obtain ⟨r, hr⟩ := exists_eq_ok_of_isOk (by decide +kernel :
      ((Engine.sample.configure 1).1.query .hours 1023 Engine.sampleDisk).result.isOk = true)
    obtain ⟨r', hr'⟩ := exists_eq_ok_of_isOk (by decide +kernel :
      ((Engine.sample.configure 2).1.query .hours 1023 Engine.sampleDisk).result.isOk = true)
    obtain ⟨-, ⟨hlength, hends⟩, -⟩ := Report.forall_everySeries.mp (hhours r r' hr hr')
    exact ⟨r, r', hr, hr', hlength, hends⟩
  · have hshort : (((Engine.sample.configure 1).1.query .days 1023
        Engine.sampleDisk).result.toOption.map (·.queries)) = some [1] := by decide +kernel
    have hlong : (((Engine.sample.configure 2).1.query .days 1023
        Engine.sampleDisk).result.toOption.map (·.queries)) = some [0, 6] := by decide +kernel
    obtain ⟨r, hr, hqueries⟩ := Option.map_eq_some_iff.mp hshort
    obtain ⟨r', hr', hqueries'⟩ := Option.map_eq_some_iff.mp hlong
    rw [toOption_eq_some_iff] at hr hr'
    obtain ⟨shown, n, n', later, hn, hn', hle, -⟩ :=
      hdays (by decide) r r' hr hr' (·.queries) List.mem_cons_self
    exact ⟨r, r', hr, hr', hqueries, hqueries',
      htotals .days .days r r' hr hr' (·.totalQueries) List.mem_cons_self, shown, n, n', later, hn,
      hn', hle⟩
  · refine hsession nestingSample Engine.sample rfl ?_ 2 _ [2, 1] [-1] (by decide) ?_ rfl hrefused
      .days
    · intro link hlink
      obtain rfl := Option.some.inj hlink
      exact ⟨nofun, by decide⟩
    · simp only [List.forall_mem_cons, List.not_mem_nil, false_imp_iff, implies_true, and_true]
      exact ⟨trivial, trivial, trivial, trivial, trivial, trivial⟩

end Session
end QueryTally
