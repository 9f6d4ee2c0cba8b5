import QueryTally.Engine.Query
import QueryTally.Proofs.Report
import QueryTally.Proofs.Store
import QueryTally.Proofs.Window

/-! # What a query reads

An engine whose store serves a table answers a query from three things: the window, its live
hour, and the records of the table in the window. It changes none of them, and the window
always has as many slots as hours are retained. -/

namespace QueryTally.Engine

open QueryTally.Disk QueryTally.Hour

variable {e : Engine} {d : Disk} {link : Link} {table : Table} {live : LiveHour}

/-- The record that a query finds for an hour. -/
def recordAt (live : LiveHour) (table : Table) (now h : Hour) : HourRecord :=
  Window.slotOf now live.hour live.toRecord (Store.recordIn table) h

/-- The window that a query reports on. -/
def windowOf (live : LiveHour) (table : Table) (limit : UInt32) (first now : Hour) : Window where
  first
  records := (span first limit.toNat).map (recordAt live table now)

/-- The report that a query makes of a live hour and a table. -/
def reportFor (live : LiveHour) (table : Table) (limit : UInt32) (g : Granularity) (now : Hour) :
    Checked Report := do
  let first ← now.windowStart limit
  let _ ← live.hour.minus first
  Report.ofWindow (windowOf live table limit first now) g

theorem reportFor_eq_ok_iff {limit : UInt32} {g : Granularity} {now : Hour} {r : Report} :
    reportFor live table limit g now = .ok r ↔
      ∃ first, now.windowStart limit = .ok first ∧ (∃ offset, live.hour.minus first = .ok offset) ∧
        Report.ofWindow (windowOf live table limit first now) g = .ok r := by
  refine bind_eq_ok_iff.trans (exists_congr fun first => and_congr_right fun _ => ?_)
  refine bind_eq_ok_iff.trans ?_
  rw [exists_and_right]

/-- The record that a query finds for an hour, given what is stored of each. A closed engine
has nothing for the present hour. -/
def slotFor (live : Option LiveHour) (stored : Hour → HourRecord) (now h : Hour) : HourRecord :=
  match live with
  | some u => Window.slotOf now u.hour u.toRecord stored h
  | none => if h = now then .empty else stored h

def windowWith (live : Option LiveHour) (stored : Hour → HourRecord) (limit : UInt32)
    (first now : Hour) : Window where
  first
  records := (span first limit.toNat).map (slotFor live stored now)

theorem size_windowWith (live : Option LiveHour) (stored : Hour → HourRecord) (limit : UInt32)
    (first now : Hour) : (windowWith live stored limit first now).size = limit.toNat := by
  rw [Window.size, windowWith, List.length_map, length_span]

variable {stored : Hour → HourRecord}

/-- **Reporting.** The window has a record for each hour that is retained, so that the report
is made of it unless something overflows. -/
theorem reportOn_eq (e : Engine) {first now : Hour}
    (hfirst : first.toInt = now.toInt - e.limit.toNat + 1) (g : Granularity) :
    (e.reportOn g first now ((range first now).map stored)).1 =
      (e.live.elim (.ok first) (fun u => u.hour.minus first) >>= fun _ =>
        Report.ofWindow (windowWith e.live stored e.limit first now) g).mapError .overflow := by
  have hassemble : Window.assemble first now ((range first now).map stored)
      (e.live.map fun u => (u.hour, u.toRecord)) =
        (e.live.elim (.ok first) (fun u => u.hour.minus first)).map fun _ =>
          windowWith e.live stored e.limit first now := by
    cases e.live with
    | some u => exact Window.assemble_eq hfirst u.hour u.toRecord stored
    | none =>
      simp only [Option.map_none, Window.assemble, Window.slots_eq hfirst]
      rfl
  simp only [reportOn, hassemble]
  cases e.live.elim (.ok first) (fun u => u.hour.minus first) with
  | error o => rfl
  | ok offset =>
    simp only [Except.map, size_windowWith, ne_eq, not_true_eq_false, if_false]
    change _ = (Report.ofWindow (windowWith e.live stored e.limit first now) g).mapError
      Halt.overflow
    cases Report.ofWindow (windowWith e.live stored e.limit first now) g with
    | error o => rfl
    | ok r => rfl

/-- The report that a query makes of the live hour, if there is one, and what is stored of each
hour. -/
def reportWith (live : Option LiveHour) (stored : Hour → HourRecord) (limit : UInt32)
    (g : Granularity) (now : Hour) : Checked Report := do
  let first ← now.windowStart limit
  let _ ← live.elim (.ok first) (fun u => u.hour.minus first)
  Report.ofWindow (windowWith live stored limit first now) g

theorem reportWith_eq_ok {live : Option LiveHour} {limit : UInt32} {g : Granularity} {now : Hour}
    {r : Report} (h : reportWith live stored limit g now = .ok r) :
    ∃ first, now.windowStart limit = .ok first ∧
      Report.ofWindow (windowWith live stored limit first now) g = .ok r := by
  obtain ⟨first, hfirst, h⟩ := bind_eq_ok_iff.mp h
  obtain ⟨-, -, h⟩ := bind_eq_ok_iff.mp h
  exact ⟨first, hfirst, h⟩

/-- **Answering a query.** The answer depends on the live hour, the table and the limit, and
is a report unless something overflows. -/
theorem query_eq (hlive : e.live = some live) (hs : e.store.link = some link)
    (h : d.Serves link table) (g : Granularity) (now : Hour) :
    (e.query g now d).result = (reportFor live table e.limit g now).mapError .overflow := by
  unfold query reportFor
  cases hfirst : now.windowStart e.limit with
  | error o => rfl
  | ok first =>
    simp only [(Store.load_eq hs h first now).1, reportOn_eq e (toInt_windowStart hfirst), hlive]
    rfl

theorem mapError_eq_ok_iff {ε ε' α : Type} {x : Except ε α} {f : ε → ε'} {a : α} :
    x.mapError f = .ok a ↔ x = .ok a := by
  cases x with
  | error e => exact ⟨nofun, nofun⟩
  | ok b => exact ⟨fun h => by cases h; rfl, fun h => by cases h; rfl⟩

theorem query_eq_ok_iff (hlive : e.live = some live) (hs : e.store.link = some link)
    (h : d.Serves link table) {g : Granularity} {now : Hour} {r : Report} :
    (e.query g now d).result = .ok r ↔ reportFor live table e.limit g now = .ok r := by
  rw [query_eq hlive hs h, mapError_eq_ok_iff]

theorem query_serves (hs : e.store.link = some link) (h : d.Serves link table) (g : Granularity)
    (now : Hour) :
    (e.query g now d).disk.Serves link table ∧ ChangedBy link d (e.query g now d).disk := by
  unfold query
  cases now.windowStart e.limit with
  | error o => exact ⟨h, ChangedBy.refl link d⟩
  | ok first => exact (Store.load_eq hs h first now).2

theorem query_closed {g : Granularity} {now : Hour} (hs : e.store.link = none) :
    (e.query g now d).disk = d := by
  unfold query
  cases now.windowStart e.limit with
  | error o => rfl
  | ok first => simp only [Store.load, Store.begin, hs]

theorem windowOf_congr {live live' : LiveHour} {table table' : Table} {limit : UInt32}
    {first now : Hour} (hnow : first.toInt = now.toInt - limit.toNat + 1)
    (h : ∀ hour, first ≤ hour → hour ≤ now →
      recordAt live table now hour = recordAt live' table' now hour) :
    windowOf live table limit first now = windowOf live' table' limit first now := by
  refine congrArg (Window.mk first) (List.map_congr_left fun hour hmem => ?_)
  have hlast : first.toInt + limit.toNat ≤ now.toInt + 1 := by omega
  obtain ⟨hle, hlt⟩ := (mem_span_iff hlast).mp hmem
  exact h hour hle (Int64.le_iff_toInt_le.mpr (by omega))

/-- The series of a report by hours are the counters of the records. -/
theorem series_of_hours {w : Window} {r : Report} (h : Report.ofWindow w .hours = .ok r) :
    r.queries = w.records.map (·.total) ∧ r.filtered = w.records.map (·.count .filtered) ∧
      r.safeBrowsing = w.records.map (·.count .safeBrowsing) ∧
      r.parental = w.records.map (·.count .parental) := by
  have hmade := Report.madeOf_ofWindow h
  exact ⟨(Except.ok.inj hmade.queries).symm, (Except.ok.inj hmade.filtered).symm,
    (Except.ok.inj hmade.safeBrowsing).symm, (Except.ok.inj hmade.parental).symm⟩

theorem getElem?_windowOf {live : LiveHour} {table : Table} {limit : UInt32} {first now : Hour}
    (hnow : first.toInt = now.toInt - limit.toNat + 1) {hour : Hour} (hle : first ≤ hour)
    (hlast : hour ≤ now) {α : Type} (f : HourRecord → α) :
    ((windowOf live table limit first now).records.map f)[(hour.toInt - first.toInt).toNat]? =
      some (f (recordAt live table now hour)) := by
  rw [windowOf, List.map_map]
  exact getElem?_map_span hnow hle hlast (f ∘ recordAt live table now)

/-- A new retention interval leaves the live hour and the store alone. -/
theorem configure_keeps (e : Engine) (days : Int32) :
    (e.configure days).1.live = e.live ∧ (e.configure days).1.store = e.store := by
  unfold configure
  split
  · exact ⟨rfl, rfl⟩
  · split <;> exact ⟨rfl, rfl⟩

end QueryTally.Engine
