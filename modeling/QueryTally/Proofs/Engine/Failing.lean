import QueryTally.Engine.Opening
import QueryTally.RotationTask
import QueryTally.Proofs.Arising
import QueryTally.Proofs.Engine.Query
import QueryTally.Proofs.Store.Rows

/-! # An engine whose store may fail

Whatever the store refuses or loses, an engine writes one row only, that of its live hour, into
the file of its connection. It keeps its live hour, gives it up, or begins the present one; and
only an opening takes one up, from a row of the disk. -/

namespace QueryTally.Engine

open QueryTally.Disk QueryTally.Hour

variable {e e' : Engine} {d d₁ : Disk} {now : Hour} {u : LiveHour} {t : Transaction}
variable {notices : List Notice} {P : Row → Prop} {f : FileNumber} {r : Row}

/-- The row that an engine may write. -/
def Writes (e : Engine) (f : FileNumber) (r : Row) : Prop :=
  ∃ u link, e.live = some u ∧ e.store.link = some link ∧ f = link.file ∧ r = u.row

/-- What an operation of an engine that counts some lookups can do to the engine and the disk. -/
structure Weathers (now : Hour) (ks : List Lookup) (e : Engine) (d : Disk) (e' : Engine)
    (d' : Disk) : Prop where
  rows : ∀ f r, d'.HasRow f r → d.HasRow f r ∨ e.Writes f r
  live : ∀ v, e'.live = some v →
    v = LiveHour.start now ∨ ∃ u, e.live = some u ∧ u.recordAll ks = .ok v
  store : e'.store = e.store ∨ e'.store = { e.store with link := none } ∨
    ∃ result notices, e.store.reset d = (result, e'.store, d', notices)

/-- An engine that keeps its live hour and its store. -/
theorem Weathers.kept (now : Hour) {d' : Disk} (hlive : e'.live = e.live)
    (hstore : e'.store = e.store) (hd : d.Unwritten d') : Weathers now [] e d e' d' :=
  ⟨fun f r h => .inl (hd f r h), fun v hv => .inr ⟨v, hlive.symm.trans hv, rfl⟩, .inl hstore⟩

theorem Weathers.refl (now : Hour) (e : Engine) (d : Disk) : Weathers now [] e d e d :=
  .kept now rfl rfl (.refl d)

/-- An engine that begins the present hour. -/
theorem Weathers.begun {d' : Disk} (hlive : e'.live = some (LiveHour.start now))
    (hstore : e'.store = e.store ∨ e'.store = { e.store with link := none } ∨
      ∃ result notices, e.store.reset d = (result, e'.store, d', notices))
    (hrows : ∀ f r, d'.HasRow f r → d.HasRow f r ∨ e.Writes f r) :
    Weathers now [] e d e' d' :=
  ⟨hrows, fun _ hv => .inl (Option.some.inj (hv.symm.trans hlive)), hstore⟩

/-- A transaction that puts at most the live hour leaves at most its row. -/
theorem rows_settle (hlive : e.live = some u)
    (hbegin : e.store.begin d true = (some t, d₁, notices)) {ending : Transaction.Ending}
    (hending : ∀ P : Row → Prop, t.Within P → P u.row → ending.Within P) :
    ∀ f r, (e.store.settle d₁ ending).HasRow f r → d.HasRow f r ∨ e.Writes f r := by
  intro f r hr
  obtain ⟨link, hs, hwithin⟩ := Store.within_begin hbegin
  have hall := hending (fun r => d.HasRow link.file r ∨ r = u.row)
    (hwithin.mono fun _ => .inl) (.inr rfl)
  rcases Store.hasRow_settle hs hall hr with h | ⟨rfl, h | rfl⟩
  · exact .inl (Store.unwritten_begin hbegin f r h)
  · exact .inl h
  · exact .inr ⟨u, link, hlive, hs, rfl, rfl⟩

theorem within_flush (e : Engine) (h : t.Within P) (hrow : P u.row) :
    (e.flush u now t).2.Within P := by
  have hput := h.put hrow
  unfold flush
  dsimp only
  cases now.windowStart e.limit with
  | error o => exact hput.drop
  | ok cutoff =>
    have hpurge := hput.purgeBefore cutoff
    dsimp only
    split
    · exact hpurge.commit
    · exact hpurge.rollback

/-- **Rotating.** -/
theorem rotate_weathers (e : Engine) (now : Hour) (d : Disk) :
    Weathers now [] e d (e.rotate now d).engine (e.rotate now d).disk := by
  unfold rotate
  cases hlive : e.live with
  | none => exact .refl now e d
  | some retired =>
    dsimp only
    split
    · exact .refl now e d
    · cases hbegin : e.store.begin d true with
      | mk opened rest =>
        obtain ⟨d₁, notices⟩ := rest
        cases opened with
        | none =>
          exact .begun rfl (.inl rfl) fun f r h => .inl (Store.unwritten_begin hbegin f r h)
        | some t =>
          refine .begun rfl (.inl rfl) ?_
          exact rows_settle hlive hbegin fun P h hrow => within_flush e h hrow

theorem rows_flushLast (e : Engine) (d : Disk) :
    ∀ f r, (e.flushLast d).1.HasRow f r → d.HasRow f r ∨ e.Writes f r := by
  unfold flushLast
  cases hlive : e.live with
  | none => exact fun f r h => .inl h
  | some u =>
    dsimp only
    cases hbegin : e.store.begin d true with
    | mk opened rest =>
      obtain ⟨d₁, notices⟩ := rest
      cases opened with
      | none => exact fun f r h => .inl (Store.unwritten_begin hbegin f r h)
      | some t =>
        dsimp only
        split
        · exact rows_settle hlive hbegin fun P h hrow => (h.put hrow).commit
        · exact rows_settle hlive hbegin fun P h hrow => (h.put hrow).rollback

/-- **Closing.** -/
theorem close_weathers (e : Engine) (now : Hour) (d : Disk) :
    Weathers now [] e d (e.close d).engine (e.close d).disk := by
  refine ⟨fun f r h => ?_, nofun, .inr (.inl rfl)⟩
  exact rows_flushLast e d f r (Store.unwritten_release e.store _ f r h)

/-- **Clearing.** -/
theorem clear_weathers (e : Engine) (now : Hour) (d : Disk) :
    Weathers now [] e d (e.clear now d).engine (e.clear now d).disk := by
  unfold clear
  split
  · exact .refl now e d
  · cases hreset : e.store.reset d with
    | mk result rest =>
      obtain ⟨store, d', notices⟩ := rest
      have hunwritten := (Store.unwritten_reset hreset).1
      exact .begun rfl (.inr (.inr ⟨result, notices, hreset⟩)) fun f r h => .inl (hunwritten f r h)

/-- What a clearing of an engine that is open leaves behind. -/
theorem clear_eq (hopen : e.isClosed = false) (now : Hour) (d : Disk) :
    (e.clear now d).result = .ok () ∧ (e.clear now d).disk = (e.store.reset d).2.2.1 ∧
      (e.clear now d).engine =
        { e with store := (e.store.reset d).2.1, live := some (LiveHour.start now) } := by
  simp only [clear, hopen, Bool.false_eq_true, if_false, and_self]

/-- **One look at the clock.** -/
theorem look_weathers (e : Engine) (now : Hour) (d : Disk) :
    ∃ e', (RotationTask.look (some e) now d).engine = some e' ∧
      Weathers now [] e d e' (RotationTask.look (some e) now d).disk := by
  unfold RotationTask.look
  dsimp only
  split
  · exact ⟨e, rfl, .refl now e d⟩
  · exact ⟨_, rfl, rotate_weathers e now d⟩

/-- A task does nothing to an engine but look at the clock. -/
theorem run_or_look (policy : RotationPolicy) (signal : Signal) (engine : Option Engine)
    (now : Hour) (d : Disk) :
    ((RotationTask.run policy signal engine now d).engine = engine ∧
        (RotationTask.run policy signal engine now d).disk = d) ∨
      (RotationTask.run policy signal engine now d).engine =
          (RotationTask.look engine now d).engine ∧
        (RotationTask.run policy signal engine now d).disk =
          (RotationTask.look engine now d).disk := by
  unfold RotationTask.run
  split
  · exact .inl ⟨rfl, rfl⟩
  · split
    · exact .inl ⟨rfl, rfl⟩
    · cases signal with
      | stop => exact .inl ⟨rfl, rfl⟩
      | hangUp => exact .inl ⟨rfl, rfl⟩
      | goOn => exact .inr ⟨rfl, rfl⟩
      | silence => exact .inr ⟨rfl, rfl⟩

theorem run_gone (policy : RotationPolicy) (signal : Signal) (now : Hour) (d : Disk) :
    (RotationTask.run policy signal none now d).disk = d := by
  rcases run_or_look policy signal none now d with ⟨-, h⟩ | ⟨-, h⟩
  · exact h
  · exact h

theorem run_weathers (e : Engine) (policy : RotationPolicy) (signal : Signal) (now : Hour)
    (d : Disk) :
    ∃ e', (RotationTask.run policy signal (some e) now d).engine = some e' ∧
      Weathers now [] e d e' (RotationTask.run policy signal (some e) now d).disk := by
  rcases run_or_look policy signal (some e) now d with ⟨hengine, hdisk⟩ | ⟨hengine, hdisk⟩
  · rw [hengine, hdisk]
    exact ⟨e, rfl, .refl now e d⟩
  · rw [hengine, hdisk]
    exact look_weathers e now d

theorem recover_weathers (store : Store) (limit : UInt32) (now : Hour) (d : Disk) :
    d.Unwritten (recover store limit now d).disk ∧
      ∀ record, (recover store limit now d).result = .ok (some record) →
        ∃ f bytes, d.HasRow f ⟨now.cell, recordSlot, .blob bytes⟩ ∧
          Codec.decode bytes = .ok record := by
  unfold recover
  cases hbegin : store.begin d true with
  | mk opened rest =>
    obtain ⟨d₁, notices⟩ := rest
    have hunwritten := Store.unwritten_begin hbegin
    cases opened with
    | none => exact ⟨hunwritten, nofun⟩
    | some t =>
      obtain ⟨link, hs, hwithin⟩ := Store.within_begin hbegin
      cases openingCutoff now limit with
      | error o => exact ⟨Store.unwritten_settle hs hunwritten hwithin.drop, nofun⟩
      | ok cutoff =>
        have hpurge := hwithin.purgeBefore cutoff
        refine ⟨Store.unwritten_settle hs hunwritten ?_, fun record hresult => ?_⟩
        · split
          · exact hpurge.commit
          · exact hpurge.rollback
        · dsimp only at hresult
          cases hget : (t.purgeBefore cutoff).transaction.get now with
          | error err =>
            rw [hget] at hresult
            cases hresult
          | ok found =>
            rw [hget] at hresult
            cases hresult
            obtain ⟨bytes, hrow, hdecode⟩ := hpurge.get hget
            exact ⟨link.file, bytes, hrow, hdecode⟩

/-- **Opening.** No file gets a row by it. The live hour is the present one, begun or taken up
from its row. -/
theorem launch_weathers (c : Config) (runtime : Bool) (now : Hour) (d : Disk) :
    d.Unwritten (launch c runtime now d).disk ∧
      ∀ e, (launch c runtime now d).result = .ok e →
        e.live = some (LiveHour.start now) ∨ ∃ u f bytes record, e.live = some u ∧
          d.HasRow f ⟨now.cell, recordSlot, .blob bytes⟩ ∧
          Codec.decode bytes = .ok record ∧ LiveHour.ofRecord now record = .ok u := by
  unfold launch
  cases hconnect : Store.connect c.path d with
  | mk opened rest =>
    obtain ⟨d₁, notices⟩ := rest
    have hunwritten := (Store.unwritten_connect hconnect).1
    cases opened with
    | error err => exact ⟨hunwritten, nofun⟩
    | ok store =>
      obtain ⟨hrecover, hfound⟩ := recover_weathers store (Config.limitHours c.days) now d₁
      dsimp only
      generalize recover store (Config.limitHours c.days) now d₁ = recovery at hrecover hfound
      have hdisk := hunwritten.trans hrecover
      have hreleased := hdisk.trans (Store.unwritten_release store recovery.disk)
      cases hresult : recovery.result with
      | error o => exact ⟨hreleased, nofun⟩
      | ok found =>
        dsimp only
        cases hresume : resume now found with
        | error o => exact ⟨hreleased, nofun⟩
        | ok live =>
          dsimp only
          split
          · exact ⟨hreleased, nofun⟩
          · refine ⟨hdisk, fun e he => ?_⟩
            cases he
            cases found with
            | none =>
              cases hresume
              exact .inl rfl
            | some record =>
              obtain ⟨f, bytes, hrow, hdecode⟩ := hfound record hresult
              exact .inr ⟨live, f, bytes, record, rfl, hunwritten f _ hrow, hdecode, hresume⟩

/-- **Answering.** A query adds no row, and is answered with a report unless something
overflows. What is stored of an hour is nothing, or stands in a row of the hour. -/
theorem query_weathers (e : Engine) (g : Granularity) (now : Hour) (d : Disk) :
    d.Unwritten (e.query g now d).disk ∧ ∃ stored : Hour → HourRecord,
      (e.query g now d).result = (reportWith e.live stored e.limit g now).mapError .overflow ∧
      ∀ hour, stored hour = .empty ∨ ∃ link bytes, e.store.link = some link ∧
        d.HasRow link.file ⟨hour.cell, recordSlot, .blob bytes⟩ ∧
        Codec.decode bytes = .ok (stored hour) := by
  unfold query reportWith
  cases hfirst : now.windowStart e.limit with
  | error o => exact ⟨.refl d, fun _ => .empty, rfl, fun _ => .inl rfl⟩
  | ok first =>
    obtain ⟨hdisk, stored, hrecords, hstored⟩ := Store.load_within e.store d first now
    refine ⟨hdisk, stored, ?_, hstored⟩
    dsimp only
    rw [hrecords, reportOn_eq e (toInt_windowStart hfirst)]
    rfl

/-- **What a report is made of.** If the live hour and the rows of the file come from hours of
some kind, each hour of the window has the record of such an hour. -/
theorem report_of_units {B : LiveHour → Prop} (hfit : ∀ u, B u → u.NamesFit)
    (hstart : ∀ hour, B (LiveHour.start hour)) (hlive : ∀ u, e.live = some u → B u)
    (hrows : ∀ link, e.store.link = some link →
      ∀ r, d.HasRow link.file r → ∃ u, B u ∧ r = u.row)
    {g : Granularity} {report : Report} (h : (e.query g now d).result = .ok report) :
    ∃ first record, now.windowStart e.limit = .ok first ∧
      Report.ofWindow ⟨first, (span first e.limit.toNat).map record⟩ g = .ok report ∧
      ∀ hour, ∃ u, u.hour = hour ∧ B u ∧ record hour = u.toRecord := by
  obtain ⟨stored, hresult, hstored⟩ := (query_weathers e g now d).2
  rw [hresult, mapError_eq_ok_iff] at h
  obtain ⟨first, hfirst, hreport⟩ := reportWith_eq_ok h
  refine ⟨first, slotFor e.live stored now, hfirst, hreport, fun hour => ?_⟩
  have hempty : ∃ u, u.hour = hour ∧ B u ∧ HourRecord.empty = u.toRecord :=
    ⟨LiveHour.start hour, rfl, hstart hour, (LiveHour.toRecord_start hour).symm⟩
  have hother : ∃ u, u.hour = hour ∧ B u ∧
      (if hour = now then .empty else stored hour) = u.toRecord := by
    split
    · exact hempty
    · rcases hstored hour with hnone | ⟨link, bytes, hs, hrow, hdecode⟩
      · rw [hnone]
        exact hempty
      · obtain ⟨u, hu, hrow⟩ := hrows link hs _ hrow
        obtain ⟨hhour, hrecord⟩ := LiveHour.eq_of_row (hfit u hu) hrow hdecode
        exact ⟨u, hhour, hu, hrecord⟩
  unfold slotFor
  cases hopen : e.live with
  | none => exact hother
  | some u =>
    dsimp only [Window.slotOf]
    split
    · exact ⟨u, Eq.symm ‹_›, hlive u hopen, rfl⟩
    · exact hother

/-! ## Without a store -/

theorem begin_shut (hs : e.store.link = none) (d : Disk) (w : Bool) :
    e.store.begin d w = (none, d, [.beginWhileClosed]) := by
  rw [Store.begin, hs]

theorem rotate_shut (hs : e.store.link = none) (now : Hour) (d : Disk) :
    (e.rotate now d).disk = d ∧ (e.rotate now d).engine.store = e.store ∧
      ∀ u, e.live = some u → (e.rotate now d).result = .ok (decide (u.hour ≠ now)) ∧
        (e.rotate now d).engine.hour? = some now := by
  unfold rotate
  cases hlive : e.live with
  | none => exact ⟨rfl, rfl, nofun⟩
  | some retired =>
    dsimp only
    split
    · rename_i hsame
      refine ⟨rfl, rfl, fun u hu => ?_⟩
      obtain rfl := Option.some.inj hu
      rw [hsame, hour?, hlive]
      exact ⟨by simp, congrArg some hsame⟩
    · rename_i hnew
      rw [begin_shut hs]
      refine ⟨rfl, rfl, fun u hu => ?_⟩
      obtain rfl := Option.some.inj hu
      exact ⟨by simp [hnew], rfl⟩

theorem close_shut (hs : e.store.link = none) (d : Disk) :
    (e.close d).disk = d ∧ (e.close d).engine.store.link = none := by
  have hflush : (e.flushLast d).1 = d := by
    unfold flushLast
    cases e.live with
    | none => rfl
    | some u =>
      dsimp only
      rw [begin_shut hs]
  refine ⟨?_, rfl⟩
  change e.store.release (e.flushLast d).1 = d
  rw [hflush, Store.release, hs]

theorem query_shut (hs : e.store.link = none) (g : Granularity) (now : Hour) (d : Disk) :
    (e.query g now d).disk = d ∧ (e.query g now d).result =
      (reportWith e.live (fun _ => .empty) e.limit g now).mapError .overflow := by
  obtain ⟨-, stored, hresult, hstored⟩ := query_weathers e g now d
  have hnone : stored = fun _ => .empty := by
    funext hour
    rcases hstored hour with h | ⟨link, -, hlink, -⟩
    · exact h
    · cases hs.symm.trans hlink
  exact ⟨query_closed hs, hnone ▸ hresult⟩

theorem look_shut (hs : e.store.link = none) (now : Hour) (d : Disk) :
    ∃ e', (RotationTask.look (some e) now d).engine = some e' ∧ e'.store.link = none ∧
      (RotationTask.look (some e) now d).disk = d := by
  obtain ⟨hdisk, hstore, -⟩ := rotate_shut hs now d
  unfold RotationTask.look
  dsimp only
  split
  · exact ⟨e, rfl, hs, rfl⟩
  · exact ⟨_, rfl, by rw [hstore, hs], hdisk⟩

theorem run_shut (hs : e.store.link = none) (policy : RotationPolicy) (signal : Signal)
    (now : Hour) (d : Disk) :
    ∃ e', (RotationTask.run policy signal (some e) now d).engine = some e' ∧
      e'.store.link = none ∧ (RotationTask.run policy signal (some e) now d).disk = d := by
  rcases run_or_look policy signal (some e) now d with ⟨hengine, hdisk⟩ | ⟨hengine, hdisk⟩
  · rw [hengine, hdisk]
    exact ⟨e, rfl, hs, rfl⟩
  · rw [hengine, hdisk]
    exact look_shut hs now d

/-- Counting changes nothing but the live hour. -/
theorem eq_of_ingestAll {e' : Engine} {events : List (Event × Nat)}
    (h : e.ingestAll events = .ok e') : ∃ live, e' = { e with live } := by
  cases hlive : e.live with
  | none =>
    rw [ingestAll_closed hlive] at h
    cases h
    exact ⟨e.live, rfl⟩
  | some u =>
    obtain ⟨v, rfl, -⟩ := ingestAll_eq hlive h
    exact ⟨some v, rfl⟩

theorem ingestAll_store {e' : Engine} {events : List (Event × Nat)}
    (h : e.ingestAll events = .ok e') : e'.store = e.store := by
  obtain ⟨live, rfl⟩ := eq_of_ingestAll h
  rfl

end QueryTally.Engine
