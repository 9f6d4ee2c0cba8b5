import QueryTally.Session
import QueryTally.Proofs.Engine.Failing
import QueryTally.Proofs.Engine.Rotation

/-! # What a query reads of a database

Whatever the state of the database, a query takes from it, for each hour of the window before
the present one, at most the record in the slot for it (`Store.reads`). So two databases that
refuse the same, and have the same in those slots, are answered from alike; what else is in
their rows does not matter, and what is in one of the slots matters to its hour alone. -/

namespace QueryTally

open QueryTally.Disk QueryTally.Hour

namespace Store

variable {s : Store} {d d' : Disk} {h first last : Hour}

/-- What stands in the slot for the record of an hour, as the store sees its database. -/
def cell? (s : Store) (d : Disk) (h : Hour) : Option Cell :=
  s.link.bind fun link => (d.seen link).table.bind fun t => t.get? h.cell recordSlot

/-- Whether the database refuses to let an hour be read. -/
def refusesRead (s : Store) (d : Disk) (h : Hour) : Bool :=
  s.link.any fun link =>
    (d.seen link).faults.begin false || (d.seen link).faults.get h.cell

/-- Two disks on which a store sees databases that refuse the same. -/
def SameCondition (s : Store) (d d' : Disk) : Prop :=
  ∀ link, s.link = some link → (d.seen link).faults = (d'.seen link).faults

/-- The record that a load gives for an hour: the empty one if there is none, if it cannot be
read, or if the store is closed or refused. -/
def reads (s : Store) (d : Disk) (h : Hour) : HourRecord :=
  match (s.begin d false).1 with
  | some t => t.found h
  | none => .empty

theorem load_records (s : Store) (d : Disk) (first last : Hour) :
    (s.load d first last).records = (range first last).map (s.reads d) := by
  unfold load
  have hreads : s.reads d = match (s.begin d false).1 with
    | some t => t.found
    | none => fun _ => .empty := by
    funext h
    unfold reads
    cases (s.begin d false).1 <;> rfl
  cases hb : s.begin d false with
  | mk opened rest =>
    rw [hb] at hreads
    cases opened with
    | none => rw [hreads]
    | some t =>
      rw [hreads]
      simp only [loadFrom, List.map_map]
      refine List.map_congr_left fun hour _ => ?_
      rw [Function.comp_apply, Transaction.found]
      cases t.get hour with
      | error e => rfl
      | ok record => cases record <;> rfl

/-- **Reading an hour.** Unless the database refuses it, the record in the slot is read, if there
is one. -/
theorem reads_eq (s : Store) (d : Disk) (h : Hour) :
    s.reads d h = if s.refusesRead d h then .empty
      else ((s.cell? d h).bind Cell.record?).getD .empty := by
  unfold reads begin refusesRead cell?
  cases s.link with
  | none => rfl
  | some link =>
    simp only [Database.begin, Option.any_some, Option.bind_some]
    cases (d.seen link).faults.begin false with
    | true => rfl
    | false =>
      simp only [Bool.false_eq_true, if_false, Bool.false_or, Transaction.found, Transaction.get]
      cases (d.seen link).table with
      | none =>
        dsimp only [Option.bind_none]
        split <;> rfl
      | some t =>
        dsimp only [Option.bind_some]
        cases (d.seen link).faults.get h.cell with
        | true => rfl
        | false =>
          cases t.get? h.cell recordSlot with
          | none => rfl
          | some c =>
            cases c with
            | text s => rfl
            | blob bytes =>
              simp only [Option.bind_some, Cell.record?, Bool.false_eq_true, if_false]
              cases Codec.decode bytes <;> rfl

/-- What is read of an hour depends on its slot, and on what the database refuses. -/
theorem reads_congr (hcond : s.SameCondition d d') (hcell : s.cell? d h = s.cell? d' h) :
    s.reads d h = s.reads d' h := by
  have hrefuses : s.refusesRead d h = s.refusesRead d' h := by
    unfold refusesRead
    cases hs : s.link with
    | none => rfl
    | some link => rw [Option.any_some, Option.any_some, hcond link hs]
  rw [reads_eq, reads_eq, hrefuses, hcell]

/-- A record that is missing or cannot be read is read as empty. -/
theorem reads_eq_empty (hcell : (s.cell? d h).bind Cell.record? = none) :
    s.reads d h = .empty := by
  rw [reads_eq, hcell]
  exact ite_self _

/-- So is one without a query. -/
theorem reads_eq_empty_of_encode (hcell : s.cell? d h = some (.blob (Codec.encode .empty))) :
    s.reads d h = .empty := by
  rw [reads_eq, hcell, Option.bind_some, Cell.record?_encode HourRecord.fits_empty]
  exact ite_self _

/-- A load does at most what looking into the file does. -/
theorem load_disk (s : Store) (d : Disk) (first last : Hour) :
    (s.load d first last).disk = d ∨
      ∃ link, s.link = some link ∧ (s.load d first last).disk = d.look link := by
  unfold load
  cases hb : s.begin d false with
  | mk opened rest =>
    obtain ⟨d₁, notices⟩ := rest
    cases opened with
    | none =>
      refine .inl ?_
      unfold begin at hb
      split at hb
      · cases hb
        rfl
      · dsimp only at hb
        split at hb <;> cases hb
        rfl
    | some t =>
      obtain ⟨link, hs, hd, -, ht⟩ := begin_eq_some hb
      -- The transaction may only read, so that ending it stores nothing.
      have hw : ∀ c : Bool, (if c then t else t.look).rollback.transaction.writable = false := by
        intro c
        rw [ht]
        cases c with
        | true => rfl
        | false => exact Transaction.look_writable _
      rw [if_neg Bool.false_ne_true] at hd
      subst hd
      dsimp only
      simp only [settle, hs, hw, Bool.false_eq_true, if_false]
      cases (if (range first last).isEmpty = true then t else t.look).rollback.transaction.looked with
      | true => exact .inr ⟨link, rfl, rfl⟩
      | false => exact .inl rfl

end Store

def Report.seriesAt (r : Report) (i : Nat) :
    Option UInt64 × Option UInt64 × Option UInt64 × Option UInt64 :=
  (r.queries[i]?, r.filtered[i]?, r.safeBrowsing[i]?, r.parental[i]?)

namespace Engine

variable {e : Engine} {d d' : Disk} {now first h : Hour} {g : Granularity} {r r' : Report}
variable {live : Option LiveHour} {limit : UInt32} {stored stored' : Hour → HourRecord}

/-- **Answering a query.** The report is made of the live hour and what the store reads. -/
theorem query_result (e : Engine) (g : Granularity) (now : Hour) (d : Disk) :
    (e.query g now d).result =
      (reportWith e.live (e.store.reads d) e.limit g now).mapError .overflow := by
  unfold query reportWith
  cases hfirst : now.windowStart e.limit with
  | error o => rfl
  | ok first =>
    dsimp only
    rw [Store.load_records, reportOn_eq e (toInt_windowStart hfirst)]
    rfl

/-- Of the stored records the window has those of the hours before the present one, without the
live hour. -/
theorem slotFor_congr {k : Hour}
    (hk : k < now → live.map (·.hour) ≠ some k → stored k = stored' k) (hle : k ≤ now) :
    slotFor live stored now k = slotFor live stored' now k := by
  have hother : live.map (·.hour) ≠ some k → (if k = now then HourRecord.empty else stored k) =
      if k = now then HourRecord.empty else stored' k := by
    intro hlive
    by_cases hnow : k = now
    · rw [if_pos hnow, if_pos hnow]
    · rw [if_neg hnow, if_neg hnow, hk (Int64.lt_of_le_of_ne hle hnow) hlive]
  unfold slotFor
  cases live with
  | none => exact hother nofun
  | some u =>
    simp only [Window.slotOf]
    by_cases hu : k = u.hour
    · rw [if_pos hu, if_pos hu]
    · rw [if_neg hu, if_neg hu]
      exact hother fun e => hu (Option.some.inj e).symm

theorem windowWith_congr (hfirst : first.toInt = now.toInt - limit.toNat + 1)
    (h : ∀ k, first ≤ k → k < now → live.map (·.hour) ≠ some k → stored k = stored' k) :
    windowWith live stored limit first now = windowWith live stored' limit first now := by
  refine congrArg (Window.mk first) (List.map_congr_left fun k hk => ?_)
  have hlast : first.toInt + limit.toNat ≤ now.toInt + 1 := by omega
  obtain ⟨hle, hlt⟩ := (mem_span_iff hlast).mp hk
  exact slotFor_congr (h k hle) (Int64.le_iff_toInt_le.mpr (by omega))

/-- **A query reads its window.** Its answer depends on what is read of the hours before the
present one, other than the live hour. -/
theorem query_congr (h : ∀ first, now.windowStart e.limit = .ok first → ∀ k, first ≤ k → k < now →
      e.hour? ≠ some k → e.store.reads d k = e.store.reads d' k) :
    (e.query g now d).result = (e.query g now d').result := by
  rw [query_result, query_result]
  unfold reportWith
  cases hfirst : now.windowStart e.limit with
  | error o => simp only [bind, Except.bind]
  | ok first =>
    have hwindow : windowWith e.live (e.store.reads d) e.limit first now =
        windowWith e.live (e.store.reads d') e.limit first now :=
      windowWith_congr (toInt_windowStart hfirst) (h first hfirst)
    simp only [bind, Except.bind, hwindow]

/-- The records of which a query makes its report. -/
def slots (e : Engine) (d : Disk) (first now : Hour) : List HourRecord :=
  (span first e.limit.toNat).map (slotFor e.live (e.store.reads d) now)

theorem seriesAt_eq (hfirst : now.windowStart e.limit = .ok first)
    (hr : (e.query .hours now d).result = .ok r) (i : Nat) :
    let record := (e.slots d first now)[i]?
    r.seriesAt i = (record.map (·.total), record.map (·.count .filtered),
      record.map (·.count .safeBrowsing), record.map (·.count .parental)) := by
  rw [query_result, mapError_eq_ok_iff] at hr
  obtain ⟨first', hfirst', hreport⟩ := reportWith_eq_ok hr
  obtain rfl := Except.ok.inj (hfirst.symm.trans hfirst')
  obtain ⟨hqueries, hfiltered, hsafe, hparental⟩ := series_of_hours hreport
  simp only [Report.seriesAt, hqueries, hfiltered, hsafe, hparental, List.getElem?_map]
  rfl

/-- The place of another hour has the same record. -/
theorem getElem?_slots_congr (hfirst : now.windowStart e.limit = .ok first) (hle : first ≤ h)
    (hother : ∀ k, first ≤ k → k < now → k ≠ h → e.store.reads d k = e.store.reads d' k)
    {i : Nat} (hi : i ≠ (h.toInt - first.toInt).toNat) :
    (e.slots d first now)[i]? = (e.slots d' first now)[i]? := by
  have hwidth := toInt_windowStart hfirst
  rw [Int64.le_iff_toInt_le] at hle
  simp only [slots, List.getElem?_map]
  cases hk : (span first e.limit.toNat)[i]? with
  | none => rfl
  | some k =>
    obtain ⟨hlt, hget⟩ := List.getElem?_eq_some_iff.mp hk
    rw [length_span] at hlt
    have hplace : k.toInt = first.toInt + i := by
      have hlast : first.toInt + i ≤ now.toInt := by omega
      rw [← hget, getElem_span, toInt_ofInt_add hlast]
    -- The hour at another place is another hour.
    have hne : k ≠ h := by
      rintro rfl
      omega
    have hfrom : first ≤ k := Int64.le_iff_toInt_le.mpr (by omega)
    have huntil : k ≤ now := Int64.le_iff_toInt_le.mpr (by omega)
    exact congrArg some (slotFor_congr (fun hlt _ => hother k hfrom hlt hne) huntil)

theorem getElem?_slots (hfirst : now.windowStart e.limit = .ok first) (hle : first ≤ h)
    (hlt : h < now) (hlive : e.hour? ≠ some h) :
    (e.slots d first now)[(h.toInt - first.toInt).toNat]? = some (e.store.reads d h) := by
  have hnow : h ≠ now := fun e => Int64.lt_irrefl (e ▸ hlt)
  have hslot : slotFor e.live (e.store.reads d) now h = e.store.reads d h := by
    unfold slotFor
    cases hopen : e.live with
    | none => exact if_neg hnow
    | some u =>
      have hu : h ≠ u.hour := by
        rintro rfl
        exact hlive (by rw [hour?, hopen]; rfl)
      simp only [Window.slotOf, if_neg hu, if_neg hnow]
  rw [slots, getElem?_map_span (toInt_windowStart hfirst) hle (Int64.le_of_lt hlt), hslot]

/-- **A row costs its hour.** If databases differ in the slot of one hour only, the series of
reports by hours do. -/
theorem seriesAt_congr (hcond : e.store.SameCondition d d')
    (hfirst : now.windowStart e.limit = .ok first) (hle : first ≤ h)
    (hcell : ∀ k, first ≤ k → k < now → k ≠ h → e.store.cell? d k = e.store.cell? d' k)
    (hr : (e.query .hours now d).result = .ok r) (hr' : (e.query .hours now d').result = .ok r')
    {i : Nat} (hi : i ≠ (h.toInt - first.toInt).toNat) : r.seriesAt i = r'.seriesAt i := by
  have hslot : (e.slots d first now)[i]? = (e.slots d' first now)[i]? :=
    getElem?_slots_congr hfirst hle
      (fun k hk hlt hne => Store.reads_congr hcond (hcell k hk hlt hne)) hi
  rw [seriesAt_eq hfirst hr, seriesAt_eq hfirst hr', hslot]

/-- An hour whose record is missing or cannot be read has nothing in the series. -/
theorem seriesAt_eq_zero (hfirst : now.windowStart e.limit = .ok first) (hle : first ≤ h)
    (hlt : h < now) (hlive : e.hour? ≠ some h)
    (hcell : (e.store.cell? d h).bind Cell.record? = none)
    (hr : (e.query .hours now d).result = .ok r) :
    r.seriesAt (h.toInt - first.toInt).toNat = (some 0, some 0, some 0, some 0) := by
  rw [seriesAt_eq hfirst hr, getElem?_slots hfirst hle hlt hlive, Store.reads_eq_empty hcell]
  rfl

/-- What a query does to the disk is no more than looking into the file. -/
theorem query_disk (e : Engine) (g : Granularity) (now : Hour) (d : Disk) :
    (e.query g now d).disk = d ∨
      ∃ link, e.store.link = some link ∧ (e.query g now d).disk = d.look link := by
  unfold query
  cases now.windowStart e.limit with
  | error o => exact .inl rfl
  | ok first => exact Store.load_disk e.store d first now

/-- A query leaves every file as it is, and the file of the store in its place. -/
theorem query_frame (e : Engine) (g : Granularity) (now : Hour) (d : Disk) :
    (∀ f, f < d.next → (e.query g now d).disk.content f = d.content f) ∧
      ∀ link place, e.store.link = some link → link.place = some place → place ≠ [] →
        (e.query g now d).disk.node place = d.node place := by
  rcases query_disk e g now d with hdisk | ⟨link, hs, hdisk⟩
  · rw [hdisk]
    exact ⟨fun _ _ => rfl, fun _ _ _ _ _ => rfl⟩
  · rw [hdisk]
    refine ⟨fun f hf => content_look link hf, fun link' place hs' hplace hne => ?_⟩
    obtain rfl := Option.some.inj (hs.symm.trans hs')
    exact (ChangedBy.look link d).place place hplace hne

/-- **A query reads its window, and a bad row costs its hour.** Whatever the live hour, the limit,
the clock and the two databases, if these refuse the same:

* With the same in the slots of the window before the present hour, they give the same answer.
* If they differ in the slot of one hour, so do the series of their reports by hours, at the
  place of that hour only; if it is the live hour, the answers are the same.
* A record that is missing or cannot be read counts nothing, as if the empty one were stored.

A query changes nothing but the disk, where every file keeps what it has and the database its
place. -/
theorem query_reads_window :
    (∀ (e : Engine) (d d' : Disk) (g : Granularity) (now : Hour), e.store.SameCondition d d' →
      (∀ first, now.windowStart e.limit = .ok first → ∀ k, first ≤ k → k < now →
        e.store.cell? d k = e.store.cell? d' k) →
      (e.query g now d).result = (e.query g now d').result) ∧
    (∀ (e : Engine) (d d' : Disk) (now first h : Hour), e.store.SameCondition d d' →
      now.windowStart e.limit = .ok first → first ≤ h → h < now →
      (∀ k, first ≤ k → k < now → k ≠ h → e.store.cell? d k = e.store.cell? d' k) →
        (∀ r r', (e.query .hours now d).result = .ok r → (e.query .hours now d').result = .ok r' →
          ∀ i, i ≠ (h.toInt - first.toInt).toNat → r.seriesAt i = r'.seriesAt i) ∧
        (e.hour? = some h → ∀ g, (e.query g now d).result = (e.query g now d').result)) ∧
    (∀ (e : Engine) (d : Disk) (now first h : Hour), now.windowStart e.limit = .ok first →
      first ≤ h → h < now → (e.store.cell? d h).bind Cell.record? = none →
        (e.hour? ≠ some h → ∀ r, (e.query .hours now d).result = .ok r →
          r.seriesAt (h.toInt - first.toInt).toNat = (some 0, some 0, some 0, some 0)) ∧
        ∀ (d' : Disk) (g : Granularity), e.store.SameCondition d d' →
          (∀ k, first ≤ k → k < now → k ≠ h → e.store.cell? d k = e.store.cell? d' k) →
          e.store.cell? d' h = some (.blob (Codec.encode .empty)) →
          (e.query g now d).result = (e.query g now d').result) ∧
    (∀ (s : Session) (g : Granularity),
      (s.step (.query g)).session = { s with disk := (s.step (.query g)).session.disk }) ∧
    (∀ (e : Engine) (g : Granularity) (now : Hour) (d : Disk),
      (∀ f, f < d.next → (e.query g now d).disk.content f = d.content f) ∧
      ∀ link place, e.store.link = some link → link.place = some place → place ≠ [] →
        (e.query g now d).disk.node place = d.node place) := by
  refine ⟨fun e d d' g now hcond hcell => ?_, fun e d d' now first h hcond hfirst hle hlt hcell => ?_,
    fun e d now first h hfirst hle hlt hnone => ?_, fun s g => ?_, query_frame⟩
  · exact query_congr fun first hfirst k hle hlt _ =>
      Store.reads_congr hcond (hcell first hfirst k hle hlt)
  · refine ⟨fun r r' hr hr' i hi => seriesAt_congr hcond hfirst hle hcell hr hr' hi, ?_⟩
    intro hlive g
    refine query_congr fun first' hfirst' k hk hklt hother => ?_
    obtain rfl := Except.ok.inj (hfirst.symm.trans hfirst')
    exact Store.reads_congr hcond (hcell k hk hklt fun e => hother (e ▸ hlive))
  · refine ⟨fun hlive r hr => seriesAt_eq_zero hfirst hle hlt hlive hnone hr, ?_⟩
    intro d' g hcond hcell hempty
    refine query_congr fun first' hfirst' k hk hklt _ => ?_
    obtain rfl := Except.ok.inj (hfirst.symm.trans hfirst')
    by_cases hkh : k = h
    · rw [hkh, Store.reads_eq_empty hnone, Store.reads_eq_empty_of_encode hempty]
    · exact Store.reads_congr hcond (hcell k hk hklt hkh)
  · obtain ⟨base, runtime, clock, disk, engine, store, rotating, spawned⟩ := s
    cases engine <;> rfl

def sampleDiskWith (t : Table) : Disk :=
  { sampleDisk with content := fun _ => .database { table := some t } }

/-- The sample table with rows that are no hour's or in no slot for records. -/
def strewnTable : Table :=
  (sampleTable.put ⟨.blob [1], recordSlot, .text "x"⟩).put ⟨Hour.cell 999, .blob [7], .blob []⟩

/-- The sample table with text in the slot of its hour. -/
def spoiltTable : Table := sampleTable.put ⟨Hour.cell 999, recordSlot, .text "x"⟩

theorem sameCondition_sample (t t' : Table) :
    sample.store.SameCondition (sampleDiskWith t) (sampleDiskWith t') := by
  intro link hs
  obtain rfl := Option.some.inj hs
  rfl

theorem get?_strewnTable (h : Hour) :
    strewnTable.get? h.cell recordSlot = sampleTable.get? h.cell recordSlot := by
  have hunit : ¬ (h.cell = .blob [1] ∧ recordSlot = recordSlot) := by
    rintro ⟨hcell, -⟩
    have hlength := congrArg List.length (Cell.blob.inj hcell)
    rw [length_key] at hlength
    cases hlength
  rw [strewnTable, Table.get?_put, if_neg (fun e => absurd e.2 (by decide)), Table.get?_put,
    if_neg hunit]

theorem get?_spoiltTable {h : Hour} (hne : h ≠ 999) :
    spoiltTable.get? h.cell recordSlot = sampleTable.get? h.cell recordSlot := by
  rw [spoiltTable, Table.get?_put, if_neg fun e => hne (cell_inj.mp e.1)]

theorem query_reads_window_sample :
    (sample.query .hours 1001 (sampleDiskWith strewnTable)).result = .ok sampleReport ∧
    (∃ r, (sample.query .hours 1001 (sampleDiskWith spoiltTable)).result = .ok r ∧
      r.seriesAt 1 = sampleReport.seriesAt 1 ∧
      r.seriesAt 0 = (some 0, some 0, some 0, some 0)) ∧
    (sample.query .hours 1001 sampleDisk).disk.content 0 = sampleDisk.content 0 := by
  obtain ⟨hwindow, hother, hnothing, -, hframe⟩ := query_reads_window
  have hreport : (sample.query .hours 1001 (sampleDiskWith sampleTable)).result =
      .ok sampleReport := toOption_eq_some_iff.mp (by decide +kernel)
  have hfirst : Hour.windowStart 1001 sample.limit = .ok 999 := rfl
  refine ⟨?_, ?_, (hframe sample .hours 1001 sampleDisk).1 0 (by decide)⟩
  · rw [← hreport]
    exact hwindow sample _ _ .hours 1001 (sameCondition_sample _ _)
      fun _ _ k _ _ => get?_strewnTable k
  · have hok : (sample.query .hours 1001 (sampleDiskWith spoiltTable)).result.isOk = true := by
      decide +kernel
    cases hr : (sample.query .hours 1001 (sampleDiskWith spoiltTable)).result with
    | error halt =>
      rw [hr] at hok
      cases hok
    | ok r =>
      have hseries := hother sample (sampleDiskWith spoiltTable) (sampleDiskWith sampleTable) 1001
        999 999 (sameCondition_sample _ _) hfirst (by decide) (by decide)
        fun k _ _ hne => get?_spoiltTable hne
      have hzero := hnothing sample (sampleDiskWith spoiltTable) 1001 999 999 hfirst (by decide)
        (by decide) (by decide +kernel)
      exact ⟨r, rfl, hseries.1 r sampleReport hr hreport 1 (by decide), hzero.1 (by decide) r hr⟩

end Engine
end QueryTally
