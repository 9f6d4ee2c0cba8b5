import QueryTally.Proofs.Engine.Reading
import QueryTally.Proofs.Fitting

/-! # Every query is answered

A query gives a report, or stops with an overflow that can be told from the window, the live hour
and the records alone; its window is never of the wrong size. By hours a report has an entry for
each retained hour, and each is made of the record of its own hour. -/

namespace QueryTally

open QueryTally.Hour

namespace Store

variable {s : Store} {d : Disk} {h : Hour} {record : HourRecord}

/-- The store has a record of an hour that can be read and decoded. -/
def Finds (s : Store) (d : Disk) (h : Hour) (record : HourRecord) : Prop :=
  ∃ t, (s.begin d false).1 = some t ∧ t.get h = .ok (some record)

theorem reads_of_finds (hfinds : s.Finds d h record) : s.reads d h = record := by
  obtain ⟨t, ht, hget⟩ := hfinds
  simp only [reads, ht, Transaction.found, hget]

theorem reads_of_not_finds (hnone : ∀ record, ¬ s.Finds d h record) : s.reads d h = .empty := by
  unfold reads
  cases ht : (s.begin d false).1 with
  | none => rfl
  | some t =>
    dsimp only
    unfold Transaction.found
    split
    · rename_i record hget
      exact absurd ⟨t, ht, hget⟩ (hnone record)
    · rfl

end Store

namespace Engine

variable {e : Engine} {d : Disk} {g : Granularity} {now first h : Hour} {r : Report}
variable {record : HourRecord}

/-- The record that a query takes for an hour of its window: that of the live hour if it is this
one, the one that is stored if the hour is over and it can be read, and else the empty one. -/
structure Takes (e : Engine) (d : Disk) (now h : Hour) (record : HourRecord) : Prop where
  live : ∀ u, e.live = some u → u.hour = h → record = u.toRecord
  stored : e.hour? ≠ some h → h < now → ∀ found, e.store.Finds d h found → record = found
  unread : e.hour? ≠ some h → h < now → (∀ found, ¬ e.store.Finds d h found) → record = .empty
  present : e.hour? ≠ some h → ¬ h < now → record = .empty

theorem takes_slotFor (e : Engine) (d : Disk) (hle : h ≤ now) :
    e.Takes d now h (slotFor e.live (e.store.reads d) now h) := by
  have hother : e.hour? ≠ some h → slotFor e.live (e.store.reads d) now h =
      if h = now then .empty else e.store.reads d h := by
    intro hne
    unfold slotFor
    cases hlive : e.live with
    | none => rfl
    | some u =>
      have hu : h ≠ u.hour := by
        rintro rfl
        exact hne (by rw [hour?, hlive]; rfl)
      exact if_neg hu
  have hpast : h < now → h ≠ now := fun hlt e => Int64.lt_irrefl (e ▸ hlt)
  refine ⟨fun u hlive hu => ?_, fun hne hlt found hfinds => ?_, fun hne hlt hnone => ?_,
    fun hne hnlt => ?_⟩
  · simp only [slotFor, hlive, Window.slotOf, hu, if_true]
  · rw [hother hne, if_neg (hpast hlt), Store.reads_of_finds hfinds]
  · rw [hother hne, if_neg (hpast hlt), Store.reads_of_not_finds hnone]
  · have hnow : h = now := by
      refine Decidable.byContradiction fun hne' => hnlt ?_
      exact Int64.lt_of_le_of_ne hle hne'
    rw [hother hne, if_pos hnow]

/-- **When a query gives a report.** -/
theorem exists_query_ok_iff : (∃ r, (e.query g now d).result = .ok r) ↔
    ∃ first, now.windowStart e.limit = .ok first ∧
      (∀ u, e.live = some u → Fits (u.hour.toInt - first.toInt)) ∧
      Report.Fit (e.slots d first now) := by
  simp only [query_result, mapError_eq_ok_iff]
  unfold reportWith
  rw [exists_bind_eq_ok_iff]
  refine exists_congr fun first => and_congr_right fun hfirst => ?_
  rw [exists_bind_eq_ok_iff]
  have hsize := size_windowWith e.live (e.store.reads d) e.limit first now
  have hhours : (windowWith e.live (e.store.reads d) e.limit first now).hours =
      .ok (span first e.limit.toNat) :=
    Window.hours_eq hsize (toInt_windowStart hfirst)
  have hlength : (windowWith e.live (e.store.reads d) e.limit first now).records.length ≤
      (span first e.limit.toNat).length := by
    rw [length_span]
    exact Nat.le_of_eq hsize
  rw [Report.exists_ofWindow_iff hhours hlength, exists_and_right]
  refine and_congr_left fun _ => ?_
  cases e.live with
  | none => exact ⟨fun _ => nofun, fun _ => ⟨first, rfl⟩⟩
  | some u =>
    refine exists_minus_iff.trans ⟨fun hfits v hv => ?_, fun hall => hall u rfl⟩
    obtain rfl := Option.some.inj hv
    exact hfits

/-- **The entries of a report by hours.** -/
theorem seriesAt_takes (hfirst : now.windowStart e.limit = .ok first)
    (hr : (e.query .hours now d).result = .ok r) {i : Nat} (hi : i < e.limit.toNat) :
    ∃ h record, h.toInt = now.toInt - e.limit.toNat + 1 + i ∧ e.Takes d now h record ∧
      r.seriesAt i = (some record.total, some (record.count .filtered),
        some (record.count .safeBrowsing), some (record.count .parental)) := by
  have hwidth := toInt_windowStart hfirst
  have hlast : first.toInt + i ≤ now.toInt := by omega
  have hplace : (Int64.ofInt (first.toInt + i)).toInt = first.toInt + i := toInt_ofInt_add hlast
  have hle : Int64.ofInt (first.toInt + i) ≤ now := Int64.le_iff_toInt_le.mpr (by omega)
  have hget : (e.slots d first now)[i]? =
      some (slotFor e.live (e.store.reads d) now (Int64.ofInt (first.toInt + i))) := by
    have hspan : i < (span first e.limit.toNat).length := by rwa [length_span]
    rw [slots, List.getElem?_map, List.getElem?_eq_getElem hspan, getElem_span]
    rfl
  refine ⟨_, _, by omega, takes_slotFor e d hle, ?_⟩
  have hseries := seriesAt_eq hfirst hr i
  dsimp only at hseries
  rw [hseries, hget]
  rfl

/-- **The points of a report** are counted by the hours of its window. -/
theorem length_everySeries (hfirst : now.windowStart e.limit = .ok first)
    (hr : (e.query g now d).result = .ok r) : ∀ pick ∈ Report.everySeries,
      (pick r).length = Report.pointCount g (span first e.limit.toNat) := by
  rw [query_result, mapError_eq_ok_iff] at hr
  obtain ⟨first', hfirst', hreport⟩ := reportWith_eq_ok hr
  obtain rfl := Except.ok.inj (hfirst.symm.trans hfirst')
  intro pick hpick
  obtain ⟨count, hseries⟩ := Report.exists_series_eq pick hpick
  have hsize := size_windowWith e.live (e.store.reads d) e.limit first now
  have hlength : (span first e.limit.toNat).length =
      (windowWith e.live (e.store.reads d) e.limit first now).records.length := by
    rw [length_span]
    exact hsize.symm
  exact Report.length_series (Window.hours_eq hsize (toInt_windowStart hfirst)) hlength
    (hseries hreport)

/-- A query that gives a report has found its window. -/
theorem exists_first (hr : (e.query g now d).result = .ok r) :
    ∃ first, now.windowStart e.limit = .ok first := by
  rw [query_result, mapError_eq_ok_iff] at hr
  obtain ⟨first, hfirst, -⟩ := reportWith_eq_ok hr
  exact ⟨first, hfirst⟩

theorem length_series (hr : (e.query .hours now d).result = .ok r) :
    r.queries.length = e.limit.toNat ∧ r.filtered.length = e.limit.toNat ∧
      r.safeBrowsing.length = e.limit.toNat ∧ r.parental.length = e.limit.toNat := by
  obtain ⟨first, hfirst⟩ := exists_first hr
  have hpoints := length_everySeries hfirst hr
  rw [Report.pointCount, length_span] at hpoints
  exact Report.forall_everySeries.mp hpoints

/-- An answer is a report or an overflow. -/
theorem query_cases (e : Engine) (g : Granularity) (now : Hour) (d : Disk) :
    (∃ r, (e.query g now d).result = .ok r) ∨ ∃ o, (e.query g now d).result = .error (.overflow o) := by
  rw [query_result]
  cases reportWith e.live (e.store.reads d) e.limit g now with
  | ok r => exact .inl ⟨r, rfl⟩
  | error o => exact .inr ⟨o, rfl⟩

/-- **When a query overflows.** -/
theorem exists_query_overflow_iff : (∃ o, (e.query g now d).result = .error (.overflow o)) ↔
    ¬ Fits (now.toInt - e.limit.toNat) ∨ ¬ Fits (now.toInt - e.limit.toNat + 1) ∨
    ∃ first, now.windowStart e.limit = .ok first ∧
      ((∃ u, e.live = some u ∧ ¬ Fits (u.hour.toInt - first.toInt)) ∨
        ¬ Report.Fit (e.slots d first now)) := by
  have hover : (∃ o, (e.query g now d).result = .error (.overflow o)) ↔
      ¬ ∃ r, (e.query g now d).result = .ok r := by
    refine ⟨fun ⟨o, ho⟩ ⟨r, hr⟩ => ?_, fun hnone => (e.query_cases g now d).resolve_left hnone⟩
    cases ho.symm.trans hr
  rw [hover, exists_query_ok_iff]
  constructor
  · intro hnone
    by_cases hstart : ∃ first, now.windowStart e.limit = .ok first
    · obtain ⟨first, hfirst⟩ := hstart
      refine .inr (.inr ⟨first, hfirst, ?_⟩)
      by_cases hfit : Report.Fit (e.slots d first now)
      · refine .inl (Classical.byContradiction fun hlive => ?_)
        refine hnone ⟨first, hfirst, fun u hu => ?_, hfit⟩
        exact Classical.byContradiction fun hu' => hlive ⟨u, hu, hu'⟩
      · exact .inr hfit
    · rw [exists_windowStart_iff, Classical.not_and_iff_not_or_not] at hstart
      exact hstart.imp_right .inl
  · rintro hbad ⟨first, hfirst, hlive, hfit⟩
    obtain ⟨hbefore, hafter⟩ := exists_windowStart_iff.mp ⟨first, hfirst⟩
    rcases hbad with h | h | ⟨first', hfirst', hbad⟩
    · exact h hbefore
    · exact h hafter
    · obtain rfl := Except.ok.inj (hfirst.symm.trans hfirst')
      rcases hbad with ⟨u, hu, hu'⟩ | hunfit
      · exact hu' (hlive u hu)
      · exact hunfit hfit

/-- **Every query is answered.** Whatever the live hour, the limit, the clock, the unit of time
and the state of the store and its disk, a query does not fail. It overflows if one of the two
steps from the present hour to the first of the window leaves the hours, if the distance of the
live hour from the first one does, or if a sum over the records of the window is no word; and for
no other reason. Otherwise it gives a report, which by hours has an entry for each retained hour
in each of its series, made of the record that is taken for this hour. -/
theorem query_answers (e : Engine) (g : Granularity) (now : Hour) (d : Disk) :
    (∀ f, (e.query g now d).result ≠ .error (.failure f)) ∧
    ((∃ o, (e.query g now d).result = .error (.overflow o)) ↔
      ¬ Fits (now.toInt - e.limit.toNat) ∨ ¬ Fits (now.toInt - e.limit.toNat + 1) ∨
      ∃ first, now.windowStart e.limit = .ok first ∧
        ((∃ u, e.live = some u ∧ ¬ Fits (u.hour.toInt - first.toInt)) ∨
          ¬ Report.Fit (e.slots d first now))) ∧
    ((∃ o, (e.query g now d).result = .error (.overflow o)) ∨
      ∃ r, (e.query g now d).result = .ok r) ∧
    ∀ r, (e.query .hours now d).result = .ok r →
      (r.queries.length = e.limit.toNat ∧ r.filtered.length = e.limit.toNat ∧
        r.safeBrowsing.length = e.limit.toNat ∧ r.parental.length = e.limit.toNat) ∧
      ∀ i < e.limit.toNat, ∃ h record, h.toInt = now.toInt - e.limit.toNat + 1 + i ∧
        e.Takes d now h record ∧
        r.seriesAt i = (some record.total, some (record.count .filtered),
          some (record.count .safeBrowsing), some (record.count .parental)) := by
  refine ⟨fun f hf => ?_, exists_query_overflow_iff, (e.query_cases g now d).symm,
    fun r hr => ⟨length_series hr, ?_⟩⟩
  · rcases e.query_cases g now d with ⟨r, hr⟩ | ⟨o, ho⟩
    · cases hf.symm.trans hr
    · cases hf.symm.trans ho
  · obtain ⟨first, hfirst, -⟩ := exists_query_ok_iff.mp ⟨r, hr⟩
    exact fun i hi => seriesAt_takes hfirst hr hi

def storedRecord : HourRecord :=
  { total := 5, results := [5, 0, 0, 0, 0], domains := [⟨"example.org", 5⟩] }

theorem finds_storedRecord : sample.store.Finds sampleDisk 999 storedRecord := by
  have hany : ((sample.store.begin sampleDisk false).1.any fun t =>
      decide ((t.get 999).toOption = some (some storedRecord))) = true := by decide +kernel
  obtain ⟨t, ht, hget⟩ := (Option.any_eq_true _ _).mp hany
  exact ⟨t, ht, toOption_eq_some_iff.mp (of_decide_eq_true hget)⟩

/-- A live hour at the very beginning is too far from the window. The hours of the sample are not:
the one that is stored and the live one have their entries, of their own records. -/
theorem query_answers_sample :
    (∃ o, ({ sample with live := some (LiveHour.start Int64.minValue) }.query .days 1001
      sampleDisk).result = .error (.overflow o)) ∧
    (∃ h, h.toInt = 999 ∧ sample.store.Finds sampleDisk h storedRecord ∧
      sample.Takes sampleDisk 1001 h storedRecord ∧
      sampleReport.seriesAt 0 = (some 5, some 0, some 0, some 0)) ∧
    ∃ h record, h.toInt = 1000 ∧ sample.Takes sampleDisk 1001 h record ∧
      sampleReport.seriesAt 1 = (some record.total, some (record.count .filtered),
        some (record.count .safeBrowsing), some (record.count .parental)) := by
  obtain ⟨-, hover, -, -⟩ :=
    query_answers { sample with live := some (LiveHour.start Int64.minValue) } .days 1001 sampleDisk
  obtain ⟨-, -, -, hreports⟩ := query_answers sample .hours 1001 sampleDisk
  have hentries := (hreports sampleReport (toOption_eq_some_iff.mp (by decide +kernel))).2
  refine ⟨hover.mpr (.inr (.inr ⟨999, rfl, .inl ⟨_, rfl, by decide⟩⟩)), ?_, hentries 1 (by decide)⟩
  obtain ⟨h, record, hhour, htakes, hseries⟩ := hentries 0 (by decide)
  obtain rfl : h = 999 := Int64.toInt_inj.mp hhour
  -- The hour is over and not the live one, so that the record is the one that is found.
  obtain rfl := htakes.stored (by decide) (by decide) storedRecord finds_storedRecord
  exact ⟨999, rfl, finds_storedRecord, htakes, hseries⟩

end Engine
end QueryTally
