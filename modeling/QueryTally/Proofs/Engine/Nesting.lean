import QueryTally.Proofs.Engine.Intervals

/-! # Nested windows

Two windows that end with the same hour have the same record for each hour of the shorter one. So
the series by hours of the one end those of the other, its totals are no greater, and the series
by days differ, from the right end, in nothing but the first day of the shorter window, of which
that has no more than the longer one (`Report.series_days_ends`). -/

namespace QueryTally

open QueryTally.Hour

theorem Hour.span_append {first next : Hour} {m : Nat} (hnext : next.toInt = first.toInt + m)
    (n : Nat) : span first (m + n) = span first m ++ span next n := by
  rw [span, span, span, List.range_add, List.map_append, List.map_map]
  refine congrArg (_ ++ ·) (List.map_congr_left fun i _ => ?_)
  rw [Function.comp_apply, hnext, Int.natCast_add, Int.add_assoc]

/-- A window that has the records of another one after some earlier ones. -/
structure Window.Ends (w w' : Window) (earlier : List HourRecord) : Prop where
  records : w'.records = earlier ++ w.records
  first : w.first.toInt = w'.first.toInt + earlier.length
  inRange : w'.InRange

namespace Window.Ends

variable {w w' : Window} {earlier : List HourRecord}

theorem size_eq (h : w.Ends w' earlier) : w'.size = earlier.length + w.size := by
  rw [Window.size, h.records, List.length_append]
  rfl

theorem inRange_left (h : w.Ends w' earlier) : w.InRange := by
  have hsize := h.size_eq
  have hfirst := h.first
  obtain ⟨hwhole, hlast⟩ := h.inRange
  exact ⟨by omega, by omega⟩

end Window.Ends

namespace Report

variable {w w' : Window} {earlier : List HourRecord} {count : HourRecord → UInt64}
variable {points : List (Hour × UInt64)} {sum sum' : UInt64} {days days' : List UInt64}

/-- A series by days over points shows some days, and goes on with what it carries. -/
theorem exists_daily_append {early : List (Hour × UInt64)}
    (h : daily sum (early ++ points) = .ok days) :
    ∃ shown carried later, days = shown ++ later ∧ daily carried points = .ok later := by
  induction early generalizing sum days with
  | nil => exact ⟨[], sum, days, rfl, h⟩
  | cons p early ih =>
    obtain ⟨next, -, h⟩ := bind_eq_ok_iff.mp h
    split at h
    · obtain ⟨rest, hrest, h⟩ := bind_eq_ok_iff.mp h
      cases h
      obtain ⟨shown, carried, later, rfl, hlater⟩ := ih hrest
      exact ⟨next :: shown, carried, later, rfl, hlater⟩
    · exact ih h

/-- What is carried over goes to the first day alone. -/
theorem daily_carried (hle : sum ≤ sum') (h : daily sum points = .ok days)
    (h' : daily sum' points = .ok days') :
    days = [] ∧ days' = [] ∨ ∃ n n' later, days = n :: later ∧ days' = n' :: later ∧ n ≤ n' := by
  induction points generalizing sum sum' with
  | nil =>
    cases h
    cases h'
    exact .inl ⟨rfl, rfl⟩
  | cons p points ih =>
    obtain ⟨next, hnext, h⟩ := bind_eq_ok_iff.mp h
    obtain ⟨next', hnext', h'⟩ := bind_eq_ok_iff.mp h'
    have hnexts : next ≤ next' := by
      rw [UInt64.le_iff_toNat_le] at hle ⊢
      rw [addCount_eq_ok_iff.mp hnext, addCount_eq_ok_iff.mp hnext']
      exact Nat.add_le_add_right hle _
    split at h
    · rename_i hcloses
      rw [if_pos hcloses] at h'
      obtain ⟨later, hlater, h⟩ := bind_eq_ok_iff.mp h
      obtain ⟨later', hlater', h'⟩ := bind_eq_ok_iff.mp h'
      cases h
      cases h'
      obtain rfl := Except.ok.inj (hlater.symm.trans hlater')
      exact .inr ⟨next, next', later, rfl, rfl, hnexts⟩
    · rename_i hopen
      rw [if_neg hopen] at h'
      exact ih hnexts h h'

/-- **Series by hours** over nested windows. -/
theorem series_hours_ends (hends : w.Ends w' earlier) {hourly hourly' : List UInt64}
    (h : series w .hours count = .ok hourly) (h' : series w' .hours count = .ok hourly') :
    hourly <:+ hourly' := by
  cases h
  cases h'
  rw [hends.records, List.map_append]
  exact List.suffix_append _ _

/-- **Series by days** over nested windows. -/
theorem series_days_ends (hends : w.Ends w' earlier) (h : series w .days count = .ok days)
    (h' : series w' .days count = .ok days') :
    ∃ shown later, days' = shown ++ later ∧ (days = [] ∧ later = [] ∨
      ∃ n n' rest, days = n :: rest ∧ later = n' :: rest ∧ n ≤ n') := by
  obtain ⟨hours, hhours, h⟩ := bind_eq_ok_iff.mp h
  obtain ⟨hours', hhours', h'⟩ := bind_eq_ok_iff.mp h'
  obtain rfl := Except.ok.inj (hends.inRange_left.hours_eq.symm.trans hhours)
  obtain rfl := Except.ok.inj (hends.inRange.hours_eq.symm.trans hhours')
  have hlength : (span w'.first earlier.length).length = (earlier.map count).length := by
    rw [length_span, List.length_map]
  rw [hends.size_eq, span_append hends.first, hends.records, List.map_append,
    List.zip_append hlength] at h'
  obtain ⟨shown, carried, later, rfl, hlater⟩ := exists_daily_append h'
  exact ⟨shown, later, rfl, daily_carried UInt64.zero_le h hlater⟩

/-- **Totals** over nested windows. -/
theorem total_le_ends (hends : w.Ends w' earlier) {n n' : UInt64}
    (h : sumCounts (w.records.map count) = .ok n) (h' : sumCounts (w'.records.map count) = .ok n') :
    n ≤ n' := by
  rw [UInt64.le_iff_toNat_le, toNat_sumCounts h, toNat_sumCounts h', hends.records,
    List.map_append, exactSum_append]
  exact Nat.le_add_left _ _

end Report

namespace Engine

variable {e : Engine} {d : Disk} {g g' : Granularity} {now : Hour} {r r' : Report}

/-- Windows that end with the present hour are nested. -/
theorem ends_windowWith (live : Option LiveHour) (stored : Hour → HourRecord) {limit limit' : UInt32}
    {first first' : Hour} (hle : limit.toNat ≤ limit'.toNat)
    (hfirst : now.windowStart limit = .ok first) (hfirst' : now.windowStart limit' = .ok first') :
    (windowWith live stored limit first now).Ends (windowWith live stored limit' first' now)
      ((span first' (limit'.toNat - limit.toNat)).map (slotFor live stored now)) := by
  have hstart := toInt_windowStart hfirst
  have hstart' := toInt_windowStart hfirst'
  have hnext : first.toInt = first'.toInt + (limit'.toNat - limit.toNat : Nat) := by omega
  refine ⟨?_, ?_, Window.inRange_of_last (size_windowWith live stored limit' first' now) hstart'⟩
  · have hsplit := span_append hnext limit.toNat
    rw [Nat.sub_add_cancel hle] at hsplit
    rw [windowWith, windowWith, hsplit, List.map_append]
  · rw [List.length_map, length_span]
    exact hnext

/-! ## Two intervals -/

section Intervals

variable {a b : Int32} (ha : Accepts a) (hb : Accepts b) (hab : a ≤ b)

include ha hb hab in
/-- The windows that two intervals make. -/
theorem ends_configure (hr : ((e.configure a).1.query g now d).result = .ok r)
    (hr' : ((e.configure b).1.query g' now d).result = .ok r') :
    ∃ w w' earlier, Window.Ends w w' earlier ∧ Report.ofWindow w g = .ok r ∧
      Report.ofWindow w' g' = .ok r' := by
  have hle : (e.configure a).1.limit.toNat ≤ (e.configure b).1.limit.toNat := by
    rw [toNat_limit_configure ha, toNat_limit_configure hb]
    have := Int32.le_iff_toInt_le.mp hab
    omega
  obtain ⟨hlive, hstore⟩ := e.configure_keeps a
  obtain ⟨hlive', hstore'⟩ := e.configure_keeps b
  rw [query_result, mapError_eq_ok_iff, hlive, hstore] at hr
  rw [query_result, mapError_eq_ok_iff, hlive', hstore'] at hr'
  obtain ⟨first, hfirst, hreport⟩ := reportWith_eq_ok hr
  obtain ⟨first', hfirst', hreport'⟩ := reportWith_eq_ok hr'
  exact ⟨_, _, _, ends_windowWith e.live (e.store.reads d) hle hfirst hfirst', hreport, hreport'⟩

include ha hb hab in
/-- **By hours** the shorter interval has the end of what the longer one has. -/
theorem nested_hours (hr : ((e.configure a).1.query .hours now d).result = .ok r)
    (hr' : ((e.configure b).1.query .hours now d).result = .ok r') :
    ∀ pick ∈ Report.everySeries, (pick r).length = 24 * a.toInt.toNat ∧ pick r <:+ pick r' := by
  obtain ⟨w, w', earlier, hends, hreport, hreport'⟩ := ends_configure ha hb hab hr hr'
  intro pick hpick
  obtain ⟨count, hseries⟩ := Report.exists_series_eq pick hpick
  exact ⟨length_of_query (toNat_limit_configure ha e) hr pick hpick,
    Report.series_hours_ends hends (hseries hreport) (hseries hreport')⟩

include ha hb hab in
/-- **The totals** of the shorter interval are no greater. -/
theorem nested_totals (hr : ((e.configure a).1.query g now d).result = .ok r)
    (hr' : ((e.configure b).1.query g' now d).result = .ok r') :
    ∀ pick ∈ Report.everyTotal, pick r ≤ pick r' := by
  obtain ⟨w, w', earlier, hends, hreport, hreport'⟩ := ends_configure ha hb hab hr hr'
  intro pick hpick
  obtain ⟨count, htotal⟩ := Report.exists_total_eq hpick
  exact Report.total_le_ends hends (htotal hreport) (htotal hreport')

include ha hb hab in
/-- **By days** the shorter interval has the end of what the longer one has, but for the first of
its days, of which it has no more. -/
theorem nested_days (hpos : 1 ≤ a) (hr : ((e.configure a).1.query .days now d).result = .ok r)
    (hr' : ((e.configure b).1.query .days now d).result = .ok r') :
    ∀ pick ∈ Report.everySeries, ∃ shown n n' later, pick r = n :: later ∧
      pick r' = shown ++ n' :: later ∧ n ≤ n' ∧ later.length + 1 = a.toInt.toNat ∧
      shown.length + a.toInt.toNat = b.toInt.toNat := by
  obtain ⟨w, w', earlier, hends, hreport, hreport'⟩ := ends_configure ha hb hab hr hr'
  intro pick hpick
  obtain ⟨count, hseries⟩ := Report.exists_series_eq pick hpick
  obtain ⟨shown, later, hdays', hlater⟩ :=
    Report.series_days_ends hends (hseries hreport) (hseries hreport')
  have hlength : (pick r).length = a.toInt.toNat :=
    length_of_query (toNat_limit_configure ha e) hr pick hpick
  have hlength' : (pick r').length = b.toInt.toNat :=
    length_of_query (toNat_limit_configure hb e) hr' pick hpick
  rcases hlater with ⟨hnone, -⟩ | ⟨n, n', rest, hdays, rfl, hle⟩
  · have hone : (1 : Int) ≤ a.toInt := Int32.le_iff_toInt_le.mp hpos
    rw [hnone, List.length_nil] at hlength
    omega
  · rw [hdays, List.length_cons] at hlength
    rw [hdays', List.length_append, List.length_cons] at hlength'
    exact ⟨shown, n, n', rest, hdays, hdays', hle, hlength, by omega⟩

end Intervals

end Engine
end QueryTally
