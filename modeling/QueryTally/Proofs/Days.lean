import QueryTally.Proofs.Fitting

/-! # Days

A series by days sums the series by hours up, from one closing hour to the next
(`Report.Groups`). Every sum that is taken on the way is part of the total over all hours, so a
report by days comes out exactly if the one by hours does, and agrees with it in all but its
series. A window of whole days has a point for each of them, wherever it begins. -/

namespace QueryTally

open QueryTally.Hour

namespace Report

variable {points before carried : List (Hour × UInt64)} {sum : UInt64} {after : Option Hour}
variable {days : List UInt64}

def closings (hours : List Hour) : List Hour := hours.filter closesDay

/-- What the points count together that come after an hour, if there is one. -/
def countAfter (points : List (Hour × UInt64)) (after : Option Hour) : Nat :=
  exactSum ((points.filter fun p => after.all fun a => decide (a < p.1)).map Prod.snd)

/-- What the points count together that come after an hour, if there is one, and not after
another. -/
def countBetween (points : List (Hour × UInt64)) (after : Option Hour) (last : Hour) : Nat :=
  countAfter (points.filter fun p => decide (p.1 ≤ last)) after

theorem countAfter_append (points more : List (Hour × UInt64)) (after : Option Hour) :
    countAfter (points ++ more) after = countAfter points after + countAfter more after := by
  rw [countAfter, List.filter_append, List.map_append, exactSum_append]
  rfl

theorem countAfter_eq_zero (h : ∀ p ∈ points, ∃ a, after = some a ∧ p.1 ≤ a) :
    countAfter points after = 0 := by
  have hnone : points.filter (fun p => after.all fun a => decide (a < p.1)) = [] := by
    refine List.filter_eq_nil_iff.mpr fun p hp hlater => ?_
    obtain ⟨a, rfl, hle⟩ := h p hp
    exact Int64.not_lt.mpr hle (of_decide_eq_true hlater)
  rw [countAfter, hnone]
  rfl

theorem countAfter_eq_sum (h : ∀ p ∈ points, ∀ a, after = some a → a < p.1) :
    countAfter points after = exactSum (points.map Prod.snd) := by
  have hall : points.filter (fun p => after.all fun a => decide (a < p.1)) = points := by
    refine List.filter_eq_self.mpr fun p hp => ?_
    cases after with
    | none => rfl
    | some a => exact decide_eq_true (h p hp a rfl)
  rw [countAfter, hall]

/-- Of points that go forward in time, those not after one of them are those up to it. -/
theorem filter_le_eq {early late : List (Hour × UInt64)} {p : Hour × UInt64}
    (hsorted : (early ++ p :: late).Pairwise fun p q => p.1 < q.1) :
    (early ++ p :: late).filter (fun q => decide (q.1 ≤ p.1)) = early ++ [p] := by
  obtain ⟨-, hlate, hearly⟩ := List.pairwise_append.mp hsorted
  have hkept : early.filter (fun q => decide (q.1 ≤ p.1)) = early := by
    refine List.filter_eq_self.mpr fun q hq => decide_eq_true ?_
    exact Int64.le_of_lt (hearly q hq p List.mem_cons_self)
  have hdropped : late.filter (fun q => decide (q.1 ≤ p.1)) = [] := by
    refine List.filter_eq_nil_iff.mpr fun q hq hle => ?_
    exact Int64.not_le.mpr ((List.pairwise_cons.mp hlate).1 q hq) (of_decide_eq_true hle)
  have hself : p.1 ≤ p.1 := Int64.le_refl p.1
  rw [List.filter_append, hkept, List.filter_cons, if_pos (decide_eq_true hself), hdropped]

/-- Where a series by days is when it comes to some points: the points `before` have been summed
up to the closing hour `after`, if there was one, and those since then are `carried` in `sum`. -/
structure Carries (before carried points : List (Hour × UInt64)) (after : Option Hour)
    (sum : UInt64) : Prop where
  forward : (before ++ carried ++ points).Pairwise fun p q => p.1 < q.1
  before : ∀ p ∈ before, ∃ a, after = some a ∧ p.1 ≤ a
  since : ∀ p ∈ carried ++ points, ∀ a, after = some a → a < p.1
  sum : sum.toNat = exactSum (carried.map Prod.snd)

section Carries

variable {p : Hour × UInt64} {next : UInt64}

/-- The next hour is carried. -/
theorem Carries.carry (h : Carries before carried (p :: points) after sum)
    (hnext : addCount sum p.2 = .ok next) :
    Carries before (carried ++ [p]) points after next where
  forward := by
    have := h.forward
    rwa [List.append_cons, List.append_assoc before] at this
  before := h.before
  since := by
    rw [← List.append_cons]
    exact h.since
  sum := by
    rw [addCount_eq_ok_iff.mp hnext, h.sum, List.map_append, exactSum_append]
    rfl

/-- The next hour closes a day, and another begins. -/
theorem Carries.close (h : Carries before carried (p :: points) after sum) :
    Carries (before ++ carried ++ [p]) [] points (some p.1) 0 where
  forward := by
    have := h.forward
    rwa [List.append_cons, ← List.append_nil (before ++ carried ++ [p])] at this
  before := by
    obtain ⟨-, -, hearly⟩ := List.pairwise_append.mp h.forward
    intro q hq
    refine ⟨p.1, rfl, ?_⟩
    rcases List.mem_append.mp hq with hq | hq
    · exact Int64.le_of_lt (hearly q hq p List.mem_cons_self)
    · rw [List.mem_singleton.mp hq]
      exact Int64.le_refl p.1
  since := by
    obtain ⟨-, hlate, -⟩ := List.pairwise_append.mp h.forward
    rintro q hq a ⟨⟩
    exact (List.pairwise_cons.mp hlate).1 q hq
  sum := rfl

/-- What is carried up to an hour is the sum of the points from the closing hour to it. -/
theorem Carries.countBetween_eq (h : Carries before carried (p :: points) after sum)
    (hnext : addCount sum p.2 = .ok next) :
    countBetween (before ++ carried ++ p :: points) after p.1 = next.toNat := by
  have hcarried := h.carry hnext
  have hsince : ∀ q ∈ carried ++ [p], ∀ a, after = some a → a < q.1 :=
    fun q hq => hcarried.since q (List.mem_append_left points hq)
  rw [countBetween, filter_le_eq h.forward, List.append_assoc, countAfter_append,
    countAfter_eq_zero h.before, countAfter_eq_sum hsince, Nat.zero_add, hcarried.sum]

end Carries

/-- **Grouping.** Each point of a series by days is the sum of what is between two closing hours,
and only what comes after the last of them is missing. -/
theorem daily_groups (hcarries : Carries before carried points after sum)
    (h : daily sum points = .ok days) :
    days.map UInt64.toNat =
        List.zipWith (countBetween (before ++ carried ++ points))
          (after :: (closings (points.map Prod.fst)).map some) (closings (points.map Prod.fst)) ∧
      exactSum days + countAfter (before ++ carried ++ points)
          ((closings (points.map Prod.fst)).getLast?.or after) =
        exactSum ((carried ++ points).map Prod.snd) := by
  induction points generalizing before carried sum after days with
  | nil =>
    cases h
    have hsince := hcarries.since
    rw [List.append_nil] at hsince ⊢
    refine ⟨rfl, ?_⟩
    change 0 + countAfter (before ++ carried) after = _
    rw [countAfter_append, countAfter_eq_zero hcarries.before, countAfter_eq_sum hsince,
      List.append_nil, Nat.zero_add, Nat.zero_add]
  | cons p points ih =>
    obtain ⟨next, hnext, h⟩ := bind_eq_ok_iff.mp h
    split at h
    · rename_i hcloses
      obtain ⟨later, hlater, h⟩ := bind_eq_ok_iff.mp h
      cases h
      have hclosings : closings ((p :: points).map Prod.fst) =
          p.1 :: closings (points.map Prod.fst) := by
        rw [List.map_cons, closings, List.filter_cons, if_pos hcloses]
        rfl
      have hlast : (p.1 :: closings (points.map Prod.fst)).getLast?.or after =
          (closings (points.map Prod.fst)).getLast?.or (some p.1) := by
        rw [List.getLast?_cons]
        cases (closings (points.map Prod.fst)).getLast? <;> rfl
      -- The rest begins with nothing carried, after this hour.
      obtain ⟨hpoints, hmissing⟩ := ih hcarries.close hlater
      rw [List.append_nil, ← List.append_cons] at hpoints hmissing
      constructor
      · rw [hclosings, List.map_cons, List.map_cons, List.zipWith_cons_cons,
          hcarries.countBetween_eq hnext, hpoints]
      · rw [hclosings, hlast, exactSum_cons, Nat.add_assoc, hmissing, (hcarries.carry hnext).sum,
          List.append_cons carried _ points, List.nil_append, ← exactSum_append, ← List.map_append]
    · rename_i hopen
      have hclosings : closings ((p :: points).map Prod.fst) = closings (points.map Prod.fst) := by
        rw [List.map_cons, closings, List.filter_cons, if_neg hopen]
        rfl
      have hall : before ++ carried ++ p :: points = before ++ (carried ++ [p]) ++ points := by
        rw [List.append_cons, List.append_assoc before]
      rw [hclosings, hall, List.append_cons carried _ points]
      exact ih (hcarries.carry hnext) h

/-- **What a series by days says of the one by hours.** Its first point is the sum up to the first
closing hour, each later one the sum between two closing hours, and the hours after the last
closing hour are all that is missing from the total. -/
structure Groups (hours : List Hour) (hourly days : List UInt64) (total : UInt64) : Prop where
  aligned : hourly.length = hours.length
  length : days.length = (closings hours).length
  first : ∀ last, (closings hours)[0]? = some last →
    ∃ n, days[0]? = some n ∧ n.toNat = countBetween (hours.zip hourly) none last
  next : ∀ k after last, (closings hours)[k]? = some after → (closings hours)[k + 1]? = some last →
    ∃ n, days[k + 1]? = some n ∧ n.toNat = countBetween (hours.zip hourly) (some after) last
  rest : exactSum days + countAfter (hours.zip hourly) (closings hours).getLast? = total.toNat

variable {w : Window} {count : HourRecord → UInt64}

theorem groups_series (hrange : w.InRange) {hourly : List UInt64} {total : UInt64}
    (hhourly : series w .hours count = .ok hourly) (hdays : series w .days count = .ok days)
    (htotal : sumCounts (w.records.map count) = .ok total) :
    Groups (span w.first w.size) hourly days total := by
  cases hhourly
  obtain ⟨hours, hhours, hdaily⟩ := bind_eq_ok_iff.mp hdays
  obtain rfl := Except.ok.inj (hrange.hours_eq.symm.trans hhours)
  have haligned : (w.records.map count).length = (span w.first w.size).length := by
    rw [List.length_map, length_span]
    rfl
  have hfst : ((span w.first w.size).zip (w.records.map count)).map Prod.fst =
      span w.first w.size := List.map_fst_zip (Nat.le_of_eq haligned.symm)
  have hsnd : ((span w.first w.size).zip (w.records.map count)).map Prod.snd =
      w.records.map count := List.map_snd_zip (Nat.le_of_eq haligned)
  have hstart : Carries [] [] ((span w.first w.size).zip (w.records.map count)) none 0 := by
    refine ⟨?_, nofun, nofun, rfl⟩
    have hforward : (span w.first w.size).Pairwise (· < ·) := pairwise_span hrange.last
    rw [← hfst] at hforward
    exact List.pairwise_map.mp hforward
  obtain ⟨hpoints, hmissing⟩ := daily_groups hstart hdaily
  rw [hfst] at hpoints hmissing
  simp only [List.nil_append, hsnd, Option.or_none] at hpoints hmissing
  have hpoint : ∀ (k : Nat) after last,
      (none :: (closings (span w.first w.size)).map some)[k]? = some after →
      (closings (span w.first w.size))[k]? = some last → ∃ n, days[k]? = some n ∧
        n.toNat = countBetween ((span w.first w.size).zip (w.records.map count)) after last := by
    intro k after last hafter hlast
    have hk := congrArg (fun ns => ns[k]?) hpoints
    simp only [List.getElem?_map, List.getElem?_zipWith, hafter, hlast] at hk
    exact Option.map_eq_some_iff.mp hk
  refine ⟨haligned, ?_, fun last hlast => hpoint 0 none last rfl hlast, ?_, ?_⟩
  · have hlength := congrArg List.length hpoints
    rwa [List.length_map, List.length_zipWith, List.length_cons, List.length_map,
      Nat.min_eq_right (Nat.le_succ _)] at hlength
  · intro k after last hafter hlast
    refine hpoint (k + 1) (some after) last ?_ hlast
    rw [List.getElem?_cons_succ, List.getElem?_map, hafter]
    rfl
  · rw [hmissing, toNat_sumCounts htotal]

/-- **Hours and days tell the same story.** The report by days overflows exactly if the one by hours
does. If they come out they differ in their series alone, and the series by days group those by
hours. -/
theorem ofWindow_days (hrange : w.InRange) :
    ((∃ o, ofWindow w .hours = .error o) ↔ ∃ o, ofWindow w .days = .error o) ∧
      ∀ r r', ofWindow w .hours = .ok r → ofWindow w .days = .ok r' →
        ∃ hours, w.hours = .ok hours ∧
          r' = { r with
            queries := r'.queries
            filtered := r'.filtered
            safeBrowsing := r'.safeBrowsing
            parental := r'.parental
            granularity := .days } ∧
          Groups hours r.queries r'.queries r.totalQueries ∧
          Groups hours r.filtered r'.filtered r.totalFiltered ∧
          Groups hours r.safeBrowsing r'.safeBrowsing r.totalSafeBrowsing ∧
          Groups hours r.parental r'.parental r.totalParental := by
  have hlength : w.records.length ≤ (span w.first w.size).length := by
    rw [length_span]
    exact Nat.le_refl _
  refine ⟨?_, fun r r' hr hr' => ⟨_, hrange.hours_eq, ?_⟩⟩
  · rw [exists_error_iff_not_ok, exists_error_iff_not_ok,
      exists_ofWindow_iff hrange.hours_eq hlength, exists_ofWindow_iff hrange.hours_eq hlength]
  · have hmade := madeOf_ofWindow hr
    obtain ⟨hmade', hgranularity⟩ := ofWindow_eq_ok hr'
    have hsame := hmade.eq_of_series hmade'
    rw [hgranularity] at hsame
    exact ⟨hsame, groups_series hrange hmade.queries hmade'.queries hmade.totalQueries,
      groups_series hrange hmade.filtered hmade'.filtered hmade.totalFiltered,
      groups_series hrange hmade.safeBrowsing hmade'.safeBrowsing hmade.totalSafeBrowsing,
      groups_series hrange hmade.parental hmade'.parental hmade.totalParental⟩

/-- Five hours around one that closes a day. -/
def aroundMidnight : Window :=
  { first := -2, records := [1, 2, 3, 4, 5].map fun n => { HourRecord.empty with total := n } }

theorem ofWindow_days_aroundMidnight :
    aroundMidnight.InRange ∧ ∃ r r', ofWindow aroundMidnight .hours = .ok r ∧
      ofWindow aroundMidnight .days = .ok r' ∧ r.queries = [1, 2, 3, 4, 5] ∧ r'.queries = [6] ∧
      Groups [-2, -1, 0, 1, 2] r.queries r'.queries 15 := by
  have hrange : aroundMidnight.InRange := ⟨by decide, by decide⟩
  obtain ⟨hours, hhours, -, hqueries, -⟩ := (ofWindow_days hrange).2 _ _ rfl rfl
  cases hhours
  exact ⟨hrange, _, _, rfl, rfl, rfl, rfl, hqueries⟩

/-! ## Whole days -/

/-- So many consecutive hours close a day as there are multiples of 24 among them. -/
theorem countP_closesDay {first last : Hour} {n : Nat} (hlast : first.toInt + n ≤ last.toInt + 1) :
    ((span first n).countP closesDay : Int) =
      (first.toInt + n + 23) / 24 - (first.toInt + 23) / 24 := by
  induction n with
  | zero => simp [span]
  | succ n ih =>
    have hbefore : first.toInt + n ≤ last.toInt := by omega
    have hcloses : closesDay (Int64.ofInt (first.toInt + n)) = ((first.toInt + n) % 24 == 0) := by
      rw [closesDay, toInt_ofInt_add hbefore]
    rw [span_succ, List.countP_append, List.countP_singleton, hcloses, Int.natCast_add,
      ih (by omega)]
    by_cases hmultiple : (first.toInt + n) % 24 = 0
    · rw [if_pos (beq_iff_eq.mpr hmultiple)]
      omega
    · rw [if_neg (mt beq_iff_eq.mp hmultiple)]
      omega

def pointsOf (g : Granularity) (n : Nat) : Nat :=
  match g with
  | .hours => 24 * n
  | .days => n

/-- **A point for each day.** Wherever they begin, the hours of some days close each of them
once. -/
theorem pointCount_of_whole {first last : Hour} {size n : Nat} (hsize : size = 24 * n)
    (hlast : first.toInt + size ≤ last.toInt + 1) (g : Granularity) :
    pointCount g (span first size) = pointsOf g n := by
  cases g with
  | hours => exact (length_span first size).trans hsize
  | days =>
    have hcount := countP_closesDay hlast
    change (span first size).countP closesDay = n
    omega

theorem length_series_of_whole {g : Granularity} {n : Nat} {hourly : List UInt64}
    (hrange : w.InRange) (hsize : w.size = 24 * n) (h : series w g count = .ok hourly) :
    hourly.length = pointsOf g n := by
  have hlength : (span w.first w.size).length = w.records.length := by
    rw [length_span]
    rfl
  rw [length_series hrange.hours_eq hlength h]
  exact pointCount_of_whole hsize hrange.last g

end Report
end QueryTally
