import QueryTally.Proofs.Ranking
import QueryTally.Proofs.Window

/-! # Reports that come out

A report is made of checked sums over the records of its window. It comes out exactly if each of
them is a word (`Report.Fit`): the sums by days are parts of the totals, and the hours of a window
are hours. -/

namespace QueryTally

theorem exists_ite_eq_ok_iff {ε α : Type} {p : Prop} [Decidable p] {a : α} {e : ε} :
    (∃ b, (if p then .ok a else .error e : Except ε α) = .ok b) ↔ p := by
  by_cases hp : p
  · simp [hp]
  · simp [hp]

theorem exists_error_iff_not_ok {ε α : Type} {x : Except ε α} :
    (∃ e, x = .error e) ↔ ¬ ∃ a, x = .ok a := by
  cases x with
  | ok a => exact ⟨nofun, fun hnone => absurd ⟨a, rfl⟩ hnone⟩
  | error e => exact ⟨fun _ => nofun, fun _ => ⟨e, rfl⟩⟩

theorem exists_bind_eq_ok_iff {ε α β : Type} {x : Except ε α} {f : α → Except ε β} :
    (∃ b, (x >>= f) = .ok b) ↔ ∃ a, x = .ok a ∧ ∃ b, f a = .ok b := by
  simp only [bind_eq_ok_iff]
  rw [exists_comm]
  simp only [exists_and_left]

theorem mapM_eq_ok {ε α β : Type} {f : α → Except ε β} {g : α → β} {xs : List α}
    (h : ∀ x ∈ xs, f x = .ok (g x)) : xs.mapM f = .ok (xs.map g) := by
  induction xs with
  | nil => rfl
  | cons x xs ih =>
    obtain ⟨hx, hxs⟩ := List.forall_mem_cons.mp h
    rw [List.mapM_cons, hx, ih hxs]
    rfl

/-! ## Sums -/

theorem exists_addCount_iff {a b : UInt64} :
    (∃ c, addCount a b = .ok c) ↔ a.toNat + b.toNat < UInt64.size :=
  exists_ite_eq_ok_iff

theorem exists_foldlM_addCount_iff {xs : List UInt64} {a : UInt64} :
    (∃ n, xs.foldlM addCount a = .ok n) ↔ a.toNat + exactSum xs < UInt64.size := by
  induction xs generalizing a with
  | nil => exact ⟨fun _ => a.toNat_lt_size, fun _ => ⟨a, rfl⟩⟩
  | cons x xs ih =>
    rw [List.foldlM_cons, exists_bind_eq_ok_iff, exactSum_cons, ← Nat.add_assoc]
    constructor
    · rintro ⟨b, hb, hrest⟩
      rw [← addCount_eq_ok_iff.mp hb]
      exact ih.mp hrest
    · intro hlt
      obtain ⟨b, hb⟩ := exists_addCount_iff.mpr (Nat.lt_of_le_of_lt (Nat.le_add_right _ _) hlt)
      rw [← addCount_eq_ok_iff.mp hb] at hlt
      exact ⟨b, hb, ih.mpr hlt⟩

theorem exists_sumCounts_iff {xs : List UInt64} :
    (∃ n, sumCounts xs = .ok n) ↔ exactSum xs < UInt64.size := by
  unfold sumCounts
  rw [exists_foldlM_addCount_iff, UInt64.toNat_zero, Nat.zero_add]

/-- Counts of zero add nothing. -/
theorem exactSum_filter_ne_zero (xs : List UInt64) :
    exactSum (xs.filter (· != 0)) = exactSum xs := by
  induction xs with
  | nil => rfl
  | cons x xs ih =>
    by_cases hx : x = 0
    · simp [hx, ih]
    · simp [hx, ih]

namespace Tally

variable {t : Tally} {ps : List CountPair}

theorem exists_bump_iff {name : String} {n : UInt64} :
    (∃ t', t.bump name n = .ok t') ↔ t.countOf name + n.toNat < UInt64.size := by
  unfold bump
  rw [exists_bind_eq_ok_iff, countOf, ← exists_addCount_iff]
  exact exists_congr fun total => and_iff_left ⟨_, rfl⟩

/-- Pairs can be added to a tally if the count of every name stays a word. -/
theorem exists_foldlM_bump_iff :
    (∃ t', ps.foldlM (fun t p => t.bump p.name p.count) t = .ok t') ↔
      ∀ name, t.countOf name + countIn ps name < UInt64.size := by
  induction ps generalizing t with
  | nil => exact ⟨fun _ name => ((t.get? name).getD 0).toNat_lt_size, fun _ => ⟨t, rfl⟩⟩
  | cons p ps ih =>
    have hcount : ∀ {t₁ : Tally}, t.bump p.name p.count = .ok t₁ → ∀ name,
        t₁.countOf name + countIn ps name = t.countOf name + countIn (p :: ps) name := by
      intro t₁ hbump name
      rw [countOf_bump hbump, countIn_cons, Nat.add_assoc]
    rw [List.foldlM_cons, exists_bind_eq_ok_iff]
    constructor
    · rintro ⟨t₁, hbump, hrest⟩ name
      rw [← hcount hbump]
      exact ih.mp hrest name
    · intro hall
      have hname := hall p.name
      rw [countIn_cons, if_pos rfl, ← Nat.add_assoc] at hname
      obtain ⟨t₁, hbump⟩ := exists_bump_iff.mpr (Nat.lt_of_le_of_lt (Nat.le_add_right _ _) hname)
      refine ⟨t₁, hbump, ih.mpr fun name => ?_⟩
      rw [hcount hbump]
      exact hall name

theorem exists_sum_iff : (∃ t, Tally.sum ps = .ok t) ↔ ∀ name, countIn ps name < UInt64.size := by
  refine exists_foldlM_bump_iff.trans (forall_congr' fun name => ?_)
  have hnone : (empty.countOf name) = 0 := rfl
  rw [hnone, Nat.zero_add]

end Tally

theorem exists_mergeTop_iff {lists : List (List CountPair)} {limit : Nat} :
    (∃ merged, mergeTop lists limit = .ok merged) ↔
      ∀ name, countIn lists.flatten name < UInt64.size := by
  unfold mergeTop
  rw [exists_bind_eq_ok_iff, ← Tally.exists_sum_iff]
  exact exists_congr fun t => and_iff_left ⟨_, rfl⟩

/-! ## The hours of a window -/

namespace Hour

variable {a b now : Hour} {limit : UInt32}

theorem exists_minus_iff : (∃ c, a.minus b = .ok c) ↔ Fits (a.toInt - b.toInt) :=
  exists_ite_eq_ok_iff

theorem exists_plus_iff : (∃ c, a.plus b = .ok c) ↔ Fits (a.toInt + b.toInt) :=
  exists_ite_eq_ok_iff

/-- A window has a first hour if both steps to it are hours. -/
theorem exists_windowStart_iff : (∃ first, now.windowStart limit = .ok first) ↔
    Fits (now.toInt - limit.toNat) ∧ Fits (now.toInt - limit.toNat + 1) := by
  unfold windowStart
  rw [exists_bind_eq_ok_iff, ← toInt_ofCount limit, ← exists_minus_iff]
  simp only [exists_plus_iff]
  constructor
  · rintro ⟨before, hbefore, hfits⟩
    rw [minus_eq_ok_iff.mp hbefore] at hfits
    exact ⟨⟨before, hbefore⟩, hfits⟩
  · rintro ⟨⟨before, hbefore⟩, hfits⟩
    rw [← minus_eq_ok_iff.mp hbefore] at hfits
    exact ⟨before, hbefore, hfits⟩

end Hour

namespace Window

variable {w : Window}

/-- A window whose hours are all hours. The list of its records is in memory, where none has more
entries than there are hours from the epoch on. -/
structure InRange (w : Window) : Prop where
  size : w.size ≤ Int64.maxValue.toInt
  last : w.first.toInt + w.size ≤ Int64.maxValue.toInt + 1

theorem InRange.hours_eq (h : w.InRange) : w.hours = .ok (Hour.span w.first w.size) := by
  unfold Window.hours Hour.span
  refine mapM_eq_ok fun i hi => Hour.plus_eq_ok_iff.mpr ?_
  have hlt := List.mem_range.mp hi
  have hsize : (w.size : Int) ≤ 9223372036854775807 := h.size
  have hlast : w.first.toInt + i ≤ Int64.maxValue.toInt := by
    have := h.last
    omega
  rw [Hour.toInt_ofInt_add hlast, Hour.ofCount, Int64.toInt_ofNat_of_lt (by omega)]

/-- A window that ends with an hour. -/
theorem inRange_of_last {now : Hour} {limit : UInt32} (hsize : w.size = limit.toNat)
    (hfirst : w.first.toInt = now.toInt - limit.toNat + 1) : w.InRange := by
  have hlimit := limit.toNat_lt
  have hnow : now.toInt ≤ 9223372036854775807 := (Hour.fits_iff.mp now.fits_toInt).2
  constructor
  · change (w.size : Int) ≤ 9223372036854775807
    omega
  · change w.first.toInt + w.size ≤ 9223372036854775807 + 1
    omega

/-- The hours of a window that ends with an hour. -/
theorem hours_eq {now : Hour} {limit : UInt32} (hsize : w.size = limit.toNat)
    (hfirst : w.first.toInt = now.toInt - limit.toNat + 1) :
    w.hours = .ok (Hour.span w.first limit.toNat) := by
  rw [(inRange_of_last hsize hfirst).hours_eq, hsize]

end Window

namespace Report

variable {w : Window} {g : Granularity} {points : List (Hour × UInt64)} {sum : UInt64}

/-! ## The parts of a report -/

/-- A sum by days is part of the sum over all hours. -/
theorem exists_daily (h : sum.toNat + exactSum (points.map Prod.snd) < UInt64.size) :
    ∃ days, daily sum points = .ok days := by
  induction points generalizing sum with
  | nil => exact ⟨[], rfl⟩
  | cons p points ih =>
    obtain ⟨hour, n⟩ := p
    rw [List.map_cons, exactSum_cons, ← Nat.add_assoc] at h
    obtain ⟨next, hnext⟩ := exists_addCount_iff.mpr (Nat.lt_of_le_of_lt (Nat.le_add_right _ _) h)
    have hexact := addCount_eq_ok_iff.mp hnext
    unfold daily
    rw [exists_bind_eq_ok_iff]
    refine ⟨next, hnext, ?_⟩
    split
    · obtain ⟨days, hdays⟩ : ∃ days, daily 0 points = .ok days := by
        refine ih ?_
        rw [UInt64.toNat_zero]
        omega
      exact ⟨_, bind_eq_ok_iff.mpr ⟨days, hdays, rfl⟩⟩
    · exact ih (by omega)

/-- There is a day for each hour that closes one. -/
theorem length_daily {days : List UInt64} (h : daily sum points = .ok days) :
    days.length = points.countP fun p => p.1.closesDay := by
  induction points generalizing sum days with
  | nil =>
    cases h
    rfl
  | cons p points ih =>
    obtain ⟨hour, n⟩ := p
    obtain ⟨next, -, h⟩ := bind_eq_ok_iff.mp h
    rw [List.countP_cons]
    split at h
    · rename_i hcloses
      obtain ⟨later, hlater, h⟩ := bind_eq_ok_iff.mp h
      cases h
      rw [List.length_cons, ih hlater, if_pos hcloses]
    · rename_i hcloses
      rw [ih h, if_neg hcloses]
      rfl

/-- **Sums that are words.** -/
structure Fit (records : List HourRecord) : Prop where
  total : summed (·.total) records < UInt64.size
  filtered : summed (·.count .filtered) records < UInt64.size
  safeBrowsing : summed (·.count .safeBrowsing) records < UInt64.size
  safeSearch : summed (·.count .safeSearch) records < UInt64.size
  parental : summed (·.count .parental) records < UInt64.size
  names : ∀ (k : Ranking) (name : String),
    countIn (records.map k.ofRecord).flatten name < UInt64.size
  times : summed (·.meanMicros) records < UInt64.size

theorem exists_meanTime_iff {records : List HourRecord} :
    (∃ n, meanTime records = .ok n) ↔ summed (·.meanMicros) records < UInt64.size := by
  unfold meanTime
  rw [exists_bind_eq_ok_iff, summed, ← exactSum_filter_ne_zero, ← exists_sumCounts_iff]
  exact exists_congr fun sum => and_iff_left ⟨_, rfl⟩

theorem exists_series {hours : List Hour} (hhours : w.hours = .ok hours)
    (hlength : w.records.length ≤ hours.length) {count : HourRecord → UInt64}
    (h : summed count w.records < UInt64.size) (g : Granularity) :
    ∃ points, series w g count = .ok points := by
  cases g with
  | hours => exact ⟨_, rfl⟩
  | days =>
    have hcounts : (hours.zip (w.records.map count)).map Prod.snd = w.records.map count :=
      List.map_snd_zip (by rwa [List.length_map])
    obtain ⟨days, hdays⟩ : ∃ days, daily 0 (hours.zip (w.records.map count)) = .ok days := by
      refine exists_daily ?_
      rw [hcounts, UInt64.toNat_zero, Nat.zero_add]
      exact h
    exact ⟨days, bind_eq_ok_iff.mpr ⟨hours, hhours, hdays⟩⟩

/-- The number of points of a series over some hours: one for each, or for each that closes a
day. -/
def pointCount (g : Granularity) (hours : List Hour) : Nat :=
  match g with
  | .hours => hours.length
  | .days => hours.countP Hour.closesDay

theorem length_series {hours : List Hour} (hhours : w.hours = .ok hours)
    (hlength : hours.length = w.records.length) {count : HourRecord → UInt64}
    {points : List UInt64} (h : series w g count = .ok points) :
    points.length = pointCount g hours := by
  cases g with
  | hours =>
    cases h
    rw [List.length_map]
    exact hlength.symm
  | days =>
    obtain ⟨hours', hhours', h⟩ := bind_eq_ok_iff.mp h
    obtain rfl := Except.ok.inj (hhours.symm.trans hhours')
    have hfst : (hours.zip (w.records.map count)).map Prod.fst = hours :=
      List.map_fst_zip (by rw [List.length_map]; exact Nat.le_of_eq hlength)
    rw [length_daily h]
    change (hours.zip (w.records.map count)).countP (Hour.closesDay ∘ Prod.fst) =
      hours.countP Hour.closesDay
    rw [← List.countP_map, hfst]

/-- Empty records add up to nothing. -/
theorem fit_of_empty {records : List HourRecord} (h : ∀ record ∈ records, record = .empty) :
    Fit records := by
  have hsum : ∀ count : HourRecord → UInt64, count .empty = 0 →
      summed count records < UInt64.size := by
    intro count hcount
    have hzero : summed count records = 0 := by
      refine exactSum_eq_zero_iff.mpr fun n hn => ?_
      obtain ⟨record, hrecord, rfl⟩ := List.mem_map.mp hn
      rw [h record hrecord, hcount]
    rw [hzero]
    decide
  have hnames : ∀ k : Ranking, (records.map k.ofRecord).flatten = [] := by
    intro k
    refine List.flatten_eq_nil_iff.mpr fun list hlist => ?_
    obtain ⟨record, hrecord, rfl⟩ := List.mem_map.mp hlist
    rw [h record hrecord]
    cases k <;> rfl
  refine ⟨hsum _ rfl, hsum _ rfl, hsum _ rfl, hsum _ rfl, hsum _ rfl, fun k name => ?_, hsum _ rfl⟩
  rw [hnames]
  exact (by decide : 0 < UInt64.size)

/-- **When a report comes out.** It does if its sums are words, and only then. -/
theorem exists_ofWindow_iff {hours : List Hour} (hhours : w.hours = .ok hours)
    (hlength : w.records.length ≤ hours.length) :
    (∃ r, ofWindow w g = .ok r) ↔ Fit w.records := by
  constructor
  · rintro ⟨r, hr⟩
    have hmade := madeOf_ofWindow hr
    have hsum : ∀ {count : HourRecord → UInt64} {n : UInt64},
        sumCounts (w.records.map count) = .ok n → summed count w.records < UInt64.size :=
      fun hn => exists_sumCounts_iff.mp ⟨_, hn⟩
    exact ⟨hsum hmade.totalQueries, hsum hmade.totalFiltered, hsum hmade.totalSafeBrowsing,
      hsum hmade.totalSafeSearch, hsum hmade.totalParental,
      fun k => exists_mergeTop_iff.mp ⟨_, k.mergeTop_ofReport hr⟩,
      exists_meanTime_iff.mp ⟨_, hmade.meanMicros⟩⟩
  · intro hfit
    have hseries : ∀ {count : HourRecord → UInt64}, summed count w.records < UInt64.size →
        ∃ points, series w g count = .ok points := fun h => exists_series hhours hlength h g
    have hsum : ∀ {count : HourRecord → UInt64}, summed count w.records < UInt64.size →
        ∃ n, sumCounts (w.records.map count) = .ok n := fun h => exists_sumCounts_iff.mpr h
    have hlist : ∀ k : Ranking, ∃ merged, mergeTop (w.records.map k.ofRecord) topLimit = .ok merged :=
      fun k => exists_mergeTop_iff.mpr (hfit.names k)
    obtain ⟨_, hqueries⟩ := hseries hfit.total
    obtain ⟨_, hfiltered⟩ := hseries hfit.filtered
    obtain ⟨_, hsafe⟩ := hseries hfit.safeBrowsing
    obtain ⟨_, hparental⟩ := hseries hfit.parental
    obtain ⟨_, hdomains⟩ := hlist .domains
    obtain ⟨_, hblocked⟩ := hlist .blockedDomains
    obtain ⟨_, hclients⟩ := hlist .clients
    obtain ⟨_, hmean⟩ := exists_meanTime_iff.mpr hfit.times
    obtain ⟨_, h₁⟩ := hsum hfit.total
    obtain ⟨_, h₂⟩ := hsum hfit.filtered
    obtain ⟨_, h₃⟩ := hsum hfit.safeBrowsing
    obtain ⟨_, h₄⟩ := hsum hfit.safeSearch
    obtain ⟨_, h₅⟩ := hsum hfit.parental
    simp only [Ranking.ofRecord] at hdomains hblocked hclients
    simp only [ofWindow, hqueries, hfiltered, hsafe, hparental, hdomains, hblocked, hclients,
      hmean, h₁, h₂, h₃, h₄, h₅]
    exact ⟨_, rfl⟩

end Report
end QueryTally
