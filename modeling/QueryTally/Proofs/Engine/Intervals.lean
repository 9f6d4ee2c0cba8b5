import QueryTally.Proofs.Days
import QueryTally.Proofs.Engine.Answering

/-! # Retention intervals

An engine is told how many days to retain. It keeps the hours of these days as its limit, unless
it refuses the number, which leaves it as it is. A report by hours has a point for each hour of
the limit, and one by days a point for each day (`Engine.length_of_query`). -/

namespace QueryTally

open QueryTally.Hour

namespace Engine

variable {e : Engine} {d : Disk} {g : Granularity} {now : Hour} {r : Report} {days : Int32}

/-- Whether an engine takes a number of days for its retention interval: one that is not negative,
and whose hours are a word. -/
def Accepts (days : Int32) : Prop := 0 ≤ days ∧ days.toInt * 24 < UInt32.size

instance (days : Int32) : Decidable (Accepts days) := inferInstanceAs (Decidable (_ ∧ _))

theorem configure_of_accepts (h : Accepts days) (e : Engine) :
    (e.configure days).1 = { e with limit := UInt32.ofNat (days.toInt.toNat * 24) } := by
  rw [configure, if_neg (Int32.not_lt.mpr h.1), if_pos h.2]

theorem configure_of_not_accepts (h : ¬ Accepts days) (e : Engine) : (e.configure days).1 = e := by
  unfold configure
  split
  · rfl
  · rename_i hnonneg
    rw [if_neg fun hfits => h ⟨Int32.not_lt.mp hnonneg, hfits⟩]

/-- A new interval changes nothing but the limit. -/
theorem exists_configure_eq (e : Engine) (days : Int32) :
    ∃ limit, (e.configure days).1 = { e with limit } := by
  by_cases h : Accepts days
  · exact ⟨_, configure_of_accepts h e⟩
  · exact ⟨e.limit, configure_of_not_accepts h e⟩

/-- The days of an accepted number are not negative, so that none is lost. -/
theorem Accepts.toNat_mul_lt (h : Accepts days) : days.toInt.toNat * 24 < UInt32.size := by
  have hfits := h.2
  have hsize : (UInt32.size : Int) = 4294967296 := rfl
  have hsize' : UInt32.size = 4294967296 := rfl
  omega

theorem toNat_limit_configure (h : Accepts days) (e : Engine) :
    (e.configure days).1.limit.toNat = 24 * days.toInt.toNat := by
  rw [configure_of_accepts h]
  change (UInt32.ofNat (days.toInt.toNat * 24)).toNat = _
  rw [UInt32.toNat_ofNat_of_lt' h.toNat_mul_lt, Nat.mul_comm]

theorem toNat_limitHours {days : UInt32} (h : days.toNat * 24 < UInt32.size) :
    (Config.limitHours days).toNat = 24 * days.toNat := by
  have hconst : (24 : UInt32).toNat = 24 := rfl
  rw [Config.limitHours, if_pos h, UInt32.toNat_mul, hconst, Nat.mod_eq_of_lt h, Nat.mul_comm]

/-- The limit is the same whether an engine is opened with an interval or told one. -/
theorem limit_configure (h : Accepts days) (e : Engine) :
    (e.configure days).1.limit = Config.limitHours (UInt32.ofNat days.toInt.toNat) := by
  have hdays : (UInt32.ofNat days.toInt.toNat).toNat = days.toInt.toNat :=
    UInt32.toNat_ofNat_of_lt' (by have := h.toNat_mul_lt; omega)
  have hfits := h.toNat_mul_lt
  rw [← hdays] at hfits
  rw [← UInt32.toNat_inj, toNat_limit_configure h, toNat_limitHours hfits, hdays]

theorem days_of_limit {days : UInt32} (h : days.toNat * 24 < UInt32.size)
    (hlimit : e.limit = Config.limitHours days) : e.days = days := by
  rw [← UInt32.toNat_inj, Engine.days, hlimit, UInt32.toNat_div, toNat_limitHours h]
  exact Nat.mul_div_cancel_left _ (by decide)

/-- **The points of a report** of an engine whose limit is a number of days. -/
theorem length_of_query {n : Nat} (hlimit : e.limit.toNat = 24 * n)
    (hr : (e.query g now d).result = .ok r) :
    ∀ pick ∈ Report.everySeries, (pick r).length = Report.pointsOf g n := by
  obtain ⟨first, hfirst⟩ := exists_first hr
  have hlast : first.toInt + e.limit.toNat ≤ now.toInt + 1 := by
    have := toInt_windowStart hfirst
    omega
  intro pick hpick
  rw [length_everySeries hfirst hr pick hpick]
  exact Report.pointCount_of_whole hlimit hlast g

end Engine
end QueryTally
