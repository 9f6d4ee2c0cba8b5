import QueryTally.Window
import QueryTally.Proofs.Codec

/-! # The slots of a window

A window has a slot for each of its hours and no other: `Hour.span` lists them. Assembled
from the records of the earlier hours and the live hour, the slot of an hour holds the live
record if the hour is live, nothing if it is the present one, and else what is stored. -/

namespace QueryTally

namespace Hour

def span (first : Hour) (n : Nat) : List Hour :=
  (List.range n).map fun i : Nat => Int64.ofInt (first.toInt + i)

theorem range_eq_span (first last : Hour) :
    range first last = span first (last.toInt - first.toInt).toNat := rfl

@[simp] theorem length_span (first : Hour) (n : Nat) : (span first n).length = n := by
  rw [span, List.length_map, List.length_range]

theorem span_succ (first : Hour) (n : Nat) :
    span first (n + 1) = span first n ++ [Int64.ofInt (first.toInt + n)] := by
  rw [span, List.range_succ, List.map_append]
  rfl

theorem getElem_span {first : Hour} {n i : Nat} (h : i < (span first n).length) :
    (span first n)[i] = Int64.ofInt (first.toInt + i) := by
  rw [List.getElem_of_eq rfl h]
  simp only [span, List.getElem_map, List.getElem_range]

/-- The number of an hour that is not too far behind another. -/
theorem toInt_ofInt_add {first : Hour} {i : Nat} {bound : Hour}
    (h : first.toInt + i ≤ bound.toInt) :
    (Int64.ofInt (first.toInt + i)).toInt = first.toInt + i := by
  have hlow := first.le_toInt
  have hhigh := bound.toInt_lt
  exact Int64.toInt_ofInt_of_le (by omega) (by omega)

theorem mem_span_iff {first now h : Hour} {n : Nat} (hnow : first.toInt + n ≤ now.toInt + 1) :
    h ∈ span first n ↔ first ≤ h ∧ h.toInt < first.toInt + n := by
  rw [Int64.le_iff_toInt_le]
  constructor
  · intro hmem
    obtain ⟨i, hi, rfl⟩ := List.mem_map.mp hmem
    have hi := List.mem_range.mp hi
    have hle : first.toInt + i ≤ now.toInt := by omega
    rw [toInt_ofInt_add hle]
    omega
  · rintro ⟨hle, hlt⟩
    refine List.mem_map.mpr ⟨(h.toInt - first.toInt).toNat, ?_, ?_⟩
    · exact List.mem_range.mpr (by omega)
    · have : first.toInt + ((h.toInt - first.toInt).toNat : Nat) = h.toInt := by omega
      rw [this, Int64.ofInt_toInt]

theorem mem_range_iff {first last h : Hour} : h ∈ range first last ↔ first ≤ h ∧ h < last := by
  rw [range_eq_span]
  by_cases hle : first ≤ last
  · rw [Int64.le_iff_toInt_le] at hle
    have hlast : first.toInt + ((last.toInt - first.toInt).toNat : Nat) ≤ last.toInt + 1 := by omega
    rw [mem_span_iff hlast, Int64.lt_iff_toInt_lt]
    exact and_congr_right fun _ => by omega
  · have hnone : (last.toInt - first.toInt).toNat = 0 := by
      rw [Int64.le_iff_toInt_le] at hle
      omega
    rw [hnone]
    refine ⟨nofun, fun h => absurd ?_ hle⟩
    exact Int64.le_of_lt (Int64.lt_of_le_of_lt h.1 h.2)

/-- Consecutive hours go forward in time, if the last of them is an hour. -/
theorem pairwise_span {first now : Hour} {n : Nat} (hnow : first.toInt + n ≤ now.toInt + 1) :
    (span first n).Pairwise (· < ·) := by
  have hbound : ∀ i ∈ List.range n, first.toInt + i ≤ now.toInt := by
    intro i hi
    have := List.mem_range.mp hi
    omega
  refine List.pairwise_map.mpr (List.pairwise_lt_range.imp_of_mem fun hi hj hlt => ?_)
  rw [Int64.lt_iff_toInt_lt, toInt_ofInt_add (hbound _ hi), toInt_ofInt_add (hbound _ hj)]
  omega

theorem nodup_span {first now : Hour} {n : Nat} (hnow : first.toInt = now.toInt - n + 1) :
    (span first n).Nodup := by
  have hlast : first.toInt + n ≤ now.toInt + 1 := by omega
  refine (pairwise_span hlast).imp ?_
  rintro h k hlt rfl
  exact Int64.lt_irrefl hlt

/-- What stands at the place of an hour among those of a window. -/
theorem getElem?_map_span {first now hour : Hour} {n : Nat}
    (hnow : first.toInt = now.toInt - n + 1) (hle : first ≤ hour) (hlast : hour ≤ now)
    {α : Type} (f : Hour → α) :
    ((span first n).map f)[(hour.toInt - first.toInt).toNat]? = some (f hour) := by
  rw [Int64.le_iff_toInt_le] at hle hlast
  have hlt : (hour.toInt - first.toInt).toNat < (span first n).length := by
    rw [length_span]
    omega
  have hhour : (span first n)[(hour.toInt - first.toInt).toNat] = hour := by
    rw [getElem_span]
    have : first.toInt + ((hour.toInt - first.toInt).toNat : Nat) = hour.toInt := by omega
    rw [this, Int64.ofInt_toInt]
  rw [List.getElem?_map, List.getElem?_eq_getElem hlt, hhour]
  rfl

theorem toInt_ofCount (limit : UInt32) : (ofCount limit.toNat).toInt = limit.toNat := by
  have := limit.toNat_lt
  exact Int64.toInt_ofNat_of_lt (by omega)

/-- The first hour of a window, if it is an hour. -/
theorem toInt_windowStart {now first : Hour} {limit : UInt32}
    (h : now.windowStart limit = .ok first) : first.toInt = now.toInt - limit.toNat + 1 := by
  obtain ⟨before, hbefore, hfirst⟩ := bind_eq_ok_iff.mp h
  rw [plus_eq_ok_iff.mp hfirst, minus_eq_ok_iff.mp hbefore, toInt_ofCount]
  rfl

/-- The distance of the last hour of a window from its first one is a number of hours. -/
theorem exists_minus_windowStart {now first : Hour} {limit : UInt32}
    (h : now.windowStart limit = .ok first) : ∃ offset, now.minus first = .ok offset := by
  have hfirst := toInt_windowStart h
  have hlimit := limit.toNat_lt
  refine ⟨Int64.ofInt (limit.toNat - 1), minus_eq_ok_iff.mpr ?_⟩
  rw [Int64.toInt_ofInt_of_le (by omega) (by omega)]
  omega

end Hour

namespace Window

open Hour

/-- What a window finds for an hour, given the live hour with its record and what is stored. -/
def slotOf (now live : Hour) (record : HourRecord) (stored : Hour → HourRecord) (h : Hour) :
    HourRecord :=
  if h = live then record else if h = now then .empty else stored h

theorem slots_eq {first now : Hour} {n : Nat} (hfirst : first.toInt = now.toInt - n + 1)
    (stored : Hour → HourRecord) :
    slots first now ((range first now).map stored) =
      (span first n).map fun h => if h = now then .empty else stored h := by
  cases n with
  | zero =>
    have hnle : ¬ first ≤ now := by
      rw [Int64.le_iff_toInt_le]
      omega
    have hempty : (now.toInt - first.toInt).toNat = 0 := by omega
    rw [slots, if_neg hnle, range_eq_span, hempty]
    rfl
  | succ m =>
    have hle : first ≤ now := by
      rw [Int64.le_iff_toInt_le]
      omega
    have hlast : first.toInt + m = now.toInt := by omega
    have hsize : (now.toInt - first.toInt).toNat = m := by omega
    rw [slots, if_pos hle, range_eq_span, hsize, span_succ, hlast, Int64.ofInt_toInt,
      List.map_append, List.map_singleton, if_pos rfl]
    have hnow : first.toInt + m ≤ now.toInt + 1 := by omega
    refine congrArg (· ++ _) (List.map_congr_left fun h hmem => ?_)
    have hlt := ((mem_span_iff hnow).mp hmem).2
    rw [if_neg]
    rintro rfl
    omega

/-- Replacing the slot of an hour in a window. -/
theorem set_map_span {first now live : Hour} {n : Nat} (hnow : first.toInt + n ≤ now.toInt + 1)
    (hfirst : first ≤ live) (f : Hour → HourRecord) (record : HourRecord) :
    ((span first n).map f).set (live.toInt - first.toInt).toNat record =
      (span first n).map fun h => if h = live then record else f h := by
  rw [Int64.le_iff_toInt_le] at hfirst
  refine List.ext_getElem (by simp) fun i h₁ h₂ => ?_
  rw [List.length_map, length_span] at h₂
  rw [List.getElem_set, List.getElem_map, List.getElem_map, getElem_span]
  have hle : first.toInt + i ≤ now.toInt := by omega
  have hi := toInt_ofInt_add hle
  by_cases h : (live.toInt - first.toInt).toNat = i
  · have : Int64.ofInt (first.toInt + i) = live := Int64.toInt_inj.mp (by omega)
    rw [if_pos h, if_pos this]
  · rw [if_neg h, if_neg]
    rintro rfl
    omega

/-- The slot of the live hour, if its distance from the first hour is a number of hours. -/
theorem slot?_eq {first last live offset : Hour} (size : Nat)
    (h : live.minus first = .ok offset) :
    slot? first last size live =
      .ok (if first ≤ live ∧ live ≤ last ∧ offset.toInt.toNat < size
        then some offset.toInt.toNat else none) := by
  rw [slot?, h]
  rfl

/-- **Assembling a window.** It gives a slot to each hour of the window, unless the distance
of the live hour from the first one is no number of hours. -/
theorem assemble_eq {first now : Hour} {n : Nat} (hfirst : first.toInt = now.toInt - n + 1)
    (live : Hour) (record : HourRecord) (stored : Hour → HourRecord) :
    assemble first now ((range first now).map stored) (some (live, record)) =
      (live.minus first).map fun _ =>
        { first, records := (span first n).map (slotOf now live record stored) } := by
  have hnow : first.toInt + n ≤ now.toInt + 1 := by omega
  simp only [assemble, slots_eq hfirst]
  cases hoff : live.minus first with
  | error o =>
    rw [slot?, hoff]
    rfl
  | ok offset =>
    have hdiff := minus_eq_ok_iff.mp hoff
    rw [slot?_eq _ hoff, List.length_map, length_span]
    by_cases hin : first ≤ live ∧ live ≤ now
    · have hlt : offset.toInt.toNat < n := by
        have := Int64.le_iff_toInt_le.mp hin.1
        have := Int64.le_iff_toInt_le.mp hin.2
        omega
      rw [if_pos ⟨hin.1, hin.2, hlt⟩, hdiff]
      exact congrArg (fun rs => Except.ok (Window.mk first rs)) (set_map_span hnow hin.1 _ record)
    · rw [if_neg fun h => hin ⟨h.1, h.2.1⟩]
      refine congrArg (fun rs => Except.ok (Window.mk first rs)) ?_
      refine List.map_congr_left fun h hmem => ?_
      obtain ⟨hle, hlt⟩ := (mem_span_iff hnow).mp hmem
      have hne : h ≠ live := by
        rintro rfl
        exact hin ⟨hle, Int64.le_iff_toInt_le.mpr (by omega)⟩
      rw [slotOf, if_neg hne]

end Window
end QueryTally
