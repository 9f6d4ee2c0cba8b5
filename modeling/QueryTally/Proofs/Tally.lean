import Mathlib.Data.List.Nodup
import QueryTally.Proofs.Ranking

/-! # Tallies as maps

A tally is determined by the count that it has for each name, whatever the order in which its
pairs are looked at. Raising a name adds at most that name, so adding up pairs leaves the names
that there were and those of the pairs. Of a ranked list the beginning is what few pairs come
before. -/

namespace QueryTally

/-! ## Computations that only add -/

/-- A computation that overflows in an addition, if at all. -/
def OnlyAdds {α : Type} (x : Checked α) : Prop := ∀ o, x = .error o → o = .add

section OnlyAdds

variable {α β : Type} {x : Checked α} {f : α → Checked β}

theorem onlyAdds_ok (a : α) : OnlyAdds (.ok a : Checked α) := nofun

theorem onlyAdds_addCount (a b : UInt64) : OnlyAdds (addCount a b) :=
  fun _ h => (addCount_eq_error_iff.mp h).1

theorem OnlyAdds.bind (h : OnlyAdds x) (hf : ∀ a, OnlyAdds (f a)) : OnlyAdds (x >>= f) := by
  cases x with
  | error o => exact fun o' ho' => h o' (by cases ho'; rfl)
  | ok a => exact hf a

theorem OnlyAdds.foldlM {f : β → α → Checked β} (h : ∀ b a, OnlyAdds (f b a)) (b : β)
    (as : List α) : OnlyAdds (as.foldlM f b) := by
  induction as generalizing b with
  | nil => exact onlyAdds_ok b
  | cons a as ih => exact (h b a).bind fun b => ih b

/-- So if it does not come out, an addition did not fit. -/
theorem OnlyAdds.eq_error (h : OnlyAdds x) (hx : ¬ ∃ a, x = .ok a) : x = .error .add := by
  cases x with
  | error o => rw [h o rfl]
  | ok a => exact absurd ⟨a, rfl⟩ hx

end OnlyAdds

/-! ## Pairs -/

variable {ps qs : List CountPair} {name : String}

/-- What pairs count of a name does not depend on their order. -/
theorem countIn_perm (h : ps.Perm qs) (name : String) : countIn ps name = countIn qs name :=
  weight_perm (h.filter _)

theorem Tally.countOf_ofPairs (h : (ps.map (·.name)).Nodup) (name : String) :
    (ofPairs ps).countOf name = countIn ps name := by
  rw [countOf_eq_countIn, countIn_perm (ofPairs_perm h)]

/-- The pairs at the beginning of a strictly ranked list are those with few pairs before them. -/
theorem mem_take_iff_of_pairwise {limit : Nat} {p : CountPair}
    (h : ps.Pairwise CountPair.Before) :
    p ∈ ps.take limit ↔ p ∈ ps ∧ ps.countP (fun q => decide (q.Before p)) < limit := by
  induction ps generalizing limit with
  | nil => simp
  | cons q ps ih =>
    obtain ⟨hq, hps⟩ := List.pairwise_cons.mp h
    cases limit with
    | zero => simp
    | succ limit =>
      rw [List.take_succ_cons, List.mem_cons, ih hps, List.mem_cons, List.countP_cons]
      by_cases hp : p = q
      · -- Nothing comes before the first pair.
        subst hp
        have hnone : ps.countP (fun q => decide (q.Before p)) = 0 :=
          List.countP_eq_zero.mpr fun r hr => by simpa using (hq r hr).asymm
        simp [hnone, CountPair.Before.irrefl]
      · have hcount : p ∈ ps → (if decide (q.Before p) = true then 1 else 0) = 1 :=
          fun hmem => if_pos (decide_eq_true (hq p hmem))
        constructor
        · rintro (hpq | ⟨hmem, hlt⟩)
          · exact absurd hpq hp
          · rw [hcount hmem]
            exact ⟨.inr hmem, Nat.succ_lt_succ hlt⟩
        · rintro ⟨hmem, hlt⟩
          have hmem := hmem.resolve_left hp
          rw [hcount hmem] at hlt
          exact .inr ⟨hmem, Nat.lt_of_succ_lt_succ hlt⟩

namespace Tally

variable {t t' : Tally} {limit : Nat} {n : UInt64} {p : CountPair}

/-- The pairs of a tally are its names with their counts. -/
theorem mem_pairs_iff : p ∈ t.pairs ↔ t.get? p.name = some p.count := by
  constructor
  · intro hp
    cases hfind : t.pairs.find? (·.name == p.name) with
    | none =>
      have hnone := List.find?_eq_none.mp hfind p hp
      simp at hnone
    | some q =>
      have hname : q.name = p.name := by simpa using List.find?_some hfind
      have hq := List.mem_of_find?_eq_some hfind
      rw [List.inj_on_of_nodup_map t.nodup_names hq hp hname] at hfind
      rw [get?, hfind, Option.map_some]
  · intro h
    obtain ⟨q, hfind, hcount⟩ := Option.map_eq_some_iff.mp h
    have hname : q.name = p.name := by simpa using List.find?_some hfind
    have hq := List.mem_of_find?_eq_some hfind
    cases q
    cases p
    obtain rfl : _ = _ := hname
    obtain rfl : _ = _ := hcount
    exact hq

theorem isSome_get?_iff : (t.get? name).isSome ↔ name ∈ t.pairs.map (·.name) := by
  rw [Option.isSome_iff_exists, List.mem_map]
  constructor
  · rintro ⟨n, hn⟩
    exact ⟨⟨name, n⟩, mem_pairs_iff.mpr hn, rfl⟩
  · rintro ⟨p, hp, rfl⟩
    exact ⟨p.count, mem_pairs_iff.mp hp⟩

theorem nodup_pairs (t : Tally) : t.pairs.Nodup := t.nodup_names.of_map _

/-- Tallies of the same pairs are the same. -/
theorem eq_of_perm (h : t.pairs.Perm t'.pairs) : t = t' := by
  have hpairs : t.pairs = t'.pairs :=
    h.eq_of_pairwise (fun p q _ _ hpq hqp => absurd (String.lt_trans hpq hqp) (String.lt_irrefl _))
      t.sorted t'.sorted
  cases t
  cases t'
  cases hpairs
  rfl

/-- **A tally is a map.** It is determined by what it has for each name. -/
theorem ext_get? (h : ∀ name, t.get? name = t'.get? name) : t = t' := by
  refine eq_of_perm ((List.perm_ext_iff_of_nodup t.nodup_pairs t'.nodup_pairs).mpr fun p => ?_)
  rw [mem_pairs_iff, mem_pairs_iff, h]

/-- The names of a tally, and what it counts of them, determine it. -/
theorem ext_countOf (hcount : ∀ name, t.countOf name = t'.countOf name)
    (hnames : ∀ name, (t.get? name).isSome ↔ (t'.get? name).isSome) : t = t' := by
  refine ext_get? fun name => ?_
  have hcount := hcount name
  have hnames := hnames name
  unfold countOf at hcount
  cases h : t.get? name <;> cases h' : t'.get? name <;> simp_all [UInt64.toNat_inj]

theorem isSome_bump {raised : String} (h : t.bump raised n = .ok t') :
    (t'.get? name).isSome ↔ name = raised ∨ (t.get? name).isSome := by
  obtain ⟨total, -, h⟩ := bind_eq_ok_iff.mp h
  obtain rfl := pure_eq_ok_iff.mp h
  rw [get?_set]
  by_cases hname : name = raised
  · simp [hname]
  · simp [hname]

theorem onlyAdds_bump (t : Tally) (name : String) (n : UInt64) : OnlyAdds (t.bump name n) :=
  (onlyAdds_addCount _ _).bind fun _ => onlyAdds_ok _

end Tally
end QueryTally
