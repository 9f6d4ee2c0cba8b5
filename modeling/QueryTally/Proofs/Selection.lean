import QueryTally.Proofs.ByteOrder
import QueryTally.Proofs.Tally

/-! # What a top list selects

A top list of a tally is a selection of its greatest pairs: strictly in order, as many as there are
or as fit, and nothing that is left out comes before anything that is kept. The order is strict and
total on the pairs of a tally, so there is one such selection (`Selects.eq_top`), whatever the order
in which the pairs are gone through and whatever sort ranks them. Names are compared by their bytes
in UTF-8. -/

namespace QueryTally

namespace CountPair

/-- Higher counts first, equal counts by the bytes of the names. -/
def Ahead (p q : CountPair) : Prop :=
  q.count < p.count ∨ p.count = q.count ∧ Utf8.encode p.name < Utf8.encode q.name

instance (p q : CountPair) : Decidable (p.Ahead q) :=
  inferInstanceAs (Decidable (_ ∨ _ ∧ _))

/-- The bytes of the names order pairs as the names do. -/
theorem ahead_iff_before {p q : CountPair} : p.Ahead q ↔ p.Before q :=
  or_congr_right (and_congr_right fun _ => Utf8.encode_lt_iff)

end CountPair

/-- A list that selects the greatest of some entries, as many as it may hold. -/
structure Selects (entries : List CountPair) (limit : Nat) (list : List CountPair) : Prop where
  sorted : list.Pairwise CountPair.Ahead
  within : ∀ p ∈ list, p ∈ entries
  once : list.Nodup
  length : list.length = min limit entries.length
  greatest : ∀ p ∈ entries, p ∉ list → ∀ q ∈ list, q.Ahead p

variable {t : Tally} {entries list : List CountPair} {limit : Nat}

/-- A selection does not see the order of the entries. -/
theorem Selects.of_perm {others : List CountPair} (h : Selects entries limit list)
    (hperm : others.Perm entries) : Selects others limit list where
  sorted := h.sorted
  within p hp := hperm.mem_iff.mpr (h.within p hp)
  once := h.once
  length := by rw [h.length, hperm.length_eq]
  greatest p hp := h.greatest p (hperm.mem_iff.mp hp)

theorem Selects.pairwise_before (h : Selects entries limit list) :
    list.Pairwise CountPair.Before :=
  h.sorted.imp CountPair.ahead_iff_before.mp

/-- The pairs of a tally that a list leaves out, in their order. -/
def leftOut (t : Tally) (list : List CountPair) : List CountPair :=
  (Tally.ranked t.pairs).filter fun p => decide (p ∉ list)

theorem mem_leftOut_iff {p : CountPair} : p ∈ leftOut t list ↔ p ∈ t.pairs ∧ p ∉ list := by
  rw [leftOut, List.mem_filter, (Tally.ranked_perm t.pairs).mem_iff, decide_eq_true_eq]

/-- What is left out of a selection goes on in its order. -/
theorem Selects.append_pairwise (h : Selects t.pairs limit list) :
    (list ++ leftOut t list).Pairwise CountPair.Before := by
  have hrest : (leftOut t list).Pairwise CountPair.Before := t.ranked_pairs_pairwise.filter _
  refine List.pairwise_append.mpr ⟨h.pairwise_before, hrest, fun q hq p hp => ?_⟩
  obtain ⟨hmem, hout⟩ := mem_leftOut_iff.mp hp
  exact CountPair.ahead_iff_before.mp (h.greatest p hmem hout q hq)

theorem Selects.append_perm (h : Selects t.pairs limit list) :
    (list ++ leftOut t list).Perm t.pairs := by
  have hnodup : (list ++ leftOut t list).Nodup := by
    refine h.append_pairwise.imp ?_
    rintro p _ hp rfl
    exact CountPair.Before.irrefl p hp
  -- Neither list repeats a pair, so it is enough that they have the same ones.
  refine (List.perm_ext_iff_of_nodup hnodup t.nodup_pairs).mpr fun p => ?_
  rw [List.mem_append, mem_leftOut_iff]
  constructor
  · rintro (hp | ⟨hp, -⟩)
    · exact h.within p hp
    · exact hp
  · intro hp
    by_cases hin : p ∈ list
    · exact .inl hin
    · exact .inr ⟨hp, hin⟩

/-- So both together are the ranking of the tally. -/
theorem Selects.append_leftOut (h : Selects t.pairs limit list) :
    list ++ leftOut t list = Tally.ranked t.pairs := by
  rw [← Tally.ranked_eq_of_perm h.append_perm, Tally.ranked_of_pairwise h.append_pairwise]

/-- **There is one selection.** -/
theorem Selects.eq_top (h : Selects t.pairs limit list) : list = t.top limit := by
  -- The list is as long as the top list, so its own length cuts the ranking at the same place.
  have hlength : (Tally.ranked t.pairs).length = t.pairs.length :=
    (Tally.ranked_perm t.pairs).length_eq
  have hshort : (Tally.ranked t.pairs).take limit = (Tally.ranked t.pairs).take list.length := by
    rw [List.take_eq_take_iff, hlength, h.length, Nat.min_assoc, Nat.min_self]
  rw [Tally.top_eq_take, hshort, ← h.append_leftOut, List.take_left]

/-- **A top list** is a selection. -/
theorem selects_top (t : Tally) (limit : Nat) : Selects t.pairs limit (t.top limit) where
  sorted := (t.top_pairwise limit).imp CountPair.ahead_iff_before.mpr
  within _ := Tally.mem_of_mem_top
  once := (t.nodup_names_top limit).of_map _
  length := t.length_top limit
  greatest _ hp hout _ hq :=
    CountPair.ahead_iff_before.mpr (Tally.before_of_not_mem_top hp hout hq)

/-- Any sort gives the ranking, as no two pairs of a tally tie. -/
theorem eq_ranked_of_pairwise {ranking : List CountPair} (hperm : ranking.Perm t.pairs)
    (h : ranking.Pairwise fun p q => ¬ q.Ahead p) : ranking = Tally.ranked t.pairs := by
  have hsorted : ranking.Pairwise fun p q => ¬ q.Before p :=
    h.imp fun hpq => mt CountPair.ahead_iff_before.mpr hpq
  exact (hperm.trans (Tally.ranked_perm t.pairs).symm).eq_of_pairwise
    (fun _ _ _ _ => CountPair.eq_of_not_before) hsorted (Tally.ranked_pairwise t.pairs)

/-- **A top list selects the greatest pairs.** However the pairs of a tally are gone through, its
top list is strictly sorted, by descending count and then by the bytes of the name; it has pairs of
the tally only, each at most once, and as many of them as fit; whatever it leaves out comes after
all that it has. No other list is like this, and so sorting the pairs in any way and cutting the
sorted list gives the top list. -/
theorem top_selects (t : Tally) (limit : Nat) {entries : List CountPair}
    (h : entries.Perm t.pairs) :
    Selects entries limit (t.top limit) ∧
    (∀ list, Selects entries limit list → list = t.top limit) ∧
    ∀ ranking : List CountPair, ranking.Perm entries →
      (ranking.Pairwise fun p q => ¬ q.Ahead p) → ranking.take limit = t.top limit := by
  refine ⟨(selects_top t limit).of_perm h, fun list hlist => ?_, fun ranking hperm hranked => ?_⟩
  · exact (hlist.of_perm h.symm).eq_top
  · rw [eq_ranked_of_pairwise (hperm.trans h) hranked, ← Tally.top_eq_take]

def sampleLast : CountPair := ⟨"😀.example", 2⟩

/-- Five entries in no order. Of those that tie, the names have one, two, three and four bytes to a
character. -/
def sampleEntries : List CountPair :=
  [sampleLast, ⟨"c.example", 5⟩, ⟨"é.example", 2⟩, ⟨"\uffee.example", 2⟩, ⟨"z.example", 2⟩]

def sampleSelection : List CountPair :=
  [⟨"c.example", 5⟩, ⟨"z.example", 2⟩, ⟨"é.example", 2⟩, ⟨"\uffee.example", 2⟩]

theorem selects_sampleSelection : Selects sampleEntries 4 sampleSelection where
  sorted := by decide +kernel
  within := by decide +kernel
  once := by decide +kernel
  length := rfl
  greatest := by decide +kernel

theorem top_selects_sample :
    sampleEntries.Perm (Tally.ofPairs sampleEntries).pairs ∧
      (Tally.ofPairs sampleEntries).top 4 = sampleSelection ∧
      (∀ p ∈ sampleSelection, p.Ahead sampleLast) ∧
      (sampleSelection ++ [sampleLast]).take 4 = (Tally.ofPairs sampleEntries).top 4 := by
  have hentries : sampleEntries.Perm (Tally.ofPairs sampleEntries).pairs :=
    (Tally.ofPairs_perm (by decide +kernel)).symm
  obtain ⟨hselects, hunique, hsorts⟩ := top_selects (Tally.ofPairs sampleEntries) 4 hentries
  have htop := (hunique sampleSelection selects_sampleSelection).symm
  rw [htop] at hselects
  have hlast := hselects.greatest sampleLast List.mem_cons_self (by decide +kernel)
  exact ⟨hentries, htop, hlast, hsorts _ (by decide +kernel) (by decide +kernel)⟩

end QueryTally
