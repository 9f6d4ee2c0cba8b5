import QueryTally.Proofs.Transaction

/-! # Records as they are stored

A transaction puts the bytes that are written for a record, and what it gets is what is read
from the bytes that are stored. Reading and writing are exact for each other, so that what is
stored is found again, whatever the names and counts, and no stored record passes for another.
Bytes that begin with no record are refused; a list that announces more items than the bytes
after it can hold is refused when these run out, however many items it announces. -/

namespace QueryTally

namespace Codec

variable {α : Type} {read : Decoder α} {bytes : List UInt8} {r r' : HourRecord}

/-- What is read is what was written, and what comes after it is left. -/
theorem exists_record (h : decode bytes = .ok r) :
    ∃ rest, record bytes = .ok (r, rest) ∧ bytes = encode r ++ rest := by
  obtain ⟨hfits, rest, rfl⟩ := decode_eq_ok_iff.mp h
  exact ⟨rest, (record_exact _ r rest).mpr ⟨hfits, rfl⟩, rfl⟩

/-- **No record begins another.** -/
theorem eq_of_encode_prefix (hr : r.Fits) (hr' : r'.Fits) (h : encode r <+: encode r') :
    r = r' := by
  have hread : decode (encode r') = .ok r := decode_eq_ok_iff.mpr ⟨hr, h⟩
  rw [decode_encode hr'] at hread
  exact (Except.ok.inj hread).symm

theorem exists_error_iff :
    (∃ e, decode bytes = .error e) ↔ ∀ r, r.Fits → ¬ encode r <+: bytes := by
  cases h : decode bytes with
  | ok r =>
    refine ⟨nofun, fun hnone => ?_⟩
    obtain ⟨hfits, hbegins⟩ := decode_eq_ok_iff.mp h
    exact absurd hbegins (hnone r hfits)
  | error e =>
    refine ⟨fun _ r hfits hbegins => ?_, fun _ => ⟨e, rfl⟩⟩
    rw [decode_eq_ok_iff.mpr ⟨hfits, hbegins⟩] at h
    cases h

/-! ## Announced lengths -/

/-- Reading takes eight bytes or more. -/
def Consumes (read : Decoder α) : Prop :=
  ∀ bytes x rest, read bytes = .ok (x, rest) → rest.length + 8 ≤ bytes.length

theorem word_consumes : Consumes word := by
  intro bytes n rest h
  rw [word_eq_ok_iff.mp h, List.length_append, length_encodeWord]
  omega

theorem pair_consumes : Consumes pair := by
  intro bytes p rest h
  rw [((pair_exact _ _ _).mp h).2]
  simp only [encodePair, encodeText, List.length_append, length_encodeWord]
  omega

/-- **The input runs out.** Reading more items than some bytes can hold ends in the same way,
however many there were to be. -/
theorem items_refused (h : Consumes read) (bytes : List UInt8) :
    ∃ e, ∀ n, bytes.length < 8 * n → items read n bytes = .error e := by
  -- By the bytes that are left, and not by the number of items, which may be anything.
  cases hread : read bytes with
  | error e =>
    refine ⟨e, fun n hn => ?_⟩
    cases n with
    | zero => omega
    | succ n =>
      rw [items, hread]
      rfl
  | ok p =>
    obtain ⟨x, rest⟩ := p
    have hshorter := h bytes x rest hread
    obtain ⟨e, he⟩ := items_refused h rest
    refine ⟨e, fun n hn => ?_⟩
    cases n with
    | zero => omega
    | succ n =>
      have hrest : items read n rest = .error e := he n (by omega)
      simp only [items, hread, hrest, bind, Except.bind]
termination_by bytes.length

theorem list_refused (h : Consumes read) (rest : List UInt8) :
    ∃ e, ∀ n : UInt64, rest.length < 8 * n.toNat →
      list read (encodeWord n.toNat ++ rest) = .error e := by
  obtain ⟨e, he⟩ := items_refused h rest
  refine ⟨e, fun n hn => ?_⟩
  have hword : word (encodeWord n.toNat ++ rest) = .ok (n, rest) := word_eq_ok_iff.mpr rfl
  simp only [list, hword, bind, Except.bind]
  exact he n.toNat hn

def fields (r : HourRecord) : List (List UInt8) :=
  [encodeWord r.total.toNat, encodeList (fun n => encodeWord n.toNat) r.results,
    encodeList encodePair r.domains, encodeList encodePair r.blockedDomains,
    encodeList encodePair r.clients, encodeWord r.meanMicros.toNat]

theorem flatten_fields (r : HourRecord) : (fields r).flatten = encode r := by
  simp [fields, encode]

theorem decode_error {e : DecodeError} (h : record bytes = .error e) : decode bytes = .error e := by
  rw [decode, h]
  rfl

/-- **Announced items.** After the fields before it, a list is refused that announces more items
than what comes after it can hold, and for a reason that does not depend on their number. -/
theorem decode_refused (hr : r.Fits) {i : Nat} (hfirst : 1 ≤ i) (hlast : i ≤ 4)
    (rest : List UInt8) :
    ∃ e, ∀ n : UInt64, rest.length < 8 * n.toNat →
      decode (((fields r).take i).flatten ++ encodeWord n.toNat ++ rest) = .error e := by
  have htotal : ∀ more, word (encodeWord r.total.toNat ++ more) = .ok (r.total, more) :=
    fun more => word_eq_ok_iff.mpr rfl
  have hresults : ∀ more, list word (encodeList (fun n => encodeWord n.toNat) r.results ++ more) =
      .ok (r.results, more) := fun more => (words_exact _ _ _).mpr ⟨hr.results, rfl⟩
  have hpairs : ∀ {ps : List CountPair}, PairsFit ps → ∀ more,
      list pair (encodeList encodePair ps ++ more) = .ok (ps, more) :=
    fun hps more => (pairs_exact _ _ _).mpr ⟨hps, rfl⟩
  have hdomains := hpairs hr.domains
  have hblocked := hpairs hr.blockedDomains
  obtain ⟨e, he⟩ := list_refused word_consumes rest
  obtain ⟨e', he'⟩ := list_refused pair_consumes rest
  -- What is before the list is read as it was written, and the list is the first to fail.
  have hposition : i = 1 ∨ i = 2 ∨ i = 3 ∨ i = 4 := by omega
  rcases hposition with rfl | rfl | rfl | rfl
  · refine ⟨e, fun n hn => decode_error ?_⟩
    simp [fields, record, htotal, he n hn, bind, Except.bind]
  · refine ⟨e', fun n hn => decode_error ?_⟩
    simp [fields, record, htotal, hresults, he' n hn, bind, Except.bind]
  · refine ⟨e', fun n hn => decode_error ?_⟩
    simp [fields, record, htotal, hresults, hdomains, he' n hn, bind, Except.bind]
  · refine ⟨e', fun n hn => decode_error ?_⟩
    simp [fields, record, htotal, hresults, hdomains, hblocked, he' n hn, bind, Except.bind]

end Codec

namespace Transaction

variable {t : Transaction} {db : Database} {table : Table} {hour : Hour} {bytes : List UInt8}

/-- What is got for an hour is what is read from the bytes that are stored of it. -/
theorem Sees.get_blob (h : t.Sees db table)
    (hstored : table.get? hour.cell recordSlot = some (.blob bytes)) :
    t.get hour = ((Codec.decode bytes).map some).mapError .codec := by
  simp only [Transaction.get, h.view, h.base, h.faults, hstored]
  cases Codec.decode bytes <;> rfl

/-- **Records are exact.** Some bytes hold a record exactly when they begin with what is written
for it; then they are that, and what comes after it is left. All other bytes are refused, among
them those in which a list announces more items than follow, for a reason that does not depend
on how many it announces. Nothing that is written for a record begins what is written for
another. This is what a transaction writes when it puts a record, and what it gets. -/
theorem records_exact :
    (∀ (bytes : List UInt8) (r : HourRecord), r.Fits →
      (Codec.decode bytes = .ok r ↔ Codec.encode r <+: bytes)) ∧
    (∀ (r : HourRecord) (rest : List UInt8), r.Fits →
      Codec.decode (Codec.encode r ++ rest) = .ok r) ∧
    (∀ (bytes : List UInt8) (r : HourRecord), Codec.decode bytes = .ok r →
      r.Fits ∧ ∃ rest, Codec.record bytes = .ok (r, rest) ∧ bytes = Codec.encode r ++ rest) ∧
    (∀ r r' : HourRecord, r.Fits → r'.Fits → Codec.encode r <+: Codec.encode r' → r = r') ∧
    (∀ bytes : List UInt8, (∃ e, Codec.decode bytes = .error e) ↔
      ∀ r : HourRecord, r.Fits → ¬ Codec.encode r <+: bytes) ∧
    (∀ r : HourRecord, (Codec.fields r).flatten = Codec.encode r) ∧
    (∀ (r : HourRecord) (i : Nat) (rest : List UInt8), r.Fits → 1 ≤ i → i ≤ 4 →
      ∃ e, ∀ n : UInt64, rest.length < 8 * n.toNat →
        Codec.decode (((Codec.fields r).take i).flatten ++ Codec.encodeWord n.toNat ++ rest) =
          .error e) ∧
    (∀ (t : Transaction) (db : Database) (table : Table) (hour : Hour), t.Sees db table →
      (t.writable = true → ∀ r, ∃ t', t.put hour r = (.ok (), t') ∧
        t'.Sees db (table.put ⟨hour.cell, recordSlot, .blob (Codec.encode r)⟩)) ∧
      ∀ bytes, table.get? hour.cell recordSlot = some (.blob bytes) →
        t.get hour = ((Codec.decode bytes).map some).mapError .codec) := by
  refine ⟨fun bytes r hfits => ?_, fun r rest hfits => ?_, fun bytes r h => ?_,
    fun r r' hfits hfits' h => ?_, fun bytes => Codec.exists_error_iff,
    Codec.flatten_fields, fun r i rest hfits hfirst hlast => ?_, fun t db table hour hsees => ?_⟩
  · exact Codec.decode_eq_ok_iff.trans (and_iff_right hfits)
  · exact Codec.decode_eq_ok_iff.mpr ⟨hfits, List.prefix_append _ _⟩
  · exact ⟨Codec.fits_of_decode h, Codec.exists_record h⟩
  · exact Codec.eq_of_encode_prefix hfits hfits' h
  · exact Codec.decode_refused hfits hfirst hlast rest
  · refine ⟨fun hw r => ?_, fun bytes hstored => hsees.get_blob hstored⟩
    obtain ⟨t', hput, hsees', -⟩ := hsees.put hw hour r
    exact ⟨t', hput, hsees'⟩

/-- A record with a name that stands in a list twice, and one that is empty. -/
def sampleRecord : HourRecord where
  total := 5
  results := [4, 1]
  domains := [⟨"example.org", 4⟩, ⟨"example.org", 4⟩, ⟨"", 0⟩]

theorem fits_sampleRecord : sampleRecord.Fits := by
  have hnames : ∀ p ∈ sampleRecord.domains, TextFits p.name := by
    intro p hp
    simp only [sampleRecord, List.mem_cons, List.not_mem_nil, or_false] at hp
    rcases hp with rfl | rfl | rfl <;> unfold TextFits <;> decide +kernel
  exact ⟨by decide, ⟨by decide, hnames⟩, pairsFit_nil, pairsFit_nil⟩

theorem records_exact_sample :
    Codec.decode (Codec.encode sampleRecord ++ [7]) = .ok sampleRecord ∧
    Codec.encode sampleRecord <+: Codec.encode sampleRecord ++ [7] ∧
    (∃ rest, Codec.encode sampleRecord ++ [7] = Codec.encode sampleRecord ++ rest) ∧
    ¬ Codec.encode sampleRecord <+: Codec.encode .empty ∧
    (∃ e, ∀ n : UInt64, 0 < n.toNat →
      Codec.decode (((Codec.fields sampleRecord).take 2).flatten ++ Codec.encodeWord n.toNat ++ [])
        = .error e) ∧
    ∃ t t' : Transaction, t.put 7 sampleRecord = (.ok (), t') ∧
      t'.get 7 = .ok (some sampleRecord) := by
  obtain ⟨hiff, hback, hread, hbegins, -, -, hrefused, hstored⟩ := records_exact
  have hfits := fits_sampleRecord
  have hdecode := hback sampleRecord [7] hfits
  refine ⟨hdecode, (hiff _ _ hfits).mp hdecode, ?_, fun h => ?_, ?_, ?_⟩
  · obtain ⟨rest, -, hrest⟩ := (hread _ _ hdecode).2
    exact ⟨rest, hrest⟩
  · exact absurd (hbegins _ _ hfits HourRecord.fits_empty h) (by decide)
  · obtain ⟨e, he⟩ := hrefused sampleRecord 2 [] hfits (by decide) (by decide)
    exact ⟨e, fun n hn => he n (Nat.mul_pos (by decide) hn)⟩
  · have hhealthy : Database.Healthy { table := some Table.empty } Table.empty := ⟨rfl, rfl, rfl⟩
    obtain ⟨t, -, hsees, hw, -⟩ := sees_begin hhealthy true
    obtain ⟨t', hput, hsees'⟩ := (hstored t _ _ 7 hsees).1 hw sampleRecord
    have hget := (hstored t' _ _ 7 hsees').2 (Codec.encode sampleRecord)
      ((Table.get?_put _ _ _ _).trans (if_pos ⟨rfl, rfl⟩))
    rw [Codec.decode_encode hfits] at hget
    exact ⟨t, t', hput, hget⟩

end Transaction
end QueryTally
