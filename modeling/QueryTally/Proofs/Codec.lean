import QueryTally.HourRecord.Codec

/-! # Reading is the inverse of writing

A decoder and an encoder are `Exact` for each other if reading gives a value with some
bytes left exactly when the bytes begin with what is written for the value. The notion
follows the format: words, texts, lists, pairs and records are exact one after the other,
for the values that fit (`HourRecord.Fits`), that is whose lengths are words. -/

namespace QueryTally

theorem bind_eq_ok_iff {ε α β : Type} {x : Except ε α} {f : α → Except ε β} {b : β} :
    (x >>= f) = .ok b ↔ ∃ a, x = .ok a ∧ f a = .ok b := by
  cases x with
  | error e => exact ⟨nofun, nofun⟩
  | ok a => exact ⟨fun h => ⟨a, rfl, h⟩, fun ⟨_, h, hf⟩ => by cases h; exact hf⟩

theorem pure_eq_ok_iff {ε α : Type} {a b : α} : (pure a : Except ε α) = .ok b ↔ a = b :=
  ⟨fun h => by cases h; rfl, fun h => h ▸ rfl⟩

theorem toOption_eq_some_iff {ε α : Type} {x : Except ε α} {a : α} :
    x.toOption = some a ↔ x = .ok a := by
  cases x with
  | error e => exact ⟨nofun, nofun⟩
  | ok b => exact ⟨fun h => by cases h; rfl, fun h => by cases h; rfl⟩

theorem exists_eq_ok_of_isOk {ε α : Type} {x : Except ε α} (h : x.isOk = true) :
    ∃ a, x = .ok a := by
  cases x with
  | error e => cases h
  | ok a => exact ⟨a, rfl⟩

/-- A text whose length in bytes is a word. -/
def TextFits (s : String) : Prop := s.utf8ByteSize < UInt64.size

instance (s : String) : Decidable (TextFits s) := inferInstanceAs (Decidable (_ < _))

def PairsFit (ps : List CountPair) : Prop :=
  ps.length < UInt64.size ∧ ∀ p ∈ ps, TextFits p.name

structure HourRecord.Fits (r : HourRecord) : Prop where
  results : r.results.length < UInt64.size
  domains : PairsFit r.domains
  blockedDomains : PairsFit r.blockedDomains
  clients : PairsFit r.clients

theorem pairsFit_nil : PairsFit [] := ⟨by decide, nofun⟩

theorem HourRecord.fits_empty : HourRecord.empty.Fits :=
  ⟨by decide, pairsFit_nil, pairsFit_nil, pairsFit_nil⟩

namespace Codec

/-- Reading gives a value and leaves some bytes exactly when the bytes are what is written
for the value and those. -/
def Exact {α : Type} (read : Decoder α) (write : α → List UInt8) (fits : α → Prop) : Prop :=
  ∀ bytes x rest, read bytes = .ok (x, rest) ↔ fits x ∧ bytes = write x ++ rest

theorem length_encodeWord (n : Nat) : (encodeWord n).length = 8 := Bytes.length_littleEndian 8 n

/-- The bytes that eight bytes at the front make with the rest. -/
theorem eq_encodeWord_append {bytes : List UInt8} (h : (bytes.take 8).length = 8) :
    bytes = encodeWord (Bytes.ofLittleEndian (bytes.take 8)) ++ bytes.drop 8 := by
  have hback := Bytes.littleEndian_ofLittleEndian (bytes.take 8)
  rw [h] at hback
  rw [encodeWord, hback, List.take_append_drop]

theorem word_exact : Exact word (fun n => encodeWord n.toNat) fun _ => True := by
  intro bytes n rest
  constructor
  · intro h
    simp only [word] at h
    split at h
    · rename_i hlen
      cases h
      have hlt := Bytes.ofLittleEndian_lt (bytes.take 8)
      rw [hlen] at hlt
      refine ⟨trivial, ?_⟩
      change bytes = encodeWord (UInt64.ofNat _).toNat ++ _
      rw [UInt64.toNat_ofNat_of_lt' hlt]
      exact eq_encodeWord_append hlen
    · cases h
  · rintro ⟨-, rfl⟩
    have htake : (encodeWord n.toNat ++ rest).take 8 = encodeWord n.toNat :=
      List.take_left' (length_encodeWord _)
    have hdrop : (encodeWord n.toNat ++ rest).drop 8 = rest :=
      List.drop_left' (length_encodeWord _)
    have hback : Bytes.ofLittleEndian (encodeWord n.toNat) = n.toNat :=
      Bytes.ofLittleEndian_littleEndian n.toNat_lt_size
    simp only [word]
    rw [htake, hdrop, hback, if_pos (length_encodeWord _), UInt64.ofNat_toNat]

/-- A word is read as a number below its bound. -/
theorem word_eq_ok_iff {bytes rest : List UInt8} {n : UInt64} :
    word bytes = .ok (n, rest) ↔ bytes = encodeWord n.toNat ++ rest :=
  (word_exact bytes n rest).trans (and_iff_right trivial)

@[simp] theorem length_utf8_encode (s : String) : (Utf8.encode s).length = s.utf8ByteSize :=
  Array.length_toList

theorem utf8_decode_eq_ok_iff {bytes : List UInt8} {s : String} :
    Utf8.decode bytes = .ok s ↔ bytes = Utf8.encode s := by
  have hback : ∀ b : ByteArray, b.data.toList.toByteArray = b := by
    intro b
    apply ByteArray.ext
    rw [List.data_toByteArray, Array.toArray_toList]
  constructor
  · intro h
    unfold Utf8.decode at h
    split at h
    · rename_i t ht
      cases h
      unfold String.fromUTF8? at ht
      split at ht
      · rename_i hv
        cases ht
        simp [Utf8.encode, String.fromUTF8]
      · cases ht
    · cases h
  · rintro rfl
    have : String.fromUTF8? (Utf8.encode s).toByteArray = some s := by
      rw [Utf8.encode, hback, String.fromUTF8?, dif_pos s.isValidUTF8]
      rfl
    rw [Utf8.decode, this]

theorem text_exact : Exact text encodeText TextFits := by
  intro bytes s rest
  constructor
  · intro h
    obtain ⟨⟨n, mid⟩, hw, hr⟩ := bind_eq_ok_iff.mp h
    obtain rfl := word_eq_ok_iff.mp hw
    dsimp only at hr
    split at hr
    · rename_i hlen
      split at hr
      · rename_i t ht
        cases hr
        have hfront := utf8_decode_eq_ok_iff.mp ht
        rw [hfront] at hlen
        have hlt : TextFits s := by
          rw [TextFits, ← length_utf8_encode, hlen]
          exact n.toNat_lt_size
        refine ⟨hlt, ?_⟩
        simp only [encodeText]
        rw [hlen, List.append_assoc, ← hfront, List.take_append_drop]
      · cases hr
    · cases hr
  · rintro ⟨hfits, rfl⟩
    have hn : (UInt64.ofNat (Utf8.encode s).length).toNat = (Utf8.encode s).length :=
      UInt64.toNat_ofNat_of_lt' (length_utf8_encode s ▸ hfits)
    refine bind_eq_ok_iff.mpr ⟨(UInt64.ofNat (Utf8.encode s).length, Utf8.encode s ++ rest), ?_, ?_⟩
    · rw [word_eq_ok_iff, hn, encodeText, List.append_assoc]
    · dsimp only
      rw [hn, List.take_left' rfl, List.drop_left' rfl, if_pos rfl,
        utf8_decode_eq_ok_iff.mpr rfl]

/-- Reading one after the other what is exact each time. -/
theorem items_exact {α : Type} {read : Decoder α} {write : α → List UInt8} {fits : α → Prop}
    (h : Exact read write fits) (xs : List α) (bytes rest : List UInt8) (n : Nat) :
    items read n bytes = .ok (xs, rest) ↔
      xs.length = n ∧ (∀ x ∈ xs, fits x) ∧ bytes = xs.flatMap write ++ rest := by
  induction n generalizing xs bytes with
  | zero =>
    constructor
    · intro hr
      cases hr
      simp
    · rintro ⟨hlen, -, rfl⟩
      rw [List.length_eq_zero_iff.mp hlen]
      rfl
  | succ n ih =>
    constructor
    · intro hr
      obtain ⟨⟨x, mid⟩, hx, hr⟩ := bind_eq_ok_iff.mp hr
      obtain ⟨⟨ys, last⟩, hys, hr⟩ := bind_eq_ok_iff.mp hr
      cases hr
      obtain ⟨hfit, rfl⟩ := (h bytes x mid).mp hx
      obtain ⟨hlen, hfits, rfl⟩ := (ih ys mid).mp hys
      refine ⟨by rw [List.length_cons, hlen], ?_, ?_⟩
      · exact List.forall_mem_cons.mpr ⟨hfit, hfits⟩
      · rw [List.flatMap_cons, List.append_assoc]
    · rintro ⟨hlen, hfits, rfl⟩
      cases xs with
      | nil => cases hlen
      | cons x ys =>
        obtain ⟨hfit, hfits⟩ := List.forall_mem_cons.mp hfits
        refine bind_eq_ok_iff.mpr ⟨(x, ys.flatMap write ++ rest), ?_, ?_⟩
        · exact (h _ _ _).mpr ⟨hfit, by rw [List.flatMap_cons, List.append_assoc]⟩
        · refine bind_eq_ok_iff.mpr ⟨(ys, rest), (ih ys _).mpr ⟨?_, hfits, rfl⟩, rfl⟩
          exact Nat.succ_inj.mp hlen

theorem list_exact {α : Type} {read : Decoder α} {write : α → List UInt8} {fits : α → Prop}
    (h : Exact read write fits) :
    Exact (list read) (encodeList write) fun xs =>
      xs.length < UInt64.size ∧ ∀ x ∈ xs, fits x := by
  intro bytes xs rest
  constructor
  · intro hread
    obtain ⟨⟨n, mid⟩, hw, hr⟩ := bind_eq_ok_iff.mp hread
    obtain rfl := word_eq_ok_iff.mp hw
    obtain ⟨hlen, hfits, rfl⟩ := (items_exact h xs mid rest n.toNat).mp hr
    have hlt : xs.length < UInt64.size := by
      rw [hlen]
      exact n.toNat_lt_size
    refine ⟨⟨hlt, hfits⟩, ?_⟩
    rw [encodeList, hlen, List.append_assoc]
  · rintro ⟨⟨hlen, hfits⟩, rfl⟩
    have hn : (UInt64.ofNat xs.length).toNat = xs.length := UInt64.toNat_ofNat_of_lt' hlen
    refine bind_eq_ok_iff.mpr ⟨(UInt64.ofNat xs.length, xs.flatMap write ++ rest), ?_, ?_⟩
    · rw [word_eq_ok_iff, hn, encodeList, List.append_assoc]
    · exact (items_exact h xs _ rest _).mpr ⟨hn.symm, hfits, rfl⟩

theorem pair_exact : Exact pair encodePair fun p => TextFits p.name := by
  intro bytes p rest
  constructor
  · intro h
    obtain ⟨⟨name, mid⟩, hname, h⟩ := bind_eq_ok_iff.mp h
    obtain ⟨⟨count, last⟩, hcount, h⟩ := bind_eq_ok_iff.mp h
    cases h
    obtain ⟨hfits, rfl⟩ := (text_exact _ _ _).mp hname
    obtain rfl := word_eq_ok_iff.mp hcount
    exact ⟨hfits, by rw [encodePair, List.append_assoc]⟩
  · rintro ⟨hfits, rfl⟩
    refine bind_eq_ok_iff.mpr ⟨(p.name, encodeWord p.count.toNat ++ rest), ?_, ?_⟩
    · exact (text_exact _ _ _).mpr ⟨hfits, by rw [encodePair, List.append_assoc]⟩
    · exact bind_eq_ok_iff.mpr ⟨(p.count, rest), word_eq_ok_iff.mpr rfl, rfl⟩

theorem words_exact :
    Exact (list word) (encodeList fun n => encodeWord n.toNat)
      fun ns => ns.length < UInt64.size := by
  intro bytes ns rest
  rw [list_exact word_exact bytes ns rest]
  simp

theorem pairs_exact : Exact (list pair) (encodeList encodePair) PairsFit := list_exact pair_exact

theorem record_exact : Exact record encode HourRecord.Fits := by
  intro bytes r rest
  constructor
  · intro h
    obtain ⟨⟨total, b₁⟩, h₁, h⟩ := bind_eq_ok_iff.mp h
    obtain ⟨⟨results, b₂⟩, h₂, h⟩ := bind_eq_ok_iff.mp h
    obtain ⟨⟨domains, b₃⟩, h₃, h⟩ := bind_eq_ok_iff.mp h
    obtain ⟨⟨blocked, b₄⟩, h₄, h⟩ := bind_eq_ok_iff.mp h
    obtain ⟨⟨clients, b₅⟩, h₅, h⟩ := bind_eq_ok_iff.mp h
    obtain ⟨⟨mean, b₆⟩, h₆, h⟩ := bind_eq_ok_iff.mp h
    cases h
    obtain rfl := word_eq_ok_iff.mp h₁
    obtain ⟨f₂, rfl⟩ := (words_exact _ _ _).mp h₂
    obtain ⟨f₃, rfl⟩ := (pairs_exact _ _ _).mp h₃
    obtain ⟨f₄, rfl⟩ := (pairs_exact _ _ _).mp h₄
    obtain ⟨f₅, rfl⟩ := (pairs_exact _ _ _).mp h₅
    obtain rfl := word_eq_ok_iff.mp h₆
    exact ⟨⟨f₂, f₃, f₄, f₅⟩, by simp only [encode, List.append_assoc]⟩
  · rintro ⟨⟨f₂, f₃, f₄, f₅⟩, rfl⟩
    simp only [encode, List.append_assoc]
    refine bind_eq_ok_iff.mpr ⟨(r.total, _), word_eq_ok_iff.mpr rfl, ?_⟩
    refine bind_eq_ok_iff.mpr ⟨(r.results, _), (words_exact _ _ _).mpr ⟨f₂, rfl⟩, ?_⟩
    refine bind_eq_ok_iff.mpr ⟨(r.domains, _), (pairs_exact _ _ _).mpr ⟨f₃, rfl⟩, ?_⟩
    refine bind_eq_ok_iff.mpr ⟨(r.blockedDomains, _), (pairs_exact _ _ _).mpr ⟨f₄, rfl⟩, ?_⟩
    refine bind_eq_ok_iff.mpr ⟨(r.clients, _), (pairs_exact _ _ _).mpr ⟨f₅, rfl⟩, ?_⟩
    exact bind_eq_ok_iff.mpr ⟨(r.meanMicros, rest), word_eq_ok_iff.mpr rfl, rfl⟩

/-- **Reading a record.** Bytes hold a record exactly when they begin with what is written
for it. -/
theorem decode_eq_ok_iff {bytes : List UInt8} {r : HourRecord} :
    decode bytes = .ok r ↔ r.Fits ∧ encode r <+: bytes := by
  have hmap : decode bytes = .ok r ↔ ∃ rest, record bytes = .ok (r, rest) := by
    unfold decode
    cases record bytes with
    | error e => exact ⟨nofun, nofun⟩
    | ok p =>
      obtain ⟨x, rest⟩ := p
      constructor
      · intro h
        cases h
        exact ⟨rest, rfl⟩
      · rintro ⟨last, h⟩
        cases h
        rfl
  rw [hmap]
  constructor
  · rintro ⟨rest, h⟩
    obtain ⟨hfits, rfl⟩ := (record_exact bytes r rest).mp h
    exact ⟨hfits, List.prefix_append _ _⟩
  · rintro ⟨hfits, rest, rfl⟩
    exact ⟨rest, (record_exact _ r rest).mpr ⟨hfits, rfl⟩⟩

theorem decode_encode {r : HourRecord} (h : r.Fits) : decode (encode r) = .ok r :=
  decode_eq_ok_iff.mpr ⟨h, List.prefix_rfl⟩

theorem fits_of_decode {bytes : List UInt8} {r : HourRecord} (h : decode bytes = .ok r) :
    r.Fits := (decode_eq_ok_iff.mp h).1

end Codec
end QueryTally
