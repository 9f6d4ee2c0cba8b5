import QueryTally.Proofs.Store.Records

/-! # Records that are cut short

What is written for a record are numbers and the bytes of texts, one after the other
(`Codec.recordParts`). If the end is missing, everything before the cut is read as it was written,
and reading fails in the part in which the cut falls. The kind of that part says how: so a record
that is cut short is never taken for another, nor for one with a malformed text. -/

namespace QueryTally

namespace Codec

/-- A part of what is written for a record. -/
inductive Part where
  /-- A number or a length. -/
  | number (n : Nat)
  /-- The bytes of a text, without its length. -/
  | text (s : String)

namespace Part

def bytes : Part → List UInt8
  | number n => encodeWord n
  | text s => Utf8.encode s

/-- How reading fails if the bytes end before a part does. -/
def cutError : Part → DecodeError
  | number _ => .endOfInput
  | text _ => .textTooLong

end Part

def written (parts : List Part) : List UInt8 := parts.flatMap Part.bytes

@[simp] theorem written_nil : written [] = [] := rfl

@[simp] theorem written_cons (part : Part) (parts : List Part) :
    written (part :: parts) = part.bytes ++ written parts := rfl

@[simp] theorem written_append (ps qs : List Part) :
    written (ps ++ qs) = written ps ++ written qs := List.flatMap_append

/-- A part of which only a beginning is among the first `n` bytes, or nothing at all, though
everything before it is. -/
def CutIn (parts : List Part) (n : Nat) (part : Part) : Prop :=
  ∃ before after, parts = before ++ part :: after ∧ (written before).length ≤ n ∧
    n < (written before).length + part.bytes.length

section CutIn

variable {ps qs : List Part} {part other : Part} {n : Nat}

theorem CutIn.left (h : CutIn ps n part) (qs : List Part) : CutIn (ps ++ qs) n part := by
  obtain ⟨before, after, rfl, hle, hlt⟩ := h
  exact ⟨before, after ++ qs, by simp, hle, hlt⟩

theorem CutIn.right (h : CutIn qs n part) (ps : List Part) :
    CutIn (ps ++ qs) ((written ps).length + n) part := by
  obtain ⟨before, after, rfl, hle, hlt⟩ := h
  refine ⟨ps ++ before, after, by simp, ?_, ?_⟩
  · rw [written_append, List.length_append]
    omega
  · rw [written_append, List.length_append]
    omega

/-- A cut falls in one part only. -/
theorem CutIn.unique (h : CutIn ps n part) (k : CutIn ps n other) : part = other := by
  obtain ⟨before, after, rfl, hle, hlt⟩ := h
  obtain ⟨before', after', hsplit, hle', hlt'⟩ := k
  -- If one of them stood further back, the other would be among the first bytes as a whole.
  rcases List.append_eq_append_iff.mp hsplit with ⟨between, rfl, hrest⟩ | ⟨between, rfl, hrest⟩
  · cases between with
    | nil => exact (List.cons.inj hrest).1
    | cons p between =>
      obtain ⟨rfl, -⟩ := List.cons.inj hrest
      simp only [written_append, written_cons, List.length_append] at hle'
      omega
  · cases between with
    | nil => exact (List.cons.inj hrest).1.symm
    | cons p between =>
      obtain ⟨rfl, -⟩ := List.cons.inj hrest
      simp only [written_append, written_cons, List.length_append] at hle
      omega

theorem cutIn_singleton (h : n < part.bytes.length) : CutIn [part] n part :=
  ⟨[], [], rfl, Nat.zero_le n, by simpa using h⟩

end CutIn

def textParts (s : String) : List Part := [.number (Utf8.encode s).length, .text s]

def listParts {α : Type} (parts : α → List Part) (xs : List α) : List Part :=
  .number xs.length :: xs.flatMap parts

def pairParts (p : CountPair) : List Part := textParts p.name ++ [.number p.count.toNat]

def recordParts (r : HourRecord) : List Part :=
  .number r.total.toNat :: listParts (fun n : UInt64 => [.number n.toNat]) r.results ++
    listParts pairParts r.domains ++ listParts pairParts r.blockedDomains ++
    listParts pairParts r.clients ++ [.number r.meanMicros.toNat]

theorem written_listParts {α : Type} {parts : α → List Part} {item : α → List UInt8}
    (h : ∀ x, written (parts x) = item x) (xs : List α) :
    written (listParts parts xs) = encodeList item xs := by
  have hitems : written (xs.flatMap parts) = xs.flatMap item := by
    rw [written, List.flatMap_assoc]
    exact congrArg xs.flatMap (funext h)
  rw [listParts, written_cons, hitems]
  rfl

theorem written_recordParts (r : HourRecord) : written (recordParts r) = encode r := by
  have hwords : ∀ n : UInt64, written [.number n.toNat] = encodeWord n.toNat := fun n => by
    simp [Part.bytes]
  have hpairs : ∀ p : CountPair, written (pairParts p) = encodePair p := fun p => by
    simp [pairParts, textParts, Part.bytes, encodePair, encodeText]
  simp only [recordParts, encode, written_append, List.cons_append, written_cons,
    written_listParts hwords, written_listParts hpairs]
  simp [Part.bytes]

/-! ## Reading what is cut short -/

theorem word_short {bytes : List UInt8} (h : bytes.length < 8) :
    word bytes = .error .endOfInput := by
  have hshort : (bytes.take 8).length ≠ 8 := by
    rw [List.length_take]
    omega
  simp only [word, if_neg hshort]

/-- A text is not read from fewer bytes than it is announced to have. -/
theorem text_short {n : UInt64} {rest : List UInt8} (h : rest.length < n.toNat) :
    text (encodeWord n.toNat ++ rest) = .error .textTooLong := by
  have hword : word (encodeWord n.toNat ++ rest) = .ok (n, rest) := word_eq_ok_iff.mpr rfl
  have hfront : (rest.take n.toNat).length ≠ n.toNat := by
    rw [List.length_take]
    omega
  simp only [text, hword, bind, Except.bind, if_neg hfront]

def andThen {α β : Type} (read : Decoder α) (next : α → Decoder β) : Decoder β :=
  fun bytes => (read bytes).bind fun p => next p.1 p.2

theorem items_succ {α : Type} (item : Decoder α) (n : Nat) : items item (n + 1) =
    andThen item fun x => andThen (items item n) fun xs bytes => .ok (x :: xs, bytes) := rfl

theorem list_eq {α : Type} (item : Decoder α) :
    list item = andThen word fun n => items item n.toNat := rfl

theorem pair_eq : pair =
    andThen text fun name => andThen word fun count bytes => .ok (⟨name, count⟩, bytes) := rfl

theorem record_eq : record =
    andThen word fun total => andThen (list word) fun results =>
    andThen (list pair) fun domains => andThen (list pair) fun blockedDomains =>
    andThen (list pair) fun clients => andThen word fun meanMicros bytes =>
      .ok (⟨total, results, domains, blockedDomains, clients, meanMicros⟩, bytes) := rfl

/-- A decoder that reads a value from some parts, whatever comes after them, and fails in the part
in which they are cut. -/
structure Reads {α : Type} (read : Decoder α) (parts : List Part) (x : α) : Prop where
  whole : ∀ rest, read (written parts ++ rest) = .ok (x, rest)
  cut : ∀ n < (written parts).length, ∃ part, CutIn parts n part ∧
    read ((written parts).take n) = .error part.cutError

namespace Reads

variable {α β : Type} {read : Decoder α} {ps qs : List Part} {x : α} {y : β}

theorem nothing (x : α) : Reads (fun bytes => .ok (x, bytes)) [] x :=
  ⟨fun _ => rfl, fun _ hn => absurd hn (Nat.not_lt_zero _)⟩

/-- **One after the other.** -/
theorem andThen {next : α → Decoder β} (h : Reads read ps x) (k : Reads (next x) qs y) :
    Reads (Codec.andThen read next) (ps ++ qs) y where
  whole rest := by
    rw [written_append, List.append_assoc, Codec.andThen, h.whole]
    exact k.whole rest
  cut n hn := by
    rw [written_append, List.length_append] at hn
    rw [written_append]
    by_cases hfirst : n < (written ps).length
    · obtain ⟨part, hcut, herror⟩ := h.cut n hfirst
      refine ⟨part, hcut.left qs, ?_⟩
      rw [List.take_append_of_le_length (Nat.le_of_lt hfirst), Codec.andThen, herror]
      rfl
    · obtain ⟨m, rfl⟩ := Nat.exists_eq_add_of_le (Nat.not_lt.mp hfirst)
      obtain ⟨part, hcut, herror⟩ := k.cut m (by omega)
      refine ⟨part, hcut.right ps, ?_⟩
      rw [List.take_length_add_append, Codec.andThen, h.whole]
      exact herror

theorem number (n : UInt64) : Reads word [.number n.toNat] n where
  whole rest := word_eq_ok_iff.mpr (by simp [Part.bytes])
  cut k hk := by
    have hbytes : written [.number n.toNat] = encodeWord n.toNat := by simp [Part.bytes]
    rw [hbytes] at hk ⊢
    refine ⟨_, cutIn_singleton hk, word_short ?_⟩
    rw [length_encodeWord] at hk
    exact Nat.lt_of_le_of_lt (List.length_take_le _ _) hk

theorem text {s : String} (hfits : TextFits s) : Reads Codec.text (textParts s) s where
  whole rest := by
    refine (text_exact _ _ _).mpr ⟨hfits, ?_⟩
    simp [textParts, Part.bytes, encodeText]
  cut k hk := by
    have hbytes : written (textParts s) = encodeWord (Utf8.encode s).length ++ Utf8.encode s := by
      simp [textParts, Part.bytes]
    rw [hbytes] at hk ⊢
    by_cases hlength : k < 8
    · refine ⟨.number _, ⟨[], [.text s], rfl, Nat.zero_le k, ?_⟩, ?_⟩
      · simpa [Part.bytes, length_encodeWord] using hlength
      · have hshort := word_short (Nat.lt_of_le_of_lt
          (List.length_take_le k (encodeWord (Utf8.encode s).length ++ Utf8.encode s)) hlength)
        simp only [Codec.text, hshort]
        rfl
    · -- The length is there, and announces more than is left.
      obtain ⟨m, rfl⟩ := Nat.exists_eq_add_of_le (Nat.not_lt.mp hlength)
      rw [List.length_append, length_encodeWord] at hk
      have hword : (UInt64.ofNat (Utf8.encode s).length).toNat = (Utf8.encode s).length :=
        UInt64.toNat_ofNat_of_lt' (length_utf8_encode s ▸ hfits)
      have htake : (encodeWord (Utf8.encode s).length ++ Utf8.encode s).take (8 + m) =
          encodeWord (Utf8.encode s).length ++ (Utf8.encode s).take m := by
        rw [← length_encodeWord (Utf8.encode s).length, List.take_length_add_append]
      refine ⟨.text s, ⟨[.number (Utf8.encode s).length], [], rfl, ?_, ?_⟩, ?_⟩
      · simp [Part.bytes, length_encodeWord]
      · simp only [written_cons, written_nil, Part.bytes, List.length_append, length_encodeWord]
        omega
      · rw [htake, ← hword]
        refine text_short ?_
        rw [List.length_take, hword]
        omega

/-- **Item by item.** -/
theorem items {parts : α → List Part} {xs : List α} (h : ∀ x ∈ xs, Reads read (parts x) x) :
    Reads (Codec.items read xs.length) (xs.flatMap parts) xs := by
  induction xs with
  | nil => exact nothing []
  | cons x xs ih =>
    obtain ⟨hx, hxs⟩ := List.forall_mem_cons.mp h
    have hparts : (x :: xs).flatMap parts = parts x ++ (xs.flatMap parts ++ []) := by simp
    rw [List.length_cons, items_succ, hparts]
    exact hx.andThen ((ih hxs).andThen (nothing (x :: xs)))

theorem list {parts : α → List Part} {xs : List α} (hlength : xs.length < UInt64.size)
    (h : ∀ x ∈ xs, Reads read (parts x) x) :
    Reads (Codec.list read) (listParts parts xs) xs := by
  have hcount : (UInt64.ofNat xs.length).toNat = xs.length := UInt64.toNat_ofNat_of_lt' hlength
  have hword := number (UInt64.ofNat xs.length)
  rw [hcount] at hword
  rw [list_eq]
  refine hword.andThen ?_
  rw [hcount]
  exact items h

theorem pair {p : CountPair} (hfits : TextFits p.name) : Reads Codec.pair (pairParts p) p := by
  have hparts : pairParts p = textParts p.name ++ ([.number p.count.toNat] ++ []) := rfl
  rw [pair_eq, hparts]
  exact (text hfits).andThen ((number p.count).andThen (nothing p))

theorem pairs {ps : List CountPair} (hfits : PairsFit ps) :
    Reads (Codec.list Codec.pair) (listParts pairParts ps) ps :=
  list hfits.1 fun p hp => pair (hfits.2 p hp)

theorem words {ns : List UInt64} (hlength : ns.length < UInt64.size) :
    Reads (Codec.list word) (listParts (fun n : UInt64 => [.number n.toNat]) ns) ns :=
  list hlength fun n _ => number n

/-- **Field by field.** -/
theorem record {r : HourRecord} (hfits : r.Fits) : Reads Codec.record (recordParts r) r := by
  have hparts : recordParts r = [.number r.total.toNat] ++
      (listParts (fun n : UInt64 => [.number n.toNat]) r.results ++
        (listParts pairParts r.domains ++ (listParts pairParts r.blockedDomains ++
          (listParts pairParts r.clients ++ ([.number r.meanMicros.toNat] ++ []))))) := by
    simp [recordParts]
  rw [record_eq, hparts]
  refine (number r.total).andThen ?_
  refine (words hfits.results).andThen ?_
  refine (pairs hfits.domains).andThen ?_
  refine (pairs hfits.blockedDomains).andThen ?_
  refine (pairs hfits.clients).andThen ?_
  exact (number r.meanMicros).andThen (nothing r)

end Reads

/-- **The cut is what fails.** -/
theorem decode_cut {r : HourRecord} {p : List UInt8} (hfits : r.Fits) (hfront : p <+: encode r)
    (hproper : p ≠ encode r) :
    ∃ part, CutIn (recordParts r) p.length part ∧ decode p = .error part.cutError := by
  have hshort : p.length < (written (recordParts r)).length := by
    rw [written_recordParts]
    refine Nat.lt_of_le_of_ne hfront.length_le fun hlength => ?_
    exact hproper (hfront.eq_of_length hlength)
  obtain ⟨part, hcut, herror⟩ := (Reads.record hfits).cut p.length hshort
  rw [written_recordParts, ← List.prefix_iff_eq_take.mp hfront] at herror
  exact ⟨part, hcut, decode_error herror⟩

end Codec

namespace Transaction

open Codec

/-- **A record that is cut short is refused.** If the end of what is written for a record is
missing, it is not read, and the wording says where the cut falls: in a number or length, or in
the bytes of a text, at their beginning or between any two of them. The bytes of a text that are
there are never found malformed. This is also what a transaction gets from such a cell. -/
theorem cut_refused (r : HourRecord) (p : List UInt8) (hfits : r.Fits)
    (hfront : p <+: encode r) (hproper : p ≠ encode r) :
    written (recordParts r) = encode r ∧
    ∃ e, decode p = .error e ∧
      ((StoreError.codec e).message = "Record codec error: io error: unexpected end of file" ↔
        ∃ n, CutIn (recordParts r) p.length (.number n)) ∧
      ((StoreError.codec e).message = "Record codec error: io error: " ↔
        ∃ s, CutIn (recordParts r) p.length (.text s)) ∧
      (∀ fault, e ≠ .malformedText fault) ∧
      ∀ (t : Transaction) (db : Database) (table : Table) (hour : Hour), t.Sees db table →
        table.get? hour.cell recordSlot = some (.blob p) → t.get hour = .error (.codec e) := by
  obtain ⟨part, hcut, herror⟩ := decode_cut hfits hfront hproper
  have hget : ∀ (t : Transaction) (db : Database) (table : Table) (hour : Hour), t.Sees db table →
      table.get? hour.cell recordSlot = some (.blob p) →
        t.get hour = .error (.codec part.cutError) := by
    intro t db table hour hsees hstored
    rw [hsees.get_blob hstored, herror]
    rfl
  refine ⟨written_recordParts r, part.cutError, herror, ?_⟩
  cases part with
  | number n =>
    have hother : (StoreError.codec .endOfInput).message ≠ "Record codec error: io error: " := by
      decide
    refine ⟨⟨fun _ => ⟨n, hcut⟩, fun _ => rfl⟩, ⟨fun h => absurd h hother, fun h => ?_⟩, nofun,
      hget⟩
    obtain ⟨s, hs⟩ := h
    cases hcut.unique hs
  | text s =>
    have hother : (StoreError.codec .textTooLong).message ≠
        "Record codec error: io error: unexpected end of file" := by
      decide
    refine ⟨⟨fun h => absurd h hother, fun h => ?_⟩, ⟨fun _ => ⟨s, hcut⟩, fun _ => rfl⟩, nofun,
      hget⟩
    obtain ⟨n, hn⟩ := h
    cases hcut.unique hn

/-- A record with a name of one character, which takes two bytes. -/
def accentRecord : HourRecord where
  domains := [⟨"é", 1⟩]

theorem fits_accentRecord : accentRecord.Fits := by
  have hname : TextFits "é" := by
    unfold TextFits
    decide +kernel
  refine ⟨by decide, ⟨by decide, ?_⟩, pairsFit_nil, pairsFit_nil⟩
  simpa [accentRecord] using hname

/-- The name comes after 72 bytes, so that its character is cut after 73. -/
theorem cut_refused_accent :
    (encode accentRecord).take 73 <+: encode accentRecord ∧
    (encode accentRecord).take 73 ≠ encode accentRecord ∧
    CutIn (recordParts accentRecord) 73 (.text "é") ∧
    ∃ e, decode ((encode accentRecord).take 73) = .error e ∧
      (StoreError.codec e).message = "Record codec error: io error: " := by
  have hfront := List.take_prefix 73 (encode accentRecord)
  have hproper : (encode accentRecord).take 73 ≠ encode accentRecord := by decide +kernel
  have hlength : ((encode accentRecord).take 73).length = 73 := by decide +kernel
  have hcut : CutIn (recordParts accentRecord) 73 (.text "é") :=
    ⟨(recordParts accentRecord).take 9, (recordParts accentRecord).drop 10, by rfl,
      by decide +kernel, by decide +kernel⟩
  obtain ⟨-, e, herror, -, htext, -⟩ :=
    cut_refused accentRecord _ fits_accentRecord hfront hproper
  exact ⟨hfront, hproper, hcut, e, herror, htext.mpr ⟨_, hlength.symm ▸ hcut⟩⟩

end Transaction
end QueryTally
