import QueryTally.Proofs.Address
import QueryTally.Proofs.Amounts

/-! # Clients and their names

The text of an address can be read back (`Address.read`): the separators are no digits, so that the
text falls into its numbers again, and what `::` leaves out is as many zero groups as are missing
from eight. An address of four bytes has no colon in its text, one that embeds four bytes has both
separators, and any other has no dot. So no two clients share a name, and what is counted under a
name is counted of one client. -/

namespace QueryTally

namespace Address

/-! ## Numbers with separators -/

def digitValue (c : Char) : Nat :=
  if c.isDigit then c.toNat - '0'.toNat else c.toNat - 'a'.toNat + 10

def readNumber (base : Nat) (digits : List Char) : Nat :=
  digits.foldl (fun n c => base * n + digitValue c) 0

def numbers (base : Nat) (sep : Char) (ns : List Nat) : List Char :=
  [sep].intercalate (ns.map (Nat.toDigits base))

/-- A base whose digits are decimal or hexadecimal ones. -/
structure IsBase (base : Nat) : Prop where
  low : 1 < base
  high : base ≤ 16

theorem isBase_ten : IsBase 10 := ⟨by decide, by decide⟩

theorem isBase_sixteen : IsBase 16 := ⟨by decide, by decide⟩

/-- A character that is no digit. -/
def Separates (c : Char) : Prop := ∀ d < 16, d.digitChar ≠ c

theorem separates_dot : Separates '.' := by
  unfold Separates
  decide

theorem separates_colon : Separates ':' := by
  unfold Separates
  decide

section Numbers

variable {base : Nat} {ns : List Nat} {c sep : Char} (hbase : IsBase base)

theorem digitValue_digitChar {d : Nat} (h : d < 16) : digitValue d.digitChar = d := by
  decide +revert

theorem mem_numbers (h : 2 ≤ ns.length) : sep ∈ numbers base sep ns := by
  match ns, h with
  | a :: b :: rest, _ => simp [numbers, List.intercalate_cons_cons]

include hbase

theorem readNumber_toDigits (n : Nat) : readNumber base (Nat.toDigits base n) = n := by
  have hlow := hbase.low
  induction n using Nat.strongRecOn with
  | ind n ih =>
    rw [Nat.toDigits_eq_if hlow]
    split
    · rename_i hsmall
      simp [readNumber, digitValue_digitChar (Nat.lt_of_lt_of_le hsmall hbase.high)]
    · rename_i hlarge
      have hrest := ih (n / base) (Nat.div_lt_self (by omega) hlow)
      have hdigit := Nat.lt_of_lt_of_le (Nat.mod_lt n (by omega)) hbase.high
      rw [readNumber] at hrest ⊢
      rw [List.foldl_append, hrest, List.foldl_cons, List.foldl_nil, digitValue_digitChar hdigit]
      exact Nat.div_add_mod n base

theorem exists_digit_of_mem {n : Nat} (h : c ∈ Nat.toDigits base n) :
    ∃ d < 16, d.digitChar = c := by
  have hlow := hbase.low
  induction n using Nat.strongRecOn with
  | ind n ih =>
    rw [Nat.toDigits_eq_if hlow] at h
    split at h
    · rename_i hsmall
      exact ⟨n, Nat.lt_of_lt_of_le hsmall hbase.high, (List.mem_singleton.mp h).symm⟩
    · rcases List.mem_append.mp h with hfront | hlast
      · exact ih (n / base) (Nat.div_lt_self (by omega) hlow) hfront
      · have hdigit := Nat.mod_lt n (Nat.lt_of_succ_lt hlow)
        exact ⟨n % base, Nat.lt_of_lt_of_le hdigit hbase.high, (List.mem_singleton.mp hlast).symm⟩

theorem Separates.not_mem_toDigits (hc : Separates c) (n : Nat) : c ∉ Nat.toDigits base n := by
  intro hmem
  obtain ⟨d, hd, hdigit⟩ := exists_digit_of_mem hbase hmem
  exact hc d hd hdigit

/-- A character that is neither a digit nor the separator is not there. -/
theorem Separates.not_mem_numbers (hc : Separates c) (hsep : c ≠ sep) (ns : List Nat) :
    c ∉ numbers base sep ns := by
  induction ns with
  | nil => simp [numbers]
  | cons n ns ih =>
    have hfirst := hc.not_mem_toDigits hbase n
    by_cases hlast : ns = []
    · subst hlast
      simpa [numbers] using hfirst
    · have hmore : ns.map (Nat.toDigits base) ≠ [] := by simpa using hlast
      rw [numbers, List.map_cons, List.intercalate_cons_of_ne_nil hmore]
      simp only [List.mem_append, List.mem_singleton, not_or]
      exact ⟨⟨hfirst, hsep⟩, ih⟩

/-- **The numbers come back** if the separator is no digit. -/
theorem splitOn_numbers (hsep : Separates sep) (h : ns ≠ []) :
    (numbers base sep ns).splitOn sep = ns.map (Nat.toDigits base) := by
  refine List.splitOn_intercalate sep (fun digits hdigits => ?_) (by simpa using h)
  obtain ⟨n, -, rfl⟩ := List.mem_map.mp hdigits
  exact hsep.not_mem_toDigits hbase n

theorem map_readNumber : (ns.map (Nat.toDigits base)).map (readNumber base) = ns := by
  simp [Function.comp_def, readNumber_toDigits hbase]

end Numbers

/-! ## Decimal numbers with dots -/

theorem toList_dotted (bytes : List UInt8) :
    (dotted bytes).toList = numbers 10 '.' (bytes.map UInt8.toNat) := by
  simp [dotted, numbers, String.toList_intercalate, Function.comp_def]

/-- The bytes that decimal numbers with dots between them write. -/
def readDotted (cs : List Char) : List UInt8 :=
  ((cs.splitOn '.').map (readNumber 10)).map UInt8.ofNat

theorem readDotted_dotted {bytes : List UInt8} (h : bytes ≠ []) :
    readDotted (dotted bytes).toList = bytes := by
  have hnumbers : bytes.map UInt8.toNat ≠ [] := by simpa using h
  rw [readDotted, toList_dotted, splitOn_numbers isBase_ten separates_dot hnumbers,
    map_readNumber isBase_ten]
  simp [Function.comp_def]

theorem colon_not_mem_dotted (bytes : List UInt8) : ':' ∉ (dotted bytes).toList := by
  rw [toList_dotted]
  exact separates_colon.not_mem_numbers isBase_ten (by decide) _

theorem dot_mem_dotted {bytes : List UInt8} (h : 2 ≤ bytes.length) :
    '.' ∈ (dotted bytes).toList := by
  rw [toList_dotted]
  exact mem_numbers (by simpa using h)

/-! ## Groups with colons -/

theorem toList_colons (gs : List Nat) : (colons gs).toList = numbers 16 ':' gs := by
  simp [colons, numbers, groupText, String.toList_intercalate, Function.comp_def]

theorem dot_not_mem_colons (gs : List Nat) : '.' ∉ (colons gs).toList := by
  rw [toList_colons]
  exact separates_dot.not_mem_numbers isBase_sixteen (by decide) gs

theorem dot_not_mem_compressed (gs : List Nat) : '.' ∉ (compressed gs).toList := by
  unfold compressed
  split
  split
  · exact dot_not_mem_colons gs
  · simp [dot_not_mem_colons]

/-- Segments that write the groups, and one empty one if there are none. -/
theorem splitOn_colons (gs : List Nat) : (colons gs).toList.splitOn ':' =
    if gs = [] then [[]] else gs.map (Nat.toDigits 16) := by
  rw [toList_colons]
  split
  · rename_i hnone
    subst hnone
    rfl
  · rename_i hsome
    exact splitOn_numbers isBase_sixteen separates_colon hsome

/-- A run of zero groups that is as long as any that begins at one of the first `n`, and the first
such. -/
structure FirstLongest (gs : List Nat) (n : Nat) (run : Nat × Nat) : Prop where
  zeros : run.2 ≤ leadingZeros (gs.drop run.1)
  longest : ∀ i < n, leadingZeros (gs.drop i) ≤ run.2
  first : ∀ i < run.1, leadingZeros (gs.drop i) < run.2

theorem firstLongest (gs : List Nat) : FirstLongest gs gs.length (longestZeroRun gs) := by
  suffices h : ∀ n, FirstLongest gs n ((List.range n).foldl (fun best i =>
      if best.2 < leadingZeros (gs.drop i) then (i, leadingZeros (gs.drop i)) else best)
      (0, 0)) from h gs.length
  intro n
  induction n with
  | zero => exact ⟨Nat.zero_le _, nofun, nofun⟩
  | succ n ih =>
    rw [List.range_succ, List.foldl_append, List.foldl_cons, List.foldl_nil]
    split
    · rename_i hlonger
      refine ⟨Nat.le_refl _, fun i hi => ?_, fun i hi => ?_⟩
      · rcases Nat.lt_succ_iff_lt_or_eq.mp hi with hlt | rfl
        · exact Nat.le_trans (ih.longest i hlt) (Nat.le_of_lt hlonger)
        · exact Nat.le_refl _
      · exact Nat.lt_of_le_of_lt (ih.longest i hi) hlonger
    · rename_i hshorter
      refine ⟨ih.zeros, fun i hi => ?_, ih.first⟩
      rcases Nat.lt_succ_iff_lt_or_eq.mp hi with hlt | rfl
      · exact ih.longest i hlt
      · exact Nat.not_lt.mp hshorter

theorem take_eq_replicate {gs : List Nat} {n : Nat} (h : n ≤ leadingZeros gs) :
    gs.take n = List.replicate n 0 := by
  induction gs generalizing n with
  | nil =>
    obtain rfl := Nat.le_zero.mp h
    rfl
  | cons g gs ih =>
    cases n with
    | zero => rfl
    | succ n =>
      by_cases hg : g = 0
      · subst hg
        have hzeros : leadingZeros (0 :: gs) = leadingZeros gs + 1 := by simp [leadingZeros]
        rw [List.take_succ_cons, ih (by omega), List.replicate_succ]
      · simp [leadingZeros, hg] at h

/-- The groups before a run of zeros, the run, and the groups after it. -/
theorem FirstLongest.eq_append {gs : List Nat} {n : Nat} {run : Nat × Nat}
    (h : FirstLongest gs n run) :
    gs = gs.take run.1 ++ List.replicate run.2 0 ++ gs.drop (run.1 + run.2) := by
  rw [← take_eq_replicate h.zeros, List.append_assoc, ← List.drop_drop, List.take_append_drop,
    List.take_append_drop]

/-- A run without zeros is at the front, and any other within the groups. -/
theorem FirstLongest.length_take {gs : List Nat} {n : Nat} {run : Nat × Nat}
    (h : FirstLongest gs n run) : (gs.take run.1).length = run.1 := by
  rw [List.length_take, Nat.min_eq_left]
  by_cases hnone : run.2 = 0
  · have hfront : run.1 = 0 := by
      refine Nat.eq_zero_of_not_pos fun hpos => ?_
      have := h.first 0 hpos
      omega
    omega
  · refine Nat.le_of_not_lt fun hlt => hnone ?_
    have hzeros := h.zeros
    rw [List.drop_eq_nil_of_le (Nat.le_of_lt hlt)] at hzeros
    exact Nat.le_zero.mp hzeros

/-- **What a text leaves out.** It is the first of the longest runs of zero groups, if that has two
groups at least. -/
theorem exists_compressed (gs : List Nat) :
    ∃ front zeros back, gs = front ++ List.replicate zeros 0 ++ back ∧
      FirstLongest gs gs.length (front.length, zeros) ∧
      compressed gs =
        if zeros < 2 then colons gs else colons front ++ "::" ++ colons back := by
  have hrun := firstLongest gs
  refine ⟨_, _, _, hrun.eq_append, ?_, rfl⟩
  rw [hrun.length_take]
  exact hrun

/-- The eight groups of a text with colons. An empty segment stands for the zeros that are
missing. -/
def readGroups (cs : List Char) : List Nat :=
  let segments := cs.splitOn ':'
  let gs := (segments.filter (!·.isEmpty)).map (readNumber 16)
  let start := (segments.takeWhile (!·.isEmpty)).length
  gs.take start ++ List.replicate (8 - gs.length) 0 ++ gs.drop start

theorem filter_splitOn_colons (gs : List Nat) :
    ((colons gs).toList.splitOn ':').filter (!·.isEmpty) = gs.map (Nat.toDigits 16) := by
  rw [splitOn_colons]
  split
  · rename_i hnone
    subst hnone
    rfl
  · simp [List.filter_eq_self]

theorem takeWhile_splitOn_colons (gs : List Nat) (rest : List (List Char)) :
    ((colons gs).toList.splitOn ':' ++ [] :: rest).takeWhile (!·.isEmpty) =
      gs.map (Nat.toDigits 16) := by
  rw [splitOn_colons]
  split
  · rename_i hnone
    subst hnone
    rfl
  · rw [List.takeWhile_append_of_pos]
    · simp
    · simp

theorem readGroups_colons {gs : List Nat} (h : gs.length = 8) :
    readGroups (colons gs).toList = gs := by
  simp only [readGroups, filter_splitOn_colons]
  rw [map_readNumber isBase_sixteen, h]
  simp

/-- What is left out comes back, as many zeros as are missing. -/
theorem readGroups_leftOut (front back : List Nat) :
    readGroups (colons front ++ "::" ++ colons back).toList =
      front ++ List.replicate (8 - (front.length + back.length)) 0 ++ back := by
  have hsplit : (colons front ++ "::" ++ colons back).toList.splitOn ':' =
      (colons front).toList.splitOn ':' ++ [] :: (colons back).toList.splitOn ':' := by
    have hempty := List.splitOn_append_cons_self [] (colons back).toList (a := ':')
    simp only [List.nil_append, List.splitOn_nil, List.singleton_append] at hempty
    rw [← hempty, ← List.splitOn_append_cons_self]
    simp
  have hgroups : (((colons front ++ "::" ++ colons back).toList.splitOn ':').filter
      (!·.isEmpty)).map (readNumber 16) = front ++ back := by
    rw [hsplit, List.filter_append, filter_splitOn_colons, List.filter_cons_of_neg (by simp),
      filter_splitOn_colons, ← List.map_append, map_readNumber isBase_sixteen]
  simp only [readGroups]
  rw [hgroups, hsplit, takeWhile_splitOn_colons, List.length_map, List.take_left, List.drop_left,
    List.length_append]

/-- **Groups come back**, whether or not zeros are left out. -/
theorem readGroups_compressed {gs : List Nat} (h : gs.length = 8) :
    readGroups (compressed gs).toList = gs := by
  obtain ⟨front, zeros, back, hgroups, -, htext⟩ := exists_compressed gs
  rw [htext]
  split
  · exact readGroups_colons h
  · have hlength := congrArg List.length hgroups
    simp only [List.length_append, List.length_replicate] at hlength
    have hmissing : 8 - (front.length + back.length) = zeros := by omega
    rw [readGroups_leftOut, hmissing, ← hgroups]

/-! ## Addresses -/

def bytesOf (gs : List Nat) : List UInt8 :=
  gs.flatMap fun n => [UInt8.ofNat (n / 256), UInt8.ofNat (n % 256)]

theorem bytesOf_groups {bytes : List UInt8} (h : 2 ∣ bytes.length) :
    bytesOf (groups bytes) = bytes := by
  fun_induction groups bytes with
  | case1 a b rest ih =>
    have hrest : 2 ∣ rest.length := by
      rw [List.length_cons, List.length_cons] at h
      omega
    have hb := b.toNat_lt
    have ha : (a.toNat * 256 + b.toNat) / 256 = a.toNat := by omega
    have hmod : (a.toNat * 256 + b.toNat) % 256 = b.toNat := by omega
    rw [bytesOf] at ih
    rw [bytesOf, List.flatMap_cons, ih hrest, ha, hmod]
    simp
  | case2 bytes hshort =>
    cases bytes with
    | nil => rfl
    | cons a rest =>
      cases rest with
      | nil => simp at h
      | cons b rest => exact absurd rfl (hshort a b rest)

def read (name : String) : List UInt8 :=
  let cs := name.toList
  if '.' ∉ cs then bytesOf (readGroups cs)
  else if ':' ∈ cs then mappedMark ++ readDotted (cs.drop 7)
  else readDotted cs

/-- **Addresses come back from their texts.** -/
theorem read_of_text? {bytes : List UInt8} {name : String} (h : text? bytes = some name) :
    read name = bytes := by
  unfold text? at h
  split at h
  · rename_i hfour
    obtain rfl := Option.some.inj h
    have hdot : '.' ∈ (dotted bytes).toList := dot_mem_dotted (by omega)
    have hbytes : bytes ≠ [] := List.length_pos_iff.mp (by omega)
    simp only [read, hdot, colon_not_mem_dotted, not_true_eq_false, if_false]
    exact readDotted_dotted hbytes
  · split at h
    · rename_i hsixteen
      obtain rfl := Option.some.inj h
      unfold sixteen
      split
      · rename_i hmapped
        obtain ⟨four, rfl⟩ := hmapped
        have hmark : mappedMark.length = 12 := rfl
        rw [List.length_append, hmark] at hsixteen
        have hdot : '.' ∈ (dotted four).toList := dot_mem_dotted (by omega)
        have hfour : four ≠ [] := List.length_pos_iff.mp (by omega)
        rw [← hmark, List.drop_left]
        simp only [read]
        simp [hdot, readDotted_dotted hfour]
      · simp only [read, dot_not_mem_compressed, not_false_eq_true, if_true]
        rw [readGroups_compressed (by rw [length_groups, hsixteen]), bytesOf_groups (by omega)]
    · cases h

def ofText? (name : String) : Option (List UInt8) :=
  if text? (read name) = some name then some (read name) else none

theorem ofText?_eq_some_iff {name : String} {bytes : List UInt8} :
    ofText? name = some bytes ↔ text? bytes = some name := by
  unfold ofText?
  constructor
  · intro h
    split at h
    · rename_i htext
      rwa [← Option.some.inj h]
    · cases h
  · intro h
    rw [read_of_text? h, if_pos h]

/-- **No two addresses share a text.** -/
theorem eq_of_text? {bytes others : List UInt8} {name : String} (h : text? bytes = some name)
    (k : text? others = some name) : bytes = others := by
  rw [← read_of_text? h, read_of_text? k]

theorem exists_text? {bytes : List UInt8} (h : bytes.length = 4 ∨ bytes.length = 16) :
    ∃ name, text? bytes = some name :=
  Option.isSome_iff_exists.mp (text?_isSome_iff.mpr h)

end Address

namespace LiveHour

variable {u w : LiveHour} {events : List Event} {name : String}

/-- What is added under the name of a client is what is counted of that client. -/
theorem countOf_clients (h : u.ingestAll events = .ok w) {bytes : List UInt8}
    (hname : Address.text? bytes = some name) :
    w.clients.countOf name = u.clients.countOf name +
      events.countP fun e => decide (e.Valid ∧ e.client = bytes) := by
  obtain ⟨-, hamounts, -⟩ := amounts_ingestAll h
  have hsum := congrArg (fun a => a.name .clients name) hamounts
  have hclient : ∀ e : Event, e.name? .clients = some name ↔ e.client = bytes := by
    intro e
    refine ⟨fun htext => Address.eq_of_text? htext hname, fun hbytes => ?_⟩
    rw [← hname, ← hbytes]
    rfl
  simp only [Amounts.name_add, contribution, hclient] at hsum
  exact hsum

/-- A name is that of a client that is counted, if it was not there. -/
theorem isSome_clients_iff (h : u.ingestAll events = .ok w) :
    (w.clients.get? name).isSome ↔ (u.clients.get? name).isSome ∨
      ∃ e ∈ events, e.Valid ∧ Address.ofText? name = some e.client := by
  obtain ⟨-, -, hnames⟩ := amounts_ingestAll h
  refine (hnames .clients name).trans ?_
  rw [or_comm]
  refine or_congr Iff.rfl ?_
  simp only [contribution, List.countP_pos_iff, decide_eq_true_eq, Address.ofText?_eq_some_iff]
  rfl

/-- **Clients are kept apart.** Two clients have the same name only if they are the same, and the
bytes of a client can be read from its name. In particular four bytes have another name than the
sixteen that embed them. Where no four bytes are embedded, `::` stands in the name for the first of
the longest runs of zero groups, if that has two groups at least. So what is counted under a name is
counted of one client, and all that is counted of it. -/
theorem clients_apart :
    (∀ d e : Event, d.client.length = 4 ∨ d.client.length = 16 →
      d.clientText? = e.clientText? → d.client = e.client) ∧
    (∀ e : Event, e.client.length = 4 ∨ e.client.length = 16 →
      ∃ name, e.clientText? = some name ∧ Address.ofText? name = some e.client) ∧
    (∀ (name : String) (bytes : List UInt8),
      Address.ofText? name = some bytes ↔ Address.text? bytes = some name) ∧
    (∀ four : List UInt8, four.length = 4 →
      Address.text? four ≠ Address.text? (Address.mappedMark ++ four)) ∧
    (∀ bytes : List UInt8, bytes.length = 16 → Address.FirstLongest (Address.groups bytes) 8
      (Address.longestZeroRun (Address.groups bytes))) ∧
    (∀ bytes : List UInt8, bytes.length = 16 → ¬ Address.mappedMark <+: bytes →
      ∃ front zeros back, Address.groups bytes = front ++ List.replicate zeros 0 ++ back ∧
        Address.FirstLongest (Address.groups bytes) 8 (front.length, zeros) ∧
        Address.text? bytes = some (if zeros < 2 then Address.colons (Address.groups bytes)
          else Address.colons front ++ "::" ++ Address.colons back)) ∧
    ∀ (u w : LiveHour) (events : List Event), u.ingestAll events = .ok w →
      (∀ bytes name, Address.text? bytes = some name →
        w.clients.countOf name = u.clients.countOf name +
          events.countP fun e => decide (e.Valid ∧ e.client = bytes)) ∧
      ∀ name, (w.clients.get? name).isSome ↔ (u.clients.get? name).isSome ∨
        ∃ e ∈ events, e.Valid ∧ Address.ofText? name = some e.client := by
  refine ⟨fun d e hd hsame => ?_, fun e he => ?_, fun _ _ => Address.ofText?_eq_some_iff,
    fun four hfour hsame => ?_, fun bytes hbytes => ?_, fun bytes hbytes hmark => ?_,
    fun u w events h => ⟨fun _ _ => countOf_clients h, fun _ => isSome_clients_iff h⟩⟩
  · obtain ⟨name, hname⟩ := Address.exists_text? hd
    exact Address.eq_of_text? hname (hsame.symm.trans hname)
  · obtain ⟨name, hname⟩ := Address.exists_text? he
    exact ⟨name, hname, Address.ofText?_eq_some_iff.mpr hname⟩
  · obtain ⟨name, hname⟩ := Address.exists_text? (.inl hfour)
    have hequal := Address.eq_of_text? hname (hsame.symm.trans hname)
    have hlength := congrArg List.length hequal
    simp only [Address.mappedMark, List.length_append, List.length_replicate] at hlength
    omega
  · have hrun := Address.firstLongest (Address.groups bytes)
    rwa [Address.length_groups, hbytes] at hrun
  · obtain ⟨front, zeros, back, hgroups, hrun, htext⟩ :=
      Address.exists_compressed (Address.groups bytes)
    rw [Address.length_groups, hbytes] at hrun
    refine ⟨front, zeros, back, hgroups, hrun, ?_⟩
    rw [← htext, Address.text?, if_neg (by omega), if_pos hbytes, Address.sixteen, if_neg hmark]

/-- Queries of a client with four bytes, and of the one with sixteen that embed them. -/
def embeddedEvents : List Event :=
  let four : Event := {
    verdict := some .notFiltered, domain := "a.example", client := [10, 0, 0, 1], micros := 5 }
  [four, { four with client := Address.mappedMark ++ [10, 0, 0, 1] }, four]

theorem clients_apart_embedded :
    Address.text? [10, 0, 0, 1] = some "10.0.0.1" ∧
    Address.text? (Address.mappedMark ++ [10, 0, 0, 1]) = some "::ffff:10.0.0.1" ∧
    Address.ofText? "::ffff:10.0.0.1" = some (Address.mappedMark ++ [10, 0, 0, 1]) ∧
    ∃ w, (start 7).ingestAll embeddedEvents = .ok w ∧
      w.clients.countOf "10.0.0.1" = 2 ∧ w.clients.countOf "::ffff:10.0.0.1" = 1 := by
  obtain ⟨-, -, hread, -, -, -, hcounts⟩ := clients_apart
  have hfour : Address.text? [10, 0, 0, 1] = some "10.0.0.1" := by decide +kernel
  have hsixteen : Address.text? (Address.mappedMark ++ [10, 0, 0, 1]) =
      some "::ffff:10.0.0.1" := by
    decide +kernel
  have hfits : ((start 7).amounts + contribution embeddedEvents).Fits :=
    (fits_start_iff 7).mpr ⟨by decide +kernel, by decide +kernel⟩
  obtain ⟨w, hw⟩ := exists_ingestAll_iff.mpr hfits
  obtain ⟨hcount, -⟩ := hcounts (start 7) w embeddedEvents hw
  refine ⟨hfour, hsixteen, (hread _ _).mpr hsixteen, w, hw, ?_, ?_⟩
  · rw [hcount _ _ hfour]
    decide +kernel
  · rw [hcount _ _ hsixteen]
    decide +kernel

end LiveHour
end QueryTally
