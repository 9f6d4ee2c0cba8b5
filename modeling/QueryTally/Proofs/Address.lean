import QueryTally.Event
import QueryTally.Proofs.Codec

/-! # The text of an address is short

An address is a few numbers with separators between them, so its text fits, and is not empty. -/

namespace QueryTally.Address

theorem size_ofList_le (cs : List Char) : (String.ofList cs).utf8ByteSize ≤ 4 * cs.length := by
  induction cs with
  | nil => exact Nat.le_refl 0
  | cons c cs ih =>
    have hc := c.utf8Size_le_four
    rw [show c :: cs = [c] ++ cs from rfl, String.ofList_append, String.utf8ByteSize_append,
      ← String.singleton_eq_ofList, String.utf8ByteSize_singleton, List.length_append,
      List.length_singleton]
    omega

theorem size_intercalate_le {separator : String} {xs : List String} {k : Nat}
    (h : ∀ x ∈ xs, x.utf8ByteSize ≤ k) :
    (separator.intercalate xs).utf8ByteSize ≤ xs.length * (k + separator.utf8ByteSize) := by
  induction xs with
  | nil => simp
  | cons x xs ih =>
    obtain ⟨hx, hxs⟩ := List.forall_mem_cons.mp h
    have ih := ih hxs
    rw [List.length_cons, Nat.succ_mul]
    by_cases hne : xs = []
    · subst hne
      rw [String.intercalate_singleton]
      omega
    · rw [String.intercalate_cons_of_ne_nil hne, String.utf8ByteSize_append,
        String.utf8ByteSize_append]
      omega

/-- The text of a number with at most `k` digits. -/
theorem size_digits_le {base n k : Nat} (h : (Nat.toDigits base n).length ≤ k) :
    (String.ofList (Nat.toDigits base n)).utf8ByteSize ≤ 4 * k :=
  Nat.le_trans (size_ofList_le _) (Nat.mul_le_mul_left 4 h)

theorem size_dotted_le (bytes : List UInt8) :
    (dotted bytes).utf8ByteSize ≤ bytes.length * 13 := by
  have hbyte : ∀ x ∈ bytes.map fun b => toString b.toNat, x.utf8ByteSize ≤ 12 := by
    intro x hx
    obtain ⟨b, -, rfl⟩ := List.mem_map.mp hx
    rw [Nat.toString_eq_ofList_toDigits]
    have hb := b.toNat_lt
    have hlen : (Nat.toDigits 10 b.toNat).length ≤ 3 :=
      (Nat.length_toDigits_le_iff (by decide) (by decide)).mpr (by omega)
    exact size_digits_le hlen
  exact List.length_map _ ▸ size_intercalate_le hbyte

theorem groups_lt (bytes : List UInt8) : ∀ n ∈ groups bytes, n < 65536 := by
  fun_induction groups bytes with
  | case1 a b rest ih =>
    have ha := a.toNat_lt
    have hb := b.toNat_lt
    exact List.forall_mem_cons.mpr ⟨by omega, ih⟩
  | case2 => exact nofun

theorem length_groups (bytes : List UInt8) : (groups bytes).length = bytes.length / 2 := by
  fun_induction groups bytes with
  | case1 a b rest ih =>
    simp only [List.length_cons]
    omega
  | case2 bytes hshort =>
    match bytes with
    | [] => rfl
    | [b] => simp
    | a :: b :: rest => exact absurd rfl (hshort a b rest)

theorem size_colons_le {gs : List Nat} (h : ∀ n ∈ gs, n < 65536) :
    (colons gs).utf8ByteSize ≤ gs.length * 17 := by
  have hgroup : ∀ x ∈ gs.map groupText, x.utf8ByteSize ≤ 16 := by
    intro x hx
    obtain ⟨n, hn, rfl⟩ := List.mem_map.mp hx
    have hlen : (Nat.toDigits 16 n).length ≤ 4 :=
      (Nat.length_toDigits_le_iff (by decide) (by decide)).mpr (h n hn)
    exact size_digits_le hlen
  exact List.length_map _ ▸ size_intercalate_le hgroup

theorem size_compressed_le {gs : List Nat} (h : ∀ n ∈ gs, n < 65536) :
    (compressed gs).utf8ByteSize ≤ gs.length * 34 + 2 := by
  unfold compressed
  split
  rename_i start length _
  split
  · have := size_colons_le h
    omega
  · have htake := size_colons_le fun n hn => h n (List.mem_of_mem_take (i := start) hn)
    have hdrop := size_colons_le fun n hn => h n (List.mem_of_mem_drop (i := start + length) hn)
    have hsep : ("::" : String).utf8ByteSize = 2 := rfl
    rw [List.length_take] at htake
    rw [List.length_drop] at hdrop
    rw [String.utf8ByteSize_append, String.utf8ByteSize_append, hsep]
    omega

/-- The text of an address fits. -/
theorem textFits_of_text? {bytes : List UInt8} {s : String} (h : text? bytes = some s) :
    TextFits s := by
  have hsmall : s.utf8ByteSize ≤ 1000 := by
    unfold text? at h
    split at h
    · cases h
      have := size_dotted_le bytes
      omega
    · split at h
      · rename_i hlen
        cases h
        unfold sixteen
        split
        · have hdot := size_dotted_le (bytes.drop 12)
          have hmark : ("::ffff:" : String).utf8ByteSize = 7 := rfl
          rw [List.length_drop] at hdot
          rw [String.utf8ByteSize_append, hmark]
          omega
        · have hgroups := size_compressed_le (groups_lt bytes)
          have hcount := length_groups bytes
          omega
      · cases h
  exact Nat.lt_of_le_of_lt hsmall (by decide)

/-! ## No address is empty -/

theorem append_ne_empty {s t u : String} (h : 0 < t.utf8ByteSize) : s ++ t ++ u ≠ "" := by
  intro e
  have hsize := congrArg String.utf8ByteSize e
  rw [String.utf8ByteSize_append, String.utf8ByteSize_append] at hsize
  have hzero : ("" : String).utf8ByteSize = 0 := rfl
  omega

theorem intercalate_ne_empty {separator : String} (h : 0 < separator.utf8ByteSize)
    {xs : List String} (hxs : 2 ≤ xs.length) : separator.intercalate xs ≠ "" := by
  match xs, hxs with
  | x :: y :: rest, _ =>
    rw [String.intercalate_cons_of_ne_nil (List.cons_ne_nil y rest)]
    exact append_ne_empty h

theorem compressed_ne_empty {gs : List Nat} (h : 2 ≤ gs.length) : compressed gs ≠ "" := by
  unfold compressed
  split
  split
  · exact intercalate_ne_empty (by decide) (by rwa [List.length_map])
  · exact append_ne_empty (by decide)

/-- The text of an address is not empty. -/
theorem ne_empty_of_text? {bytes : List UInt8} {s : String} (h : text? bytes = some s) :
    s ≠ "" := by
  unfold text? at h
  split at h
  · rename_i hlen
    cases h
    exact intercalate_ne_empty (by decide) (by rw [List.length_map, hlen]; decide)
  · split at h
    · rename_i hlen
      cases h
      unfold sixteen
      split
      · have hmark : ("::ffff:" : String) = "" ++ "::ffff:" := rfl
        rw [hmark]
        exact append_ne_empty (by decide)
      · exact compressed_ne_empty (by rw [length_groups, hlen]; decide)
    · cases h

end QueryTally.Address
