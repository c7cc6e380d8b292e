import WalletVault.Base64

/-!
# Base-64 texts

A text is read as the six-bit values it was written from, and these are the
bits of the bytes in groups of three. So what was written is read back.
-/

namespace WalletVault
namespace Base64

/-!
# Six-bit values
-/

/-- The six-bit values of a byte string; the last one is filled up with zeros. -/
def sextets : Bytes -> List Nat
  | a :: b :: c :: rest =>
    let n := 65536 * a.toNat + 256 * b.toNat + c.toNat
    n / 262144 :: n / 4096 % 64 :: n / 64 % 64 :: n % 64 :: sextets rest
  | [a, b] =>
    let n := 256 * a.toNat + b.toNat
    [n / 1024, n / 16 % 64, n % 16 * 4]
  | [a] => [a.toNat / 4, a.toNat % 4 * 16]
  | [] => []

theorem lt_of_mem_sextets {data : Bytes} : forall n, n ∈ sextets data -> n < 64 := by
  induction data using sextets.induct with
  | case1 a b c rest ih =>
      have ha := a.toNat_lt
      have hb := b.toNat_lt
      have hc := c.toNat_lt
      simp only [sextets, List.forall_mem_cons]
      exact ⟨by omega, by omega, by omega, by omega, ih⟩
  | case2 a b =>
      have ha := a.toNat_lt
      have hb := b.toNat_lt
      simp only [sextets, List.forall_mem_cons]
      exact ⟨by omega, by omega, by omega, List.forall_mem_nil _⟩
  | case3 a =>
      have ha := a.toNat_lt
      simp only [sextets, List.forall_mem_cons]
      exact ⟨by omega, by omega, List.forall_mem_nil _⟩
  | case4 =>
      exact List.forall_mem_nil _

theorem ofNat_eq {n : Nat} {b : UInt8} (h : n = b.toNat) : UInt8.ofNat n = b := by
  rw [h, UInt8.ofNat_toNat]

theorem joined_eq (n : Nat) :
    262144 * (n / 262144) + 4096 * (n / 4096 % 64) + 64 * (n / 64 % 64) + n % 64 = n := by
  omega

theorem join_sextets (data : Bytes) : join (sextets data) = data := by
  induction data using sextets.induct with
  | case1 a b c rest ih =>
      have hb := b.toNat_lt
      have hc := c.toNat_lt
      simp only [sextets, join, ih, joined_eq]
      rw [ofNat_eq (b := a) (by omega), ofNat_eq (b := b) (by omega),
        ofNat_eq (b := c) (by omega)]
  | case2 a b =>
      have hb := b.toNat_lt
      simp only [sextets, join]
      rw [ofNat_eq (b := a) (by omega), ofNat_eq (b := b) (by omega)]
  | case3 a =>
      simp only [sextets, join]
      rw [ofNat_eq (b := a) (by omega)]
  | case4 =>
      rfl

/-!
# Letters and padding
-/

def padding : Bytes -> List Char
  | _ :: _ :: _ :: rest => padding rest
  | [_, _] => ['=']
  | [_] => ['=', '=']
  | [] => []

theorem encodeChars_eq (data : Bytes) :
    encodeChars data = (sextets data).map letter ++ padding data := by
  induction data using encodeChars.induct with
  | case1 a b c rest ih =>
      simp only [encodeChars, sextets, padding, ih, List.map_cons, List.cons_append]
  | case2 a b =>
      rfl
  | case3 a =>
      rfl
  | case4 =>
      rfl

theorem padding_cases (data : Bytes) :
    padding data = [] ∧ (sextets data).length % 4 = 0 ∨
      padding data = ['='] ∧ (sextets data).length % 4 = 3 ∨
        padding data = ['=', '='] ∧ (sextets data).length % 4 = 2 := by
  induction data using padding.induct with
  | case1 a b c rest ih =>
      simp only [padding, sextets, List.length_cons]
      rwa [Nat.add_assoc, Nat.add_assoc, Nat.add_assoc, Nat.add_mod_right]
  | case2 a b =>
      exact Or.inr (Or.inl ⟨rfl, rfl⟩)
  | case3 a =>
      exact Or.inr (Or.inr ⟨rfl, rfl⟩)
  | case4 =>
      exact Or.inl ⟨rfl, rfl⟩

theorem letter_spec :
    forall n, n < 64 -> value? (letter n) = some n ∧ letter n ≠ '=' ∧ (letter n).toNat < 128 := by
  decide

theorem scan_letters {values : List Nat} (h : forall n, n ∈ values -> n < 64) (seen : List Nat)
    (rest : List Char) :
    scan seen 0 false (values.map letter ++ rest) = scan (values.reverse ++ seen) 0 false rest := by
  induction values generalizing seen with
  | nil =>
      rfl
  | cons n values ih =>
      rcases List.forall_mem_cons.mp h with ⟨hn, hvalues⟩
      rcases letter_spec n hn with ⟨hvalue, hletter, _⟩
      rw [List.map_cons, List.cons_append, scan, if_neg hletter, hvalue]
      change scan (n :: seen) 0 false (values.map letter ++ rest) = _
      rw [ih hvalues, List.reverse_cons, List.append_assoc, List.singleton_append]

theorem scan_padding {data : Bytes} {seen : List Nat} (h : seen.length = (sextets data).length) :
    scan seen 0 false (padding data) = .ok seen.reverse := by
  rcases padding_cases data with ⟨hpadding, hlength⟩ | ⟨hpadding, hlength⟩ | ⟨hpadding, hlength⟩
  · rw [hpadding, scan, h, hlength]
    rfl
  -- The last sign ends the text only where it makes a group of four full.
  · rw [hpadding, scan, if_pos rfl, if_neg (by omega), if_neg (by omega), if_pos rfl]
  · rw [hpadding, scan, if_pos rfl, if_neg (by omega), if_pos (by omega), scan, if_pos rfl,
      if_neg (by omega), if_neg (by omega), if_pos rfl]

theorem scan_encodeChars (data : Bytes) :
    scan [] 0 false (encodeChars data) = .ok (sextets data) := by
  have hlength : (sextets data).reverse.length = (sextets data).length := List.length_reverse
  rw [encodeChars_eq, scan_letters lt_of_mem_sextets, List.append_nil, scan_padding hlength,
    List.reverse_reverse]

/-!
# Whole texts
-/

theorem ascii_of_mem_encodeChars {data : Bytes} {c : Char} (h : c ∈ encodeChars data) :
    c.toNat < 128 := by
  rw [encodeChars_eq] at h
  rcases List.mem_append.mp h with hletter | hpad
  · rcases List.mem_map.mp hletter with ⟨n, hn, hsame⟩
    rw [← hsame]
    exact (letter_spec n (lt_of_mem_sextets n hn)).2.2
  · have hsign : c = '=' := by
      rcases padding_cases data with ⟨hpadding, _⟩ | ⟨hpadding, _⟩ | ⟨hpadding, _⟩
      · simp [hpadding] at hpad
      · simpa [hpadding] using hpad
      · simpa [hpadding] using hpad
    rw [hsign]
    decide

theorem head?_encodeChars_ne (data : Bytes) : (encodeChars data).head? ≠ some '=' := by
  rw [encodeChars_eq]
  cases hvalues : sextets data with
  | nil =>
      rcases padding_cases data with ⟨hpadding, _⟩ | ⟨_, hlength⟩ | ⟨_, hlength⟩
      · rw [hpadding]
        exact Option.some_ne_none _ ∘ Eq.symm
      · rw [hvalues] at hlength
        cases hlength
      · rw [hvalues] at hlength
        cases hlength
  | cons n rest =>
      have hn : n < 64 := by
        apply lt_of_mem_sextets
        rw [hvalues]
        exact List.mem_cons_self
      intro hsame
      exact (letter_spec n hn).2.1 (Option.some.inj hsame)

theorem decode_encode (data : Bytes) : decode (encode data) = .ok data := by
  have hascii : (encodeChars data).any (fun c => 128 <= c.toNat) = false := by
    rw [List.any_eq_false]
    intro c hc
    rw [decide_eq_true_eq, Nat.not_le]
    exact ascii_of_mem_encodeChars hc
  simp only [decode, encode, String.toList_ofList]
  rw [hascii, if_neg Bool.false_ne_true, if_neg (head?_encodeChars_ne data), scan_encodeChars]
  exact congrArg Except.ok (join_sextets data)

end Base64
end WalletVault
