import Mathlib.Data.List.Induction
import Mathlib.Data.Nat.Digits.Lemmas
import WalletVault.Phrase.Codec
import WalletVault.Proofs.Wire

/-!
# Numbers as digits

A number below a power of the base and its digits determine each other, be the
digits bytes with the most significant first or the word indices of a phrase.
-/

namespace WalletVault

/-!
# Reading from the left
-/

theorem foldl_eq_ofDigits (base : Nat) (values : List Nat) :
    values.foldl (fun n d => n * base + d) 0 = Nat.ofDigits base values.reverse := by
  rw [Nat.ofDigits_eq_foldr, List.foldr_reverse]
  simp only [Nat.add_comm, Nat.mul_comm, Nat.cast_id]

/-!
# Digits to base 256
-/

namespace Bytes

theorem toNatBE_eq_ofDigits (data : Bytes) :
    toNatBE data = Nat.ofDigits 256 (data.map UInt8.toNat).reverse := by
  rw [← foldl_eq_ofDigits, List.foldl_map, toNatBE]
  simp only [Nat.mul_comm]

theorem toNatBE_concat (data : Bytes) (b : UInt8) :
    toNatBE (data ++ [b]) = 256 * toNatBE data + b.toNat := by
  simp [toNatBE]

theorem toNatBE_cons (b : UInt8) (rest : Bytes) :
    toNatBE (b :: rest) = 256 ^ rest.length * b.toNat + toNatBE rest := by
  rw [toNatBE_eq_ofDigits, toNatBE_eq_ofDigits, List.map_cons, Nat.ofDigits_reverse_cons,
    List.length_map, Nat.add_comm]

theorem toNatBE_reverse (data : Bytes) : toNatBE data.reverse = toNatLE data := by
  induction data with
  | nil =>
      rfl
  | cons b rest ih =>
      rw [List.reverse_cons, toNatBE_concat, ih, toNatLE, Nat.add_comm]

theorem toNatBE_eq (data : Bytes) : toNatBE data = toNatLE data.reverse := by
  rw [← toNatBE_reverse, List.reverse_reverse]

theorem toNatBE_lt (data : Bytes) : toNatBE data < 256 ^ data.length := by
  rw [toNatBE_eq, ← List.length_reverse]
  exact toNatLE_lt data.reverse

theorem toNatBE_ofNatBE {width n : Nat} (h : n < 256 ^ width) : toNatBE (ofNatBE width n) = n := by
  rw [ofNatBE, toNatBE_reverse, toNatLE_ofNatLE, Nat.mod_eq_of_lt h]

theorem ofNatBE_toNatBE (data : Bytes) : ofNatBE data.length (toNatBE data) = data := by
  rw [ofNatBE, toNatBE_eq, ← List.length_reverse, ofNatLE_toNatLE, List.reverse_reverse]

end Bytes

/-!
# Digits to base 2048
-/

namespace Phrase

theorem digits_succ (count n : Nat) :
    digits (count + 1) n = digits count (n / 2048) ++ [n % 2048] := by
  unfold digits
  rw [List.range_succ_eq_map, List.reverse_cons, List.map_append, ← List.map_reverse,
    List.map_map]
  congr 1
  · apply List.map_congr_left
    intro i _
    change n / 2048 ^ (i + 1) % 2048 = n / 2048 / 2048 ^ i % 2048
    rw [Nat.div_div_eq_div_mul, Nat.pow_succ, Nat.mul_comm]
  · change [n / 2048 ^ 0 % 2048] = [n % 2048]
    rw [Nat.pow_zero, Nat.div_one]

@[simp] theorem length_digits (count n : Nat) : (digits count n).length = count := by
  simp [digits]

theorem lt_of_mem_digits {count n index : Nat} (h : index ∈ digits count n) : index < 2048 := by
  rcases List.mem_map.mp h with ⟨i, _, hindex⟩
  rw [← hindex]
  exact Nat.mod_lt _ (by decide)

theorem ofDigits_concat (indices : List Nat) (last : Nat) :
    ofDigits (indices ++ [last]) = ofDigits indices * 2048 + last := by
  simp [ofDigits]

theorem ofDigits_eq (indices : List Nat) : ofDigits indices = Nat.ofDigits 2048 indices.reverse :=
  foldl_eq_ofDigits 2048 indices

theorem ofDigits_lt {indices : List Nat} (h : forall index, index ∈ indices -> index < 2048) :
    ofDigits indices < 2048 ^ indices.length := by
  rw [ofDigits_eq, ← List.length_reverse]
  apply Nat.ofDigits_lt_base_pow_length (by decide)
  intro index hindex
  exact h index (List.mem_reverse.mp hindex)

theorem ofDigits_digits {count n : Nat} (h : n < 2048 ^ count) :
    ofDigits (digits count n) = n := by
  induction count generalizing n with
  | zero =>
      have hzero : n = 0 := Nat.lt_one_iff.mp h
      rw [hzero]
      rfl
  | succ count ih =>
      rw [Nat.pow_succ] at h
      rw [digits_succ, ofDigits_concat, ih (Nat.div_lt_of_lt_mul (by omega))]
      exact Nat.div_add_mod' n 2048

theorem digits_ofDigits {indices : List Nat}
    (h : forall index, index ∈ indices -> index < 2048) :
    digits indices.length (ofDigits indices) = indices := by
  -- From the right, as the last digit is the remainder of the number.
  induction indices using List.reverseRecOn with
  | nil =>
      rfl
  | append_singleton front last ih =>
      have hfront := ih (fun index hindex => h index (List.mem_append_left [last] hindex))
      have hlast := h last (List.mem_append_right front (List.mem_singleton_self last))
      have hhigh : (ofDigits front * 2048 + last) / 2048 = ofDigits front := by omega
      have hlow : (ofDigits front * 2048 + last) % 2048 = last := by omega
      rw [List.length_append, List.length_singleton, ofDigits_concat, digits_succ, hhigh, hlow,
        hfront]

end Phrase
end WalletVault
