import WalletVault.Base58
import WalletVault.Proofs.Digits

/-!
# Digits spelled to another base

A byte string and its base-58 text are the digits of one number to two bases,
most significant first, and have as many zeros in front. A number has no zeros
of its own in front, so spelling digits to another base and back changes
nothing.
-/

namespace WalletVault

namespace Base58

/-!
# Change of base
-/

/-- Digits to one base spelled to another, with the zeros in front kept one for one. -/
def respell (source target : Nat) (values : List Nat) : List Nat :=
  List.replicate (values.takeWhile (· == 0)).length 0 ++
    (Nat.digits target (Nat.ofDigits source values.reverse)).reverse

section Respell

variable {source target : Nat}

theorem respell_nil : respell source target [] = [] := by
  simp [respell]

theorem respell_zero_cons (rest : List Nat) :
    respell source target (0 :: rest) = 0 :: respell source target rest := by
  simp [respell, List.replicate_succ, Nat.ofDigits_append_zero]

theorem respell_of_head? {values : List Nat} (h : values.head? ≠ some 0) :
    respell source target values =
      (Nat.digits target (Nat.ofDigits source values.reverse)).reverse := by
  cases values with
  | nil =>
      simp [respell]
  | cons d rest =>
      have hd : d ≠ 0 := fun hzero => h (congrArg some hzero)
      simp [respell, hd]

theorem head?_digits_ne_zero (base n : Nat) : (Nat.digits base n).reverse.head? ≠ some 0 := by
  intro hhead
  rw [List.head?_reverse] at hhead
  by_cases hn : n = 0
  · rw [hn, Nat.digits_zero] at hhead
    cases hhead
  · have hlast := (List.getLast_eq_iff_getLast?_eq_some
      (Nat.digits_ne_nil_iff_ne_zero.mpr hn)).mpr hhead
    exact Nat.getLast_digit_ne_zero base hn hlast

theorem digits_ofDigits_reverse (hsource : 1 < source) {values : List Nat}
    (h : forall d, d ∈ values -> d < source) (hhead : values.head? ≠ some 0) :
    Nat.digits source (Nat.ofDigits source values.reverse) = values.reverse := by
  apply Nat.digits_ofDigits source hsource
  · intro d hd
    exact h d (List.mem_reverse.mp hd)
  · intro hsome hlast
    apply hhead
    rw [← List.getLast?_reverse]
    exact (List.getLast_eq_iff_getLast?_eq_some hsome).mp hlast

theorem respell_respell (hsource : 1 < source) {values : List Nat}
    (h : forall d, d ∈ values -> d < source) :
    respell target source (respell source target values) = values := by
  induction values with
  | nil =>
      rw [respell_nil, respell_nil]
  | cons d rest ih =>
      by_cases hd : d = 0
      · have hrest := ih (fun e he => h e (List.mem_cons_of_mem d he))
        rw [hd, respell_zero_cons, respell_zero_cons, hrest]
      · -- Neither spelling has a zero in front, so both are the digits of the one number.
        have hhead : (d :: rest).head? ≠ some 0 := fun hzero => hd (Option.some.inj hzero)
        rw [respell_of_head? hhead, respell_of_head? (head?_digits_ne_zero _ _),
          List.reverse_reverse, Nat.ofDigits_digits, digits_ofDigits_reverse hsource h hhead,
          List.reverse_reverse]

theorem lt_of_mem_respell (htarget : 1 < target) {values : List Nat} :
    forall d, d ∈ respell source target values -> d < target := by
  intro d hd
  rcases List.mem_append.mp hd with hzero | hdigit
  · rw [List.eq_of_mem_replicate hzero]
    exact Nat.zero_lt_of_lt htarget
  · exact Nat.digits_lt_base htarget (List.mem_reverse.mp hdigit)

theorem respell_eq_nil_iff (hsource : 1 < source) {values : List Nat}
    (h : forall d, d ∈ values -> d < source) :
    respell source target values = [] <-> values = [] := by
  constructor
  · intro hnone
    have hback : respell target source (respell source target values) = values :=
      respell_respell hsource h
    rw [← hback, hnone, respell_nil]
  · intro hnone
    rw [hnone, respell_nil]

theorem respell_replicate_zero (count : Nat) :
    respell source target (List.replicate count 0) = List.replicate count 0 := by
  induction count with
  | zero =>
      exact respell_nil
  | succ count ih =>
      rw [List.replicate_succ, respell_zero_cons, ih]

end Respell

end Base58

/-!
# Byte strings and letter values as digits
-/

namespace Bytes

theorem digitCount_div {n : Nat} (h : n ≠ 0) : digitCount n = digitCount (n / 256) + 1 := by
  have hlog : (n / 256).log2 = n.log2 - 8 := by
    rw [Nat.log2_eq_log_two, Nat.log2_eq_log_two]
    exact Nat.log_div_base_pow 2 n 8
  have hsmall : n.log2 < 8 <-> n < 256 := Nat.log2_lt h
  unfold digitCount
  rw [hlog, if_neg h]
  split
  · omega
  · omega

theorem ofNatLE_digitCount (n : Nat) :
    ofNatLE (digitCount n) n = (Nat.digits 256 n).map UInt8.ofNat := by
  induction n using Nat.strongRecOn with
  | ind n ih =>
      by_cases hn : n = 0
      · rw [hn, Nat.digits_zero]
        rfl
      · have hless : n / 256 < n := Nat.div_lt_self (Nat.pos_of_ne_zero hn) (by decide)
        rw [digitCount_div hn, ofNatLE, ih (n / 256) hless,
          Nat.digits_def' (by decide) (Nat.pos_of_ne_zero hn), List.map_cons]

theorem minimalBE_eq (n : Nat) : minimalBE n = (Nat.digits 256 n).reverse.map UInt8.ofNat := by
  rw [minimalBE, ofNatBE, ofNatLE_digitCount, List.map_reverse]

end Bytes

namespace Base58

theorem digits_eq (n : Nat) : digits n = Nat.digits 58 n := by
  induction n using digits.induct with
  | case1 =>
      rw [digits, Nat.digits_zero]
      rfl
  | case2 n hn ih =>
      rw [digits, if_neg hn, ih, Nat.digits_def' (by decide) (Nat.pos_of_ne_zero hn)]

theorem ofDigits_eq (values : List Nat) : ofDigits values = Nat.ofDigits 58 values.reverse :=
  foldl_eq_ofDigits 58 values

theorem encodeChars_eq (data : Bytes) :
    encodeChars data = (respell 256 58 (data.map UInt8.toNat)).map letter := by
  have hzero : (fun n : Nat => n == 0) ∘ UInt8.toNat = fun b : UInt8 => b == 0 := by
    funext b
    rw [Function.comp_apply, Bool.eq_iff_iff, beq_iff_eq, beq_iff_eq]
    exact UInt8.toNat_inj (b := 0)
  have hzeros : ((data.map UInt8.toNat).takeWhile (· == 0)).length =
      (data.takeWhile (· == 0)).length := by
    rw [List.takeWhile_map, List.length_map, hzero]
  rw [respell, List.map_append, List.map_replicate, hzeros, ← Bytes.toNatBE_eq_ofDigits,
    ← digits_eq]
  rfl

theorem decodeValues_eq (values : List Nat) :
    decodeValues values = (respell 58 256 values).map UInt8.ofNat := by
  rw [respell, List.map_append, List.map_replicate, ← ofDigits_eq, ← Bytes.minimalBE_eq]
  rfl

end Base58
end WalletVault
