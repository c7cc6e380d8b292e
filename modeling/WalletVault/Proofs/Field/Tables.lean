import WalletVault.Field.Tables
import WalletVault.Proofs.Field.Arithmetic

/-!
# Products and quotients by tables

A product of nonzero elements is the power whose exponent is the sum of the
exponents of its factors, and a quotient the one whose exponent is their
difference, so that no product and no quotient looks outside of a table.
-/

namespace WalletVault
namespace Gf256

/-!
# Powers of three
-/

theorem mk_power (n : Nat) : (⟨power n⟩ : Element) = Element.generator ^ n := by
  induction n with
  | zero =>
      rfl
  | succ n ih =>
      rw [power, Element.mk_mul, ih, pow_succ]
      rfl

theorem power_ne_zero (n : Nat) : power n ≠ 0 := by
  intro hzero
  apply Element.generator_pow_ne_zero n
  rw [← mk_power, hzero, Element.mk_zero]

theorem power_add (m n : Nat) : power (m + n) = mul (power m) (power n) := by
  apply Element.mk_injective
  rw [Element.mk_mul, mk_power, mk_power, mk_power, pow_add]

theorem power_add_period (n : Nat) : power (255 + n) = power n := by
  apply Element.mk_injective
  rw [mk_power, mk_power, pow_add, Element.generator_pow, one_mul]

theorem power_mod (n : Nat) : power (n % 255) = power n := by
  apply Element.mk_injective
  rw [mk_power, mk_power, ← Element.orderOf_generator, pow_mod_orderOf]

theorem power_inj {m n : Nat} (hm : m < 255) (hn : n < 255)
    (h : power m = power n) : m = n := by
  have hpow : Element.generator ^ m = Element.generator ^ n := by
    rw [← mk_power, ← mk_power, h]
  rw [← Element.orderOf_generator] at hm hn
  exact pow_injOn_Iio_orderOf hm hn hpow

theorem exists_power {a : UInt8} (ha : a ≠ 0) : exists n, n < 255 ∧ power n = a := by
  have hne : (⟨a⟩ : Element) ≠ 0 := fun h => ha (congrArg Element.byte h)
  rcases Element.exists_generator_pow hne with ⟨n, hn⟩
  refine ⟨n % 255, Nat.mod_lt n (by decide), ?_⟩
  apply Element.mk_injective
  rw [power_mod, mk_power, hn]

/-!
# The tables
-/

theorem foldl_repeatEntry (n : Nat) :
    (List.range n).foldl repeatEntry ((List.range 255).map power) =
      (List.range (255 + n)).map power := by
  induction n with
  | zero =>
      rfl
  | succ n ih =>
      have hlt : n < 255 + n := by omega
      have hentry : ((List.range (255 + n)).map power).getD n 0 = power (255 + n) := by
        rw [power_add_period]
        simp [hlt]
      rw [@List.range_succ n, List.foldl_append, ih, List.foldl_cons, List.foldl_nil,
        repeatEntry, hentry, ← Nat.add_assoc, @List.range_succ (255 + n), List.map_append,
        List.map_singleton]

theorem getElem?_powers {n : Nat} (hn : n < 512) : powers[n]? = some (power n) := by
  rw [powers, foldl_repeatEntry, List.getElem?_map, List.getElem?_range hn]
  rfl

theorem length_foldl_setExponent (table : List Nat) (items : List Nat) :
    (items.foldl setExponent table).length = table.length := by
  induction items generalizing table with
  | nil =>
      rfl
  | cons i rest ih =>
      rw [List.foldl_cons, ih, setExponent, List.length_set]

theorem getElem?_foldl_setExponent {table : List Nat} (htable : table.length = 256)
    {n : Nat} (hn : n <= 255) {i : Nat} (hi : i < n) :
    ((List.range n).foldl setExponent table)[(power i).toNat]? = some i := by
  induction n with
  | zero =>
      omega
  | succ n ih =>
      have hplace : (power i).toNat < ((List.range n).foldl setExponent table).length := by
        rw [length_foldl_setExponent, htable]
        exact (power i).toNat_lt
      rw [List.range_succ, List.foldl_append, List.foldl_cons, List.foldl_nil, setExponent]
      rcases Nat.lt_succ_iff_lt_or_eq.mp hi with hlt | rfl
      · have hother : (power n).toNat ≠ (power i).toNat := by
          intro h
          have hsame := power_inj (by omega) (by omega) (UInt8.toNat_inj.mp h)
          omega
        rw [List.getElem?_set_ne hother]
        exact ih (by omega) hlt
      · rw [List.getElem?_set_self hplace]

theorem getElem?_exponents {n : Nat} (hn : n < 255) :
    exponents[(power n).toNat]? = some n :=
  getElem?_foldl_setExponent (List.length_replicate) (Nat.le_refl 255) hn

/-!
# Products and quotients
-/

theorem productByTable_eq (a b : UInt8) : productByTable a b = some (mul a b) := by
  unfold productByTable
  split
  next hzero =>
    rcases hzero with rfl | rfl
    · rw [Gf256.zero_mul]
    · rw [Gf256.mul_comm, Gf256.zero_mul]
  next hne =>
    rcases not_or.mp hne with ⟨ha, hb⟩
    rcases exists_power ha with ⟨m, hm, rfl⟩
    rcases exists_power hb with ⟨n, hn, rfl⟩
    rw [getElem?_exponents hm, getElem?_exponents hn, ← power_add, Option.bind_eq_bind,
      Option.bind_some, Option.bind_some, getElem?_powers (by omega)]

theorem mul_inv_power {m n : Nat} (hn : n < 255) :
    mul (power m) (inv (power n)) = power (m + 255 - n) := by
  have hsplit : m + 255 - n + n = 255 + m := by omega
  apply Element.mk_injective
  change (⟨power m⟩ : Element) * ⟨power n⟩⁻¹ = ⟨power (m + 255 - n)⟩
  rw [← power_add_period m, ← hsplit, power_add, Element.mk_mul, mul_inv_cancel_right₀]
  exact fun h => power_ne_zero n (congrArg Element.byte h)

theorem quotientByTable_eq (a b : UInt8) : quotientByTable a b = div? a b := by
  unfold quotientByTable div?
  split
  next =>
    rfl
  next hb =>
    split
    next ha =>
      rw [ha, Gf256.zero_mul]
    next ha =>
      rcases exists_power ha with ⟨m, hm, rfl⟩
      rcases exists_power hb with ⟨n, hn, rfl⟩
      have hplace : (m + 255 - n) % 255 < 512 := by omega
      rw [getElem?_exponents hm, getElem?_exponents hn, mul_inv_power hn, Option.bind_eq_bind,
        Option.bind_some, Option.bind_some, getElem?_powers hplace, power_mod]

end Gf256
end WalletVault
