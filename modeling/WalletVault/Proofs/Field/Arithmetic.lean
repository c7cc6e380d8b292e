import Mathlib.Algebra.Field.Basic
import Mathlib.Data.Fintype.Card
import Mathlib.GroupTheory.OrderOfElement
import WalletVault.Field.Gf256

/-!
# Arithmetic of the field of 256 elements

Bytes with exclusive or as sum and `Gf256.mul` as product form a field.
Doubling respects sums, and every map that respects sums and doublings respects
products; commutativity and associativity follow from that alone. The inverses
come from a generator: the powers of three run through all nonzero elements.
-/

namespace WalletVault
namespace Gf256

/-!
# Sums and doublings
-/

theorem forall_byte {p : UInt8 -> Prop} (h : forall a : Fin 256, p (UInt8.ofFin a))
    (a : UInt8) : p a := by
  simpa using h a.toFin

theorem xor_xor_xor_comm (a b c d : UInt8) :
    a ^^^ b ^^^ (c ^^^ d) = a ^^^ c ^^^ (b ^^^ d) := by
  ac_rfl

theorem and_xor (a b mask : UInt8) :
    (a ^^^ b) &&& mask = a &&& mask ^^^ b &&& mask := by
  apply UInt8.toBitVec_inj.mp
  ext i
  simp [Bool.and_xor_distrib_right]

theorem and_high_eq (a : UInt8) : a &&& 0x80 = 0 ∨ a &&& 0x80 = 0x80 :=
  forall_byte (p := fun a => a &&& 0x80 = 0 ∨ a &&& 0x80 = 0x80)
    (by decide +kernel) a

theorem double_xor (a b : UInt8) :
    double (a ^^^ b) = double a ^^^ double b := by
  unfold double
  rw [and_xor, UInt8.shiftLeft_xor, xor_xor_xor_comm]
  rcases and_high_eq a with ha | ha <;> rcases and_high_eq b with hb | hb <;>
    simp [ha, hb]

/-!
# Products

A product is a sum of doublings of its first factor. So it respects sums on the
left, and so does every map that respects sums and doublings.
-/

theorem mulBits_xor (bits : Nat) (a a' b : UInt8) :
    mulBits bits (a ^^^ a') b = mulBits bits a b ^^^ mulBits bits a' b := by
  induction bits generalizing a a' b with
  | zero =>
      simp [mulBits]
  | succ bits ih =>
      simp only [mulBits, double_xor, ih]
      rw [xor_xor_xor_comm]
      by_cases hb : b &&& 1 = 0 <;> simp [hb]

theorem map_zero_of_xor {f : UInt8 -> UInt8}
    (hsum : forall a b, f (a ^^^ b) = f a ^^^ f b) : f 0 = 0 := by
  have h := hsum 0 0
  rw [UInt8.xor_self] at h
  rw [h, UInt8.xor_self]

theorem map_mulBits {f : UInt8 -> UInt8}
    (hsum : forall a b, f (a ^^^ b) = f a ^^^ f b)
    (hdouble : forall a, f (double a) = double (f a))
    (bits : Nat) (a b : UInt8) :
    f (mulBits bits a b) = mulBits bits (f a) b := by
  induction bits generalizing a b with
  | zero =>
      exact map_zero_of_xor hsum
  | succ bits ih =>
      simp only [mulBits, hsum, ih, hdouble]
      by_cases hb : b &&& 1 = 0 <;> simp [hb, map_zero_of_xor hsum]

theorem xor_mul (a b c : UInt8) : mul (a ^^^ b) c = mul a c ^^^ mul b c :=
  mulBits_xor 8 a b c

protected theorem mul_double (a b : UInt8) : mul (double a) b = double (mul a b) :=
  (map_mulBits double_xor (fun _ => rfl) 8 a b).symm

protected theorem mul_right_comm (a b c : UInt8) : mul (mul a b) c = mul (mul a c) b :=
  map_mulBits (f := fun x => mul x c) (fun x y => xor_mul x y c)
    (fun x => Gf256.mul_double x c) 8 a b

protected theorem zero_mul (a : UInt8) : mul 0 a = 0 :=
  map_zero_of_xor (f := fun x => mul x a) (fun x y => xor_mul x y a)

protected theorem one_mul (a : UInt8) : mul 1 a = a :=
  forall_byte (p := fun a => mul 1 a = a) (by decide +kernel) a

protected theorem mul_comm (a b : UInt8) : mul a b = mul b a := by
  have h := Gf256.mul_right_comm 1 a b
  rwa [Gf256.one_mul, Gf256.one_mul] at h

protected theorem mul_assoc (a b c : UInt8) : mul (mul a b) c = mul a (mul b c) := by
  rw [Gf256.mul_comm a b, Gf256.mul_right_comm, Gf256.mul_comm]

/-!
# The field

A byte is wrapped, because bytes as such already have a sum and a product of
their own.
-/

/-- A byte with the sum and the product of the field. -/
@[ext]
structure Element where
  byte : UInt8
  deriving DecidableEq

namespace Element

instance : Zero Element := ⟨⟨0⟩⟩
instance : One Element := ⟨⟨1⟩⟩
instance : Add Element := ⟨fun a b => ⟨a.byte ^^^ b.byte⟩⟩
instance : Neg Element := ⟨id⟩
instance : Mul Element := ⟨fun a b => ⟨mul a.byte b.byte⟩⟩
instance : Inv Element := ⟨fun a => ⟨Gf256.inv a.byte⟩⟩

@[simp] theorem mk_zero : (⟨0⟩ : Element) = 0 := rfl
@[simp] theorem mk_one : (⟨1⟩ : Element) = 1 := rfl
theorem mk_xor (a b : UInt8) : (⟨a ^^^ b⟩ : Element) = ⟨a⟩ + ⟨b⟩ := rfl
theorem mk_mul (a b : UInt8) : (⟨mul a b⟩ : Element) = ⟨a⟩ * ⟨b⟩ := rfl
@[simp] theorem byte_zero : (0 : Element).byte = 0 := rfl
@[simp] theorem byte_one : (1 : Element).byte = 1 := rfl
@[simp] theorem byte_add (a b : Element) : (a + b).byte = a.byte ^^^ b.byte := rfl
@[simp] theorem byte_neg (a : Element) : (-a).byte = a.byte := rfl
@[simp] theorem byte_mul (a b : Element) : (a * b).byte = mul a.byte b.byte := rfl
@[simp] theorem byte_inv (a : Element) : a⁻¹.byte = Gf256.inv a.byte := rfl

instance : CommRing Element where
  add_assoc a b c := by ext1; simp [UInt8.xor_assoc]
  zero_add a := by ext1; simp
  add_zero a := by ext1; simp
  add_comm a b := by ext1; simp [UInt8.xor_comm]
  neg_add_cancel a := by ext1; simp
  mul_assoc a b c := by ext1; simp [Gf256.mul_assoc]
  mul_comm a b := by ext1; simp [Gf256.mul_comm a.byte]
  one_mul a := by ext1; simp [Gf256.one_mul]
  mul_one a := by ext1; simp [Gf256.mul_comm a.byte, Gf256.one_mul]
  zero_mul a := by ext1; simp [Gf256.zero_mul]
  mul_zero a := by ext1; simp [Gf256.mul_comm a.byte, Gf256.zero_mul]
  left_distrib a b c := by ext1; simp [Gf256.mul_comm a.byte, Gf256.xor_mul]
  right_distrib a b c := by ext1; simp [Gf256.xor_mul]
  nsmul := nsmulRec
  zsmul := zsmulRec

theorem mk_injective : Function.Injective Element.mk := by
  intro a b h
  exact congrArg Element.byte h

theorem mk_sub (a b : UInt8) : (⟨a⟩ : Element) - ⟨b⟩ = ⟨a ^^^ b⟩ := by
  rw [sub_eq_add_neg]
  rfl

instance : Nontrivial Element := ⟨0, 1, by decide⟩

def equivFin : Element ≃ Fin 256 where
  toFun a := a.byte.toFin
  invFun i := ⟨UInt8.ofFin i⟩
  left_inv a := by simp
  right_inv i := by simp

instance : Fintype Element := Fintype.ofEquiv (Fin 256) equivFin.symm

theorem card_element : Fintype.card Element = 256 := by
  rw [Fintype.card_congr equivFin, Fintype.card_fin]

/-!
# The modulus

A byte stands for the polynomial over two elements whose coefficients are its bits. The
indeterminate is a root of the modulus `x^8 + x^4 + x^3 + x + 1`, which together with the sum fixes
all products.
-/

def indeterminate : Element := ⟨2⟩

theorem eq_sum_bits (a : Element) :
    a = ∑ i ∈ Finset.range 8, if a.byte.toNat.testBit i then indeterminate ^ i else 0 := by
  rcases a with ⟨a⟩
  exact forall_byte (p := fun a => (⟨a⟩ : Element) =
    ∑ i ∈ Finset.range 8, if a.toNat.testBit i then indeterminate ^ i else 0) (by decide +kernel) a

theorem indeterminate_root :
    indeterminate ^ 8 + indeterminate ^ 4 + indeterminate ^ 3 + indeterminate + 1 = 0 := by
  decide +kernel

/-!
# Inverses

Three has order 255, so its powers are all the nonzero elements, and the power
with exponent 254 is the inverse.
-/

/-- The element whose powers are all the nonzero elements. -/
def generator : Element := ⟨3⟩

theorem generator_pow : generator ^ 255 = 1 := by
  decide +kernel

theorem orderOf_generator : orderOf generator = 255 := by
  apply orderOf_eq_of_pow_and_pow_div_prime (by decide) generator_pow
  intro p hprime hdvd
  have hsplit : p ∣ 3 * 5 * 17 := hdvd
  rcases hprime.dvd_mul.mp hsplit with h | h17
  · rcases hprime.dvd_mul.mp h with h3 | h5
    · rw [(Nat.prime_dvd_prime_iff_eq hprime (by decide)).mp h3]
      decide +kernel
    · rw [(Nat.prime_dvd_prime_iff_eq hprime (by decide)).mp h5]
      decide +kernel
  · rw [(Nat.prime_dvd_prime_iff_eq hprime (by decide)).mp h17]
    decide +kernel

theorem generator_pow_ne_zero (n : Nat) : generator ^ n ≠ 0 := by
  intro hzero
  have hone : generator ^ (n * 255) = 1 := by
    rw [Nat.mul_comm, pow_mul, generator_pow, one_pow]
  rw [pow_mul, hzero] at hone
  simp at hone

theorem exists_generator_pow {a : Element} (ha : a ≠ 0) :
    exists n, generator ^ n = a := by
  let powers := (Finset.range 255).image (fun n => generator ^ n)
  have hcard : powers.card = 255 := by
    rw [Finset.card_image_of_injOn, Finset.card_range]
    have hinj := pow_injOn_Iio_orderOf (x := generator)
    rw [orderOf_generator] at hinj
    simpa using hinj
  have hsubset : powers ⊆ Finset.univ.erase 0 := by
    intro b hb
    rcases Finset.mem_image.mp hb with ⟨n, _, rfl⟩
    simpa using generator_pow_ne_zero n
  have heq : powers = Finset.univ.erase 0 := by
    apply Finset.eq_of_subset_of_card_le hsubset
    rw [hcard, Finset.card_erase_of_mem (Finset.mem_univ 0), Finset.card_univ, card_element]
  have hmem : a ∈ powers := by
    rw [heq]
    simpa using ha
  rcases Finset.mem_image.mp hmem with ⟨n, _, hn⟩
  exact ⟨n, hn⟩

theorem pow_eq_one {a : Element} (ha : a ≠ 0) : a ^ 255 = 1 := by
  rcases exists_generator_pow ha with ⟨n, rfl⟩
  rw [← pow_mul, Nat.mul_comm, pow_mul, generator_pow, one_pow]

theorem inv_eq_pow (a : Element) : a⁻¹ = a ^ 254 := by
  change (⟨Gf256.inv a.byte⟩ : Element) = a ^ 254
  simp only [Gf256.inv, mk_mul, ← pow_two, ← pow_mul, ← pow_add, Nat.reduceMul,
    Nat.reducePow, Nat.reduceAdd]

theorem inv_zero : (0 : Element)⁻¹ = 0 := by
  rw [inv_eq_pow]
  exact zero_pow (by decide)

theorem mul_inv_cancel {a : Element} (ha : a ≠ 0) : a * a⁻¹ = 1 := by
  rw [inv_eq_pow, ← pow_succ', pow_eq_one ha]

instance : Field Element where
  mul_inv_cancel _ := mul_inv_cancel
  inv_zero := inv_zero
  nnqsmul := _
  qsmul := _

end Element
end Gf256
end WalletVault
