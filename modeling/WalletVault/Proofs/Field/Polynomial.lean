import Mathlib.LinearAlgebra.Lagrange
import WalletVault.Field.Interpolation
import WalletVault.Proofs.Computation
import WalletVault.Proofs.Field.Arithmetic

/-!
# Exact interpolation

Coefficient lists stand for polynomials over the field. Horner's rule evaluates
them, their coefficients are the entries of the list, and every polynomial of
degree below `n` has exactly one list of length `n`. The weights are the values
of the Lagrange basis, so that values at distinct places give back every
polynomial whose list is not longer than the list of places.
-/

namespace WalletVault
namespace Gf256

open Polynomial

/-!
# Coefficient lists as polynomials
-/

/-- The polynomial with the given coefficients, constant term first. -/
noncomputable def toPolynomial (coefficients : List UInt8) : Polynomial Element :=
  coefficients.foldr (fun c p => p * X + C ⟨c⟩) 0

theorem toPolynomial_cons (c : UInt8) (rest : List UInt8) :
    toPolynomial (c :: rest) = toPolynomial rest * X + C ⟨c⟩ := rfl

theorem evaluate_cons (c : UInt8) (rest : List UInt8) (x : UInt8) :
    evaluate (c :: rest) x = mul (evaluate rest x) x ^^^ c := rfl

theorem eval_toPolynomial (coefficients : List UInt8) (x : UInt8) :
    (toPolynomial coefficients).eval ⟨x⟩ = ⟨evaluate coefficients x⟩ := by
  induction coefficients with
  | nil =>
      simp [toPolynomial, evaluate]
  | cons c rest ih =>
      rw [toPolynomial_cons, evaluate_cons, eval_add, eval_mul_X, eval_C, ih]
      rfl

theorem coeff_toPolynomial (coefficients : List UInt8) (n : Nat) :
    (toPolynomial coefficients).coeff n = ⟨coefficients.getD n 0⟩ := by
  induction coefficients generalizing n with
  | nil =>
      simp [toPolynomial]
  | cons c rest ih =>
      rw [toPolynomial_cons]
      cases n with
      | zero =>
          simp
      | succ n =>
          rw [coeff_add, coeff_mul_X, ih, coeff_C_succ, add_zero]
          simp

theorem degree_toPolynomial_lt (coefficients : List UInt8) :
    (toPolynomial coefficients).degree < coefficients.length := by
  rw [degree_lt_iff_coeff_zero]
  intro n hn
  rw [coeff_toPolynomial, List.getD_eq_getElem?_getD, List.getElem?_eq_none hn]
  rfl

theorem toPolynomial_inj {left right : List UInt8}
    (hlength : left.length = right.length)
    (h : toPolynomial left = toPolynomial right) : left = right := by
  apply List.ext_getElem hlength
  intro n hleft hright
  have hcoeff := congrArg (fun p => (p.coeff n).byte) h
  simpa [coeff_toPolynomial, hleft, hright] using hcoeff

theorem exists_toPolynomial {p : Polynomial Element} {n : Nat} (hp : p.degree < n) :
    exists coefficients : List UInt8,
      coefficients.length = n ∧ toPolynomial coefficients = p := by
  refine ⟨(List.range n).map (fun i => (p.coeff i).byte), by simp, ?_⟩
  ext i
  rw [coeff_toPolynomial]
  by_cases hi : i < n
  · simp [hi]
  · have hzero : p.coeff i = 0 :=
      (degree_lt_iff_coeff_zero p n).mp hp i (Nat.le_of_not_lt hi)
    rw [hzero]
    simp [hi]

/-- Some values at distinct places belong to one coefficient list of that length. -/
theorem existsUnique_coefficients (places : Finset UInt8) (value : UInt8 -> UInt8) :
    ∃! coefficients : List UInt8, coefficients.length = places.card ∧
      forall x, x ∈ places -> evaluate coefficients x = value x := by
  have hinj : Set.InjOn Element.mk (places : Set UInt8) := Element.mk_injective.injOn
  rcases exists_toPolynomial
    (Lagrange.degree_interpolate_lt (fun x => (⟨value x⟩ : Element)) hinj) with
    ⟨coefficients, hlength, hpolynomial⟩
  refine ⟨coefficients, ⟨hlength, ?_⟩, ?_⟩
  · intro x hx
    have heval := eval_toPolynomial coefficients x
    rw [hpolynomial, Lagrange.eval_interpolate_at_node _ hinj hx] at heval
    exact (Element.mk_injective heval).symm
  · intro other h
    rcases h with ⟨hother, hvalues⟩
    apply toPolynomial_inj (hother.trans hlength.symm)
    rw [hpolynomial]
    apply Lagrange.eq_interpolate_of_eval_eq _ hinj
    · rw [← hother]
      exact degree_toPolynomial_lt other
    · intro x hx
      rw [eval_toPolynomial, hvalues x hx]

/-!
# Weights

The product of the differences to all places but one, divided by its value at
that place, is the Lagrange basis polynomial of the place.
-/

theorem foldl_differences (places : List UInt8) (x start : UInt8) :
    (⟨places.foldl (fun value y => mul value (x ^^^ y)) start⟩ : Element) =
      ⟨start⟩ * (places.map (fun y => (⟨x⟩ : Element) - ⟨y⟩)).prod := by
  induction places generalizing start with
  | nil =>
      simp
  | cons y rest ih =>
      rw [List.foldl_cons, ih, List.map_cons, List.prod_cons, Element.mk_mul,
        Element.mk_sub, mul_assoc]

theorem differences_eq_prod {places : List UInt8} (hplaces : places.Nodup) (x : UInt8) :
    (⟨differences places x⟩ : Element) =
      ∏ y ∈ places.toFinset, ((⟨x⟩ : Element) - ⟨y⟩) := by
  have h := foldl_differences places x 1
  rw [List.prod_toFinset _ hplaces]
  simpa [differences] using h

/-- The value at `x` of the Lagrange basis polynomial of one of the places. -/
noncomputable def weight (places : List UInt8) (x y : UInt8) : UInt8 :=
  ((Lagrange.basis places.toFinset Element.mk y).eval ⟨x⟩).byte

theorem eraseIdx_toFinset {places : List UInt8} (hplaces : places.Nodup)
    {y : UInt8} {i : Nat} (hi : places[i]? = some y) :
    (places.eraseIdx i).toFinset = places.toFinset.erase y := by
  rcases List.getElem?_eq_some_iff.mp hi with ⟨hlt, hy⟩
  have hidx : places.idxOf y = i := by
    rw [← hy]
    exact hplaces.idxOf_getElem i hlt
  rw [← List.erase_eq_eraseIdx_of_idxOf hidx]
  ext z
  simp [hplaces.mem_erase_iff]

theorem div?_differences {places : List UInt8} (hplaces : places.Nodup)
    {y : UInt8} {i : Nat} (hi : places[i]? = some y) (x : UInt8) :
    div? (differences (places.eraseIdx i) x) (differences (places.eraseIdx i) y) =
      some (weight places x y) := by
  have hothers := eraseIdx_toFinset hplaces hi
  have hnumerator := differences_eq_prod (hplaces.eraseIdx i) x
  have hdenominator := differences_eq_prod (hplaces.eraseIdx i) y
  rw [hothers] at hnumerator hdenominator
  have hne : differences (places.eraseIdx i) y ≠ 0 := by
    intro hzero
    rw [hzero, Element.mk_zero] at hdenominator
    rcases Finset.prod_eq_zero_iff.mp hdenominator.symm with ⟨z, hz, hyz⟩
    exact (Finset.mem_erase.mp hz).1 (Element.mk_injective (sub_eq_zero.mp hyz)).symm
  have hweight : (⟨weight places x y⟩ : Element) =
      (∏ z ∈ places.toFinset.erase y, ((⟨x⟩ : Element) - ⟨z⟩)) *
        (∏ z ∈ places.toFinset.erase y, ((⟨y⟩ : Element) - ⟨z⟩))⁻¹ := by
    change (Lagrange.basis places.toFinset Element.mk y).eval ⟨x⟩ = _
    rw [Lagrange.basis, eval_prod, ← Finset.prod_inv_distrib, ← Finset.prod_mul_distrib]
    apply Finset.prod_congr rfl
    intro z _
    simp [Lagrange.basisDivisor, mul_comm]
  rw [div?, if_neg hne, Option.some_inj]
  apply Element.mk_injective
  rw [hweight, ← hnumerator, ← hdenominator]
  rfl

theorem weights_of_nodup {places : List UInt8} (hplaces : places.Nodup) (x : UInt8) :
    weights places x = some (places.map (weight places x)) := by
  have hmap : places.zipIdx.map (fun entry => weight places x entry.1) =
      places.map (weight places x) := by
    have h := congrArg (List.map (weight places x)) (List.zipIdx_map_fst 0 places)
    rwa [List.map_map] at h
  rw [weights, ← hmap]
  apply Computation.mapM_eq_some_map
  intro entry hentry
  rcases entry with ⟨y, i⟩
  exact div?_differences hplaces (List.mk_mem_zipIdx_iff_getElem?.mp hentry) x

/-!
# Combinations of rows

Rows that hold the values of the same curves are combined curve by curve.
-/

def values (curves : List (List UInt8)) (x : UInt8) : Bytes :=
  curves.map (fun curve => evaluate curve x)

theorem xor_map_map {α : Type} (items : List α) (f g : α -> UInt8) :
    Bytes.xor (items.map f) (items.map g) = items.map (fun a => f a ^^^ g a) := by
  simp [Bytes.xor, List.zipWith_map, List.zipWith_self]

theorem sum_weights {places : List UInt8} (hplaces : places.Nodup)
    {curve : List UInt8} (hcurve : curve.length <= places.length) (x : UInt8) :
    (places.map (fun y =>
      (⟨mul (evaluate curve y) (weight places x y)⟩ : Element))).sum =
        ⟨evaluate curve x⟩ := by
  have hinj : Set.InjOn Element.mk (places.toFinset : Set UInt8) :=
    Element.mk_injective.injOn
  have hdegree : (toPolynomial curve).degree < places.toFinset.card := by
    rw [List.toFinset_card_of_nodup hplaces]
    exact lt_of_lt_of_le (degree_toPolynomial_lt curve) (by exact_mod_cast hcurve)
  rw [← eval_toPolynomial, Lagrange.eq_interpolate hinj hdegree,
    Lagrange.interpolate_apply, eval_finsetSum, List.sum_toFinset _ hplaces]
  congr 1
  apply List.map_congr_left
  intro y _
  rw [eval_mul, eval_C, eval_toPolynomial]
  rfl

theorem foldl_xor (places : List UInt8) (f : UInt8 -> UInt8) (start : UInt8) :
    (⟨places.foldl (fun sum y => sum ^^^ f y) start⟩ : Element) =
      ⟨start⟩ + (places.map (fun y => (⟨f y⟩ : Element))).sum := by
  induction places generalizing start with
  | nil =>
      simp
  | cons y rest ih =>
      rw [List.foldl_cons, ih, List.map_cons, List.sum_cons, Element.mk_xor, add_assoc]

theorem foldl_combination (places : List UInt8) (w : UInt8 -> UInt8)
    (curves : List (List UInt8)) (start : List UInt8 -> UInt8) :
    places.foldl (fun sum y =>
        Bytes.xor sum ((values curves y).map (fun value => mul value (w y))))
      (curves.map start) =
      curves.map (fun curve =>
        places.foldl (fun sum y => sum ^^^ mul (evaluate curve y) (w y)) (start curve)) := by
  induction places generalizing start with
  | nil =>
      rfl
  | cons y rest ih =>
      rw [List.foldl_cons, values, List.map_map, xor_map_map, ih]
      rfl

/-- Interpolation gives back all curves that are no longer than the list of distinct places. -/
theorem interpolate_values {places : List UInt8} (hplaces : places.Nodup)
    {curves : List (List UInt8)}
    (hcurves : forall curve, curve ∈ curves -> curve.length <= places.length)
    (x : UInt8) :
    interpolate places (places.map (values curves)) x curves.length =
      some (values curves x) := by
  have hzeros : Bytes.zeros curves.length = curves.map (fun _ => 0) := by
    simp [Bytes.zeros]
  rw [interpolate, weights_of_nodup hplaces, Option.map_some, combination,
    List.zip_map', List.foldl_map, hzeros, foldl_combination places (weight places x), values]
  congr 1
  apply List.map_congr_left
  intro curve hcurve
  apply Element.mk_injective
  rw [foldl_xor, Element.mk_zero, zero_add]
  exact sum_weights hplaces (hcurves curve hcurve) x

end Gf256
end WalletVault
