import WalletVault.Proofs.Field.Polynomial
import WalletVault.Proofs.Field.Tables

/-!
# When interpolation has a result

A weight is a quotient of two products of differences. The divisor is zero when
its place occurs among the other places, so there are weights exactly when no
place is repeated, and then the values of every family of short enough curves are
given back at every place.
-/

namespace WalletVault
namespace Gf256

theorem differences_eq_zero_iff (places : List UInt8) (x : UInt8) :
    differences places x = 0 <-> x ∈ places := by
  have hprod := foldl_differences places x 1
  have hdifference (y : UInt8) : (⟨x⟩ : Element) - ⟨y⟩ = 0 <-> x = y := by
    rw [sub_eq_zero, Element.mk_injective.eq_iff]
  constructor
  · intro hzero
    have hmem : (0 : Element) ∈ places.map (fun y => (⟨x⟩ : Element) - ⟨y⟩) := by
      rw [← List.prod_eq_zero_iff, ← one_mul (List.prod _), ← Element.mk_one, ← hprod]
      exact congrArg Element.mk hzero
    rcases List.mem_map.mp hmem with ⟨y, hy, hsame⟩
    rw [(hdifference y).mp hsame]
    exact hy
  · intro hx
    have hmem : (0 : Element) ∈ places.map (fun y => (⟨x⟩ : Element) - ⟨y⟩) :=
      List.mem_map.mpr ⟨x, hx, sub_self _⟩
    rw [List.prod_eq_zero hmem, mul_zero] at hprod
    exact congrArg Element.byte hprod

theorem exists_mem_eraseIdx {places : List UInt8} (h : ¬ places.Nodup) :
    exists i y, places[i]? = some y ∧ y ∈ places.eraseIdx i := by
  rcases List.exists_duplicate_iff_not_nodup.mpr h with ⟨y, hy⟩
  refine ⟨places.idxOf y, y, List.getElem?_idxOf hy.mem, ?_⟩
  rw [← List.erase_eq_eraseIdx_of_idxOf rfl, ← List.one_le_count_iff, List.count_erase_self]
  have htwo := List.duplicate_iff_two_le_count.mp hy
  omega

theorem weights_eq_none_iff (places : List UInt8) (x : UInt8) :
    weights places x = none <-> ¬ places.Nodup := by
  constructor
  · intro hnone hplaces
    rw [weights_of_nodup hplaces] at hnone
    cases hnone
  · intro hrepeated
    rcases exists_mem_eraseIdx hrepeated with ⟨i, y, hi, hy⟩
    rw [weights, Computation.mapM_eq_none_iff]
    refine ⟨(y, i), List.mk_mem_zipIdx_iff_getElem?.mpr hi, ?_⟩
    rw [div?_eq_none_iff, differences_eq_zero_iff]
    exact hy

/-- Looked up in the tables or not, products and quotients are those of the field. At places that
are all different there are weights for every place, and they give back every family of curves that
are no longer than the list of places; where a place is repeated there are no weights. -/
theorem interpolation_exact :
    (forall a b, productByTable a b = some (mul a b)) ∧
    (forall a b, quotientByTable a b = div? a b) ∧
    forall places : List UInt8, places ≠ [] -> forall x : UInt8,
      (places.Nodup ->
        (exists ws, weights places x = some ws) ∧
        forall curves : List (List UInt8),
          (forall curve, curve ∈ curves -> curve.length <= places.length) ->
          forall first rest, places.map (values curves) = first :: rest ->
            interpolate places (places.map (values curves)) x first.length =
              some (values curves x)) ∧
      (¬ places.Nodup -> weights places x = none) := by
  refine ⟨productByTable_eq, quotientByTable_eq, ?_⟩
  intro places _ x
  constructor
  · intro hplaces
    constructor
    · exact ⟨_, weights_of_nodup hplaces x⟩
    · intro curves hcurves first rest hrows
      have hfirst : first.length = curves.length := by
        have hmem : first ∈ places.map (values curves) := by
          rw [hrows]
          exact List.mem_cons_self
        rcases List.mem_map.mp hmem with ⟨y, _, rfl⟩
        exact List.length_map _
      rw [hfirst]
      exact interpolate_values hplaces hcurves x
  · exact (weights_eq_none_iff places x).mpr

theorem interpolation_exact_three :
    ([1, 2, 3] : List UInt8) ≠ [] ∧ ([1, 2, 3] : List UInt8).Nodup ∧
    (forall curve, curve ∈ ([[7, 1, 9], [0, 5]] : List (List UInt8)) -> curve.length <= 3) ∧
    interpolate [1, 2, 3] ([1, 2, 3].map (values [[7, 1, 9], [0, 5]])) 0 2 = some [7, 0] ∧
    ¬ ([1, 2, 1] : List UInt8).Nodup ∧ weights [1, 2, 1] 0 = none := by
  have hplaces : ([1, 2, 3] : List UInt8).Nodup := by decide
  have hcurves : forall curve, curve ∈ ([[7, 1, 9], [0, 5]] : List (List UInt8)) ->
      curve.length <= 3 := by
    decide
  have hrepeated : ¬ ([1, 2, 1] : List UInt8).Nodup := by decide
  refine ⟨by decide, hplaces, hcurves, ?_, hrepeated, ?_⟩
  · exact ((interpolation_exact.2.2 [1, 2, 3] (by decide) 0).1 hplaces).2
      [[7, 1, 9], [0, 5]] hcurves _ _ rfl
  · exact (interpolation_exact.2.2 [1, 2, 1] (by decide) 0).2 hrepeated

end Gf256
end WalletVault
