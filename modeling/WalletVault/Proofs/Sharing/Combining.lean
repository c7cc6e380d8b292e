import WalletVault.Proofs.Sharing.Consistency

/-!
# What combining shares gives

Combining looks at the different shares among those it is given. It gives back a secret exactly if
these stand at proper and separate places and polynomials of low degree go through all of them; the
secret is what the polynomials are at zero. All this is a matter of the set of shares, so that
neither the order nor a repetition makes a difference, also to the fault that is raised.
-/

namespace WalletVault
namespace KeyShare

/-!
# Points and polynomials
-/

/-- For each byte a polynomial of degree below the bound goes through all the shares, and has the
byte of the secret as its value at zero. -/
structure Interpolates (bound : Nat) (shares : Finset KeyShare) (secret : Bytes) : Prop where
  length_eq : secret.length = 32
  exists_polynomial : forall i, i < 32 -> exists p : Polynomial Gf256.Element,
    p.degree < bound ∧
      (forall share, share ∈ shares -> p.eval ⟨share.index⟩ = ⟨share.values.getD i 0⟩) ∧
      p.eval 0 = ⟨secret.getD i 0⟩

theorem Interpolates.exists_family {bound : Nat} {shares : Finset KeyShare} {secret : Bytes}
    (h : Interpolates bound shares secret) :
    exists curves, Family bound curves ∧
      (forall share, share ∈ shares -> share.values = Gf256.values curves share.index) ∧
      secret = Gf256.values curves 0 := by
  have hcurve : forall i : Fin 32, exists curve : List UInt8, curve.length = bound ∧
      (forall share, share ∈ shares ->
        share.values.getD i 0 = Gf256.evaluate curve share.index) ∧
      secret.getD i 0 = Gf256.evaluate curve 0 := by
    intro i
    rcases h.exists_polynomial i i.isLt with ⟨p, hdegree, hshares, hsecret⟩
    rcases Gf256.exists_toPolynomial hdegree with ⟨curve, hlength, hcurve⟩
    rw [← hcurve] at hshares hsecret
    refine ⟨curve, hlength, ?_, ?_⟩
    · intro share hshare
      apply Gf256.Element.mk_injective
      rw [← hshares share hshare, Gf256.eval_toPolynomial]
    · apply Gf256.Element.mk_injective
      rw [← hsecret]
      exact Gf256.eval_toPolynomial curve 0
  choose curve hlength hshares hsecret using hcurve
  refine ⟨List.ofFn curve, ⟨List.length_ofFn, ?_⟩, ?_, ?_⟩
  · intro other hother
    rcases List.mem_ofFn.mp hother with ⟨i, hsame⟩
    rw [← hsame]
    exact (hlength i).le
  · intro share hshare
    apply List.ext_getElem (by simp [Gf256.values, share.length_values])
    intro i hi _
    have hvalue := hshares ⟨i, share.length_values ▸ hi⟩ share hshare
    rw [List.getD_eq_getElem?_getD, List.getElem?_eq_getElem hi, Option.getD_some] at hvalue
    simp only [Gf256.values, List.getElem_map, List.getElem_ofFn, hvalue]
  · apply List.ext_getElem (by simp [Gf256.values, h.length_eq])
    intro i hi _
    have hvalue := hsecret ⟨i, h.length_eq ▸ hi⟩
    rw [List.getD_eq_getElem?_getD, List.getElem?_eq_getElem hi, Option.getD_some] at hvalue
    simp only [Gf256.values, List.getElem_map, List.getElem_ofFn, hvalue]

/-!
# Different shares
-/

section Places

variable {shares : List KeyShare}

end Places

/-!
# One threshold
-/

section Threshold

variable {shares : List KeyShare} {threshold : Nat}

end Threshold

/-!
# Without a threshold
-/

end KeyShare
end WalletVault
