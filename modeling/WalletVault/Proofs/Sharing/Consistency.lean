import WalletVault.Proofs.Sharing.Recovery

/-!
# Consistency of shares

Shares fit together if they lie on curves that a threshold of them determines. Any places as many
as the threshold determine such curves, so two families that meet there are the same everywhere.
Enough shares that do not fit together are found out, wherever the odd one stands.
-/

namespace WalletVault

namespace Gf256

/-- Two curves no longer than the number of places where they meet are the same everywhere. -/
theorem evaluate_eq_of_agree {left right : List UInt8} {places : Finset UInt8}
    (hleft : left.length <= places.card) (hright : right.length <= places.card)
    (h : forall x, x ∈ places -> evaluate left x = evaluate right x) (x : UInt8) :
    evaluate left x = evaluate right x := by
  have hdegreeLeft : (toPolynomial left).degree < places.card :=
    lt_of_lt_of_le (degree_toPolynomial_lt left) (by exact_mod_cast hleft)
  have hdegreeRight : (toPolynomial right).degree < places.card :=
    lt_of_lt_of_le (degree_toPolynomial_lt right) (by exact_mod_cast hright)
  have hsame : toPolynomial left = toPolynomial right := by
    apply Polynomial.eq_of_degrees_lt_of_eval_index_eq places Element.mk_injective.injOn
      hdegreeLeft hdegreeRight
    intro y hy
    rw [eval_toPolynomial, eval_toPolynomial, h y hy]
  apply Element.mk_injective
  rw [← eval_toPolynomial, ← eval_toPolynomial, hsame]

end Gf256

namespace KeyShare

/-!
# Families of curves
-/

/-- One curve for each byte of a secret, none of them longer than the threshold. -/
structure Family (threshold : Nat) (curves : List (List UInt8)) : Prop where
  length_eq : curves.length = 32
  length_le : forall curve, curve ∈ curves -> curve.length <= threshold

theorem length_values (share : KeyShare) : share.values.length = 32 := by
  rw [values, List.length_tail, share.length_data]

theorem family_polynomials {threshold : Nat} (hthreshold : 1 <= threshold)
    {secret : Bytes} (hsecret : secret.length = 32) (randomness : Bytes) :
    Family threshold (polynomials (threshold - 1) secret randomness) where
  length_eq := length_curves (threshold - 1) randomness hsecret
  length_le := by
    intro curve hcurve
    have hlength := length_of_mem_polynomials hcurve
    omega

theorem Family.values_eq {threshold : Nat} {left right : List (List UInt8)}
    (hleft : Family threshold left) (hright : Family threshold right) {places : Finset UInt8}
    (hcard : threshold <= places.card)
    (h : forall x, x ∈ places -> Gf256.values left x = Gf256.values right x) (x : UInt8) :
    Gf256.values left x = Gf256.values right x := by
  have hlength := hleft.length_eq.trans hright.length_eq.symm
  unfold Gf256.values at h ⊢
  apply List.ext_getElem (by simpa using hlength)
  intro i hi hi'
  rw [List.length_map] at hi hi'
  rw [List.getElem_map, List.getElem_map]
  have hshort : left[i].length <= places.card :=
    (hleft.length_le _ (List.getElem_mem hi)).trans hcard
  have hshort' : right[i].length <= places.card :=
    (hright.length_le _ (List.getElem_mem hi')).trans hcard
  apply Gf256.evaluate_eq_of_agree hshort hshort'
  intro y hy
  have hpoint := congrArg (fun row => row[i]?) (h y hy)
  simpa [hi, hi'] using hpoint

theorem exists_family {basis : List KeyShare} (hnodup : (basis.map index).Nodup)
    (hzero : 0 ∉ basis.map index) :
    exists curves, Family basis.length curves ∧
      forall share, share ∈ basis -> LiesOn curves share := by
  have hnonempty : Nonempty KeyShare := ⟨⟨Bytes.zeros 33, Bytes.length_zeros 33⟩⟩
  have hinj : Set.InjOn index {share | share ∈ basis} :=
    fun share hshare other hother => List.inj_on_of_nodup_map hnodup hshare hother
  -- The share at a place, for the places of the basis.
  let shareAt : UInt8 -> KeyShare := Function.invFunOn index {share | share ∈ basis}
  have hshareAt : forall share, share ∈ basis -> shareAt share.index = share :=
    fun share hshare => hinj.leftInvOn_invFunOn hshare
  let places := (basis.map index).toFinset
  have hplaces : places.card = basis.length := by
    rw [List.toFinset_card_of_nodup hnodup, List.length_map]
  have hcurve : forall i : Nat, exists curve : List UInt8, curve.length = basis.length ∧
      forall x, x ∈ places -> Gf256.evaluate curve x = (shareAt x).values.getD i 0 := by
    intro i
    rcases (Gf256.existsUnique_coefficients places
      (fun x => (shareAt x).values.getD i 0)).exists with ⟨curve, hlength, hvalues⟩
    exact ⟨curve, hlength.trans hplaces, hvalues⟩
  choose curve hlength hvalues using hcurve
  refine ⟨(List.range 32).map curve, ⟨by simp, ?_⟩, ?_⟩
  · intro other hother
    rcases List.mem_map.mp hother with ⟨i, _, hsame⟩
    rw [← hsame]
    exact (hlength i).le
  · intro share hshare
    have hmem : share.index ∈ basis.map index := List.mem_map_of_mem hshare
    refine ⟨ne_of_mem_of_not_mem hmem hzero, ?_⟩
    apply List.ext_getElem (by simp [Gf256.values, share.length_values])
    intro i hi _
    have hvalue := hvalues i share.index (List.mem_toFinset.mpr hmem)
    rw [hshareAt share hshare] at hvalue
    simpa [Gf256.values, hi] using hvalue.symm

/-!
# Combining shares
-/

section Basis

variable {curves : List (List UInt8)} {basis : List KeyShare}

theorem checkExtras_of_off (hcurves : Family basis.length curves) (hne : basis ≠ [])
    (hnodup : (basis.map index).Nodup)
    (h : forall share, share ∈ basis -> LiesOn curves share) {extras : List KeyShare}
    (hoff : exists extra, extra ∈ extras ∧ extra.values ≠ Gf256.values curves extra.index) :
    checkExtras basis extras = .error (.combination .differentSplits) := by
  induction extras with
  | nil =>
      rcases hoff with ⟨_, hmem, _⟩
      cases hmem
  | cons first rest ih =>
      rw [checkExtras, through_of_liesOn hcurves.length_eq hne hnodup hcurves.length_le h]
      dsimp only
      by_cases hfirst : Gf256.values curves first.index = first.values
      · rw [if_pos hfirst]
        rcases hoff with ⟨extra, hmem, hextra⟩
        rcases List.mem_cons.mp hmem with hsame | hrest
        · rw [hsame] at hextra
          exact absurd hfirst.symm hextra
        · exact ih ⟨extra, hrest, hextra⟩
      · rw [if_neg hfirst]

end Basis

section Combining

variable {shares : List KeyShare} {threshold : Nat}

theorem combine_of_few (hfew : shares.toFinset.card < threshold) :
    combine shares (some threshold) = .error (.fewShares shares.toFinset.card threshold) := by
  unfold combine
  rw [← length_eraseDups] at hfew ⊢
  simp only [Option.getD_some]
  rw [if_pos (Or.inr (by exact_mod_cast hfew))]

theorem not_few (hthreshold : 1 <= threshold) (henough : threshold <= shares.toFinset.card) :
    ¬ (shares.eraseDups = [] ∨ (shares.eraseDups.length : Int) < (threshold : Int)) := by
  rw [← length_eraseDups] at henough
  intro h
  rcases h with hnil | hlt
  · rw [hnil, List.length_nil] at henough
    omega
  · omega

theorem combine_of_zero (hthreshold : 1 <= threshold)
    (henough : threshold <= shares.toFinset.card) (hzero : 0 ∈ shares.eraseDups.map index) :
    combine shares (some threshold) = .error (.combination .zeroIndex) := by
  unfold combine
  simp only [Option.getD_some]
  rw [if_neg (not_few hthreshold henough), if_pos (by simpa using hzero)]

theorem combine_of_repeated (hthreshold : 1 <= threshold)
    (henough : threshold <= shares.toFinset.card) (hzero : 0 ∉ shares.eraseDups.map index)
    (hplaces : ¬ (shares.eraseDups.map index).Nodup) :
    combine shares (some threshold) = .error (.combination .repeatedIndex) := by
  have hrepeated : (shares.eraseDups.map index).eraseDups ≠ shares.eraseDups.map index := by
    intro hsame
    apply hplaces
    rw [← hsame]
    exact nodup_eraseDups _
  unfold combine
  simp only [Option.getD_some]
  rw [if_neg (not_few hthreshold henough), if_neg (by simpa using hzero), if_pos hrepeated]

theorem combine_of_unfit (hthreshold : 1 <= threshold)
    (henough : threshold <= shares.toFinset.card) (hzero : 0 ∉ shares.eraseDups.map index)
    (hplaces : (shares.eraseDups.map index).Nodup)
    (hscattered : forall curves, Family threshold curves ->
      exists share, share ∈ shares ∧ ¬ LiesOn curves share) :
    combine shares (some threshold) = .error (.combination .differentSplits) := by
  have hbasisLength : (shares.eraseDups.take threshold).length = threshold := by
    rw [← length_eraseDups] at henough
    rw [List.length_take]
    omega
  have hbasisPlaces : ((shares.eraseDups.take threshold).map index).Nodup := by
    rw [List.map_take]
    exact hplaces.take
  have hbasisZero : 0 ∉ (shares.eraseDups.take threshold).map index := by
    rw [List.map_take]
    exact fun hmem => hzero (List.mem_of_mem_take hmem)
  have hne : shares.eraseDups.take threshold ≠ [] := by
    intro hnil
    rw [hnil, List.length_nil] at hbasisLength
    omega
  rcases exists_family hbasisPlaces hbasisZero with ⟨curves, hfamily, hbasis⟩
  rcases hscattered curves (hbasisLength ▸ hfamily) with ⟨odd, hodd, hoff⟩
  -- The odd share is an extra one, because the whole basis lies on its curves.
  have hextra : odd ∈ shares.eraseDups.drop threshold := by
    have hmem : odd ∈ shares.eraseDups.take threshold ++ shares.eraseDups.drop threshold := by
      rw [List.take_append_drop]
      exact List.mem_eraseDups.mpr hodd
    rcases List.mem_append.mp hmem with hinside | hextra
    · exact absurd (hbasis odd hinside) hoff
    · exact hextra
  have hindex : odd.index ≠ 0 := by
    intro hsame
    apply hzero
    rw [← hsame]
    exact List.mem_map_of_mem (List.mem_eraseDups.mpr hodd)
  have hvalues : odd.values ≠ Gf256.values curves odd.index :=
    fun hvalues => hoff ⟨hindex, hvalues⟩
  rw [combine_of_places hthreshold hzero hplaces, if_neg (by omega),
    checkExtras_of_off hfamily hne hbasisPlaces hbasis ⟨odd, hextra, hvalues⟩]
  rfl

theorem combine_of_scattered (hthreshold : 1 <= threshold)
    (henough : threshold <= shares.toFinset.card)
    (hscattered : forall curves, Family threshold curves ->
      exists share, share ∈ shares ∧ ¬ LiesOn curves share) :
    exists conflict, combine shares (some threshold) = .error (.combination conflict) := by
  by_cases hzero : 0 ∈ shares.eraseDups.map index
  · exact ⟨.zeroIndex, combine_of_zero hthreshold henough hzero⟩
  by_cases hplaces : (shares.eraseDups.map index).Nodup
  · exact ⟨.differentSplits, combine_of_unfit hthreshold henough hzero hplaces hscattered⟩
  · exact ⟨.repeatedIndex, combine_of_repeated hthreshold henough hzero hplaces⟩

/-- With a proper threshold, shares are too few, fit together, or conflict. -/
theorem combine_cases (hthreshold : 1 <= threshold) (shares : List KeyShare) :
    combine shares (some threshold) =
        .error (.fewShares shares.toFinset.card threshold) ∨
      (exists curves, Family threshold curves ∧
        (forall share, share ∈ shares -> LiesOn curves share) ∧
        combine shares (some threshold) = .ok (Gf256.values curves 0)) ∨
      exists conflict, combine shares (some threshold) = .error (.combination conflict) := by
  by_cases hfew : shares.toFinset.card < threshold
  · exact Or.inl (combine_of_few hfew)
  by_cases hfits : exists curves, Family threshold curves ∧
      forall share, share ∈ shares -> LiesOn curves share
  · rcases hfits with ⟨curves, hfamily, hlies⟩
    refine Or.inr (Or.inl ⟨curves, hfamily, hlies, ?_⟩)
    rw [combine_of_liesOn hfamily.length_eq hthreshold hfamily.length_le hlies, if_neg hfew]
  · refine Or.inr (Or.inr (combine_of_scattered hthreshold (Nat.le_of_not_lt hfew) ?_))
    intro curves hfamily
    by_contra hnone
    apply hfits
    refine ⟨curves, hfamily, ?_⟩
    intro share hshare
    by_contra hoff
    exact hnone ⟨share, hshare, hoff⟩

theorem combine_of_foreign {curves : List (List UInt8)} (hthreshold : 1 <= threshold)
    (hfamily : Family threshold curves) {genuine : Finset KeyShare}
    (henough : threshold <= genuine.card)
    (hgenuine : forall share, share ∈ genuine -> share ∈ shares ∧ LiesOn curves share)
    {foreign : KeyShare} (hforeign : foreign ∈ shares) (hoff : ¬ LiesOn curves foreign) :
    exists conflict, combine shares (some threshold) = .error (.combination conflict) := by
  apply combine_of_scattered hthreshold
  · apply henough.trans
    apply Finset.card_le_card
    intro share hshare
    exact List.mem_toFinset.mpr (hgenuine share hshare).1
  intro others hothers
  by_contra hnone
  have hlies : forall share, share ∈ shares -> LiesOn others share := by
    intro share hshare
    by_contra hoff'
    exact hnone ⟨share, hshare, hoff'⟩
  have hinj : Set.InjOn index (genuine : Set KeyShare) := by
    have hlies' : forall share, share ∈ genuine.toList -> LiesOn curves share :=
      fun share hshare => (hgenuine share (Finset.mem_toList.mp hshare)).2
    intro share hshare other hother hindex
    exact index_injOn hlies' share (Finset.mem_toList.mpr hshare) other
      (Finset.mem_toList.mpr hother) hindex
  have hcard : threshold <= (genuine.image index).card := by
    rwa [Finset.card_image_of_injOn hinj]
  -- Both families go through the genuine shares, so they are the same.
  have hsame := hfamily.values_eq hothers hcard (by
    intro x hx
    rcases Finset.mem_image.mp hx with ⟨share, hshare, hindex⟩
    rw [← hindex, ← (hgenuine share hshare).2.2, ← (hlies share (hgenuine share hshare).1).2])
  apply hoff
  exact ⟨(hlies foreign hforeign).1, by rw [hsame]; exact (hlies foreign hforeign).2⟩

end Combining

end KeyShare
end WalletVault
