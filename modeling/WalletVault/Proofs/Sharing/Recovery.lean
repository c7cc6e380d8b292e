import WalletVault.Proofs.Sharing.Splitting

/-!
# Recovering a secret

Shares of one split lie on its curves. Enough different ones give back the
values of the curves at zero, which are the secret; fewer are refused. Neither
the order of the shares nor a repetition makes a difference, because repeated
shares are dropped first and further shares lie on the same curves.
-/

namespace WalletVault

/-!
# Lists without repetitions
-/

theorem nodup_eraseDups {α : Type} [DecidableEq α] (items : List α) :
    items.eraseDups.Nodup := by
  cases items with
  | nil =>
      simp
  | cons a rest =>
      rw [List.eraseDups_cons, List.nodup_cons]
      constructor
      · simp [List.mem_eraseDups]
      · exact nodup_eraseDups _
termination_by items.length
decreasing_by
  exact Nat.lt_succ_of_le (List.length_filter_le _ rest)

theorem eraseDups_of_nodup {α : Type} [DecidableEq α] {items : List α}
    (h : items.Nodup) : items.eraseDups = items := by
  induction items with
  | nil =>
      rfl
  | cons a rest ih =>
      rcases List.nodup_cons.mp h with ⟨ha, hrest⟩
      have hfilter : rest.filter (fun b => !b == a) = rest := by
        apply List.filter_eq_self.mpr
        intro b hb
        have hne : b ≠ a := ne_of_mem_of_not_mem hb ha
        simpa using hne
      rw [List.eraseDups_cons, hfilter, ih hrest]

theorem length_eraseDups {α : Type} [DecidableEq α] (items : List α) :
    items.eraseDups.length = items.toFinset.card := by
  rw [← List.toFinset_card_of_nodup (nodup_eraseDups items)]
  congr 1
  ext a
  simp [List.mem_eraseDups]

namespace KeyShare

/-!
# Shares on curves
-/

/-- A share with a proper index that holds the values of some curves there. -/
def LiesOn (curves : List (List UInt8)) (share : KeyShare) : Prop :=
  share.index ≠ 0 ∧ share.values = Gf256.values curves share.index

theorem cons_index_values (share : KeyShare) :
    share.index :: share.values = share.data := by
  rcases share with ⟨data, hdata⟩
  cases data with
  | nil =>
      cases hdata
  | cons x values =>
      rfl

theorem ext_index_values {share other : KeyShare} (hindex : share.index = other.index)
    (hvalues : share.values = other.values) : share = other := by
  have hdata : share.data = other.data := by
    rw [← cons_index_values share, ← cons_index_values other, hindex, hvalues]
  cases share
  cases other
  simpa using hdata

theorem liesOn_atPlace {curves : List (List UInt8)} (h : curves.length = 32)
    {x : UInt8} (hx : x ≠ 0) : LiesOn curves (atPlace curves h x) :=
  ⟨hx, rfl⟩

theorem index_injOn {curves : List (List UInt8)} {shares : List KeyShare}
    (h : forall share, share ∈ shares -> LiesOn curves share) :
    forall share, share ∈ shares -> forall other, other ∈ shares ->
      share.index = other.index -> share = other := by
  intro share hshare other hother hindex
  apply ext_index_values hindex
  rw [(h share hshare).2, (h other hother).2, hindex]

section Basis

variable {curves : List (List UInt8)} {basis : List KeyShare}

theorem through_of_liesOn (hcurves : curves.length = 32)
    (hne : basis ≠ []) (hnodup : (basis.map index).Nodup)
    (hdegree : forall curve, curve ∈ curves -> curve.length <= basis.length)
    (h : forall share, share ∈ basis -> LiesOn curves share) (x : UInt8) :
    through basis x = .ok (Gf256.values curves x) := by
  have hrows : basis.map values = (basis.map index).map (Gf256.values curves) := by
    rw [List.map_map]
    apply List.map_congr_left
    intro share hshare
    exact (h share hshare).2
  have hlength : forall curve, curve ∈ curves -> curve.length <= (basis.map index).length := by
    rwa [List.length_map]
  have hinterpolate := Gf256.interpolate_values hnodup hlength x
  rw [hcurves] at hinterpolate
  rw [through, if_neg hne, hrows, hinterpolate]

theorem checkExtras_of_liesOn (hcurves : curves.length = 32)
    (hne : basis ≠ []) (hnodup : (basis.map index).Nodup)
    (hdegree : forall curve, curve ∈ curves -> curve.length <= basis.length)
    (h : forall share, share ∈ basis -> LiesOn curves share)
    {extras : List KeyShare} (hextras : forall share, share ∈ extras -> LiesOn curves share) :
    checkExtras basis extras = .ok () := by
  induction extras with
  | nil =>
      rfl
  | cons extra rest ih =>
      have hextra := hextras extra List.mem_cons_self
      rw [checkExtras, through_of_liesOn hcurves hne hnodup hdegree h]
      simp only [hextra.2, if_true]
      exact ih (fun share hshare => hextras share (List.mem_cons_of_mem extra hshare))

end Basis

theorem combine_of_places {shares : List KeyShare} {threshold : Nat} (hthreshold : 1 <= threshold)
    (hzero : 0 ∉ shares.eraseDups.map index) (hplaces : (shares.eraseDups.map index).Nodup) :
    combine shares (some threshold) =
      if shares.toFinset.card < threshold then
        .error (.fewShares shares.toFinset.card threshold)
      else
        (checkExtras (shares.eraseDups.take threshold) (shares.eraseDups.drop threshold)).bind
          (fun _ => through (shares.eraseDups.take threshold) 0) := by
  have hsize : basisSize shares.eraseDups.length (some threshold) = threshold := by
    simp [basisSize]
  have habsent : (shares.eraseDups.map index).contains 0 = false := by
    rwa [List.contains_eq_mem, decide_eq_false_iff_not]
  unfold combine
  simp only [hsize, Option.getD_some, habsent, eraseDups_of_nodup hplaces]
  rw [← length_eraseDups]
  by_cases hfew : shares.eraseDups.length < threshold
  · rw [if_pos (Or.inr (by exact_mod_cast hfew)), if_pos hfew]
  · have henough : ¬ (shares.eraseDups = [] ∨
        (shares.eraseDups.length : Int) < (threshold : Int)) := by
      intro h
      rcases h with hnil | hlt
      · rw [hnil] at hfew
        exact hfew hthreshold
      · exact hfew (by exact_mod_cast hlt)
    have hlength : (shares.eraseDups.take threshold).length = threshold := by
      rw [List.length_take]
      omega
    rw [if_neg henough, if_neg hfew, hlength]
    simp only [Bool.false_eq_true, if_false, ne_eq, not_true]
    rcases checkExtras (shares.eraseDups.take threshold) (shares.eraseDups.drop threshold) with
      fault | _
    · rfl
    · rfl

/-- Shares on curves no longer than the threshold give back the values at zero if enough of them
differ. -/
theorem combine_of_liesOn {curves : List (List UInt8)} (hcurves : curves.length = 32)
    {threshold : Nat} (hthreshold : 1 <= threshold)
    (hdegree : forall curve, curve ∈ curves -> curve.length <= threshold)
    {shares : List KeyShare} (h : forall share, share ∈ shares -> LiesOn curves share) :
    combine shares (some threshold) =
      if shares.toFinset.card < threshold then
        .error (.fewShares shares.toFinset.card threshold)
      else .ok (Gf256.values curves 0) := by
  have hdistinct : forall share, share ∈ shares.eraseDups -> LiesOn curves share := by
    intro share hshare
    exact h share (List.mem_eraseDups.mp hshare)
  have hplaces : (shares.eraseDups.map index).Nodup :=
    (nodup_eraseDups shares).map_on (index_injOn hdistinct)
  have hzero : 0 ∉ shares.eraseDups.map index := by
    intro hmem
    rcases List.mem_map.mp hmem with ⟨share, hshare, hindex⟩
    exact (hdistinct share hshare).1 hindex
  rw [combine_of_places hthreshold hzero hplaces]
  by_cases hfew : shares.toFinset.card < threshold
  · rw [if_pos hfew, if_pos hfew]
  · rw [if_neg hfew, if_neg hfew]
    have hlength : (shares.eraseDups.take threshold).length = threshold := by
      rw [← length_eraseDups] at hfew
      rw [List.length_take]
      omega
    have hne : shares.eraseDups.take threshold ≠ [] := by
      intro hnil
      rw [hnil, List.length_nil] at hlength
      omega
    have hbasis : forall share, share ∈ shares.eraseDups.take threshold -> LiesOn curves share :=
      fun share hshare => hdistinct share (List.mem_of_mem_take hshare)
    have hextras : forall share, share ∈ shares.eraseDups.drop threshold -> LiesOn curves share :=
      fun share hshare => hdistinct share (List.mem_of_mem_drop hshare)
    have hbasisPlaces : ((shares.eraseDups.take threshold).map index).Nodup := by
      rw [List.map_take]
      exact hplaces.take
    rw [← hlength] at hdegree
    rw [checkExtras_of_liesOn hcurves hne hbasisPlaces hdegree hbasis hextras,
      through_of_liesOn hcurves hne hbasisPlaces hdegree hbasis]
    rfl

end KeyShare
end WalletVault
