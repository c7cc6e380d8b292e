import WalletVault.Proofs.Sharing.Splitting

/-!
# Secrecy of a split

Fewer shares than the threshold say nothing about the secret: whatever secret
is assumed, exactly one choice of the random bytes leads to the shares seen.
For one byte this is interpolation through zero and the places seen; a split
uses its random bytes slice by slice, so the choices of all bytes combine.
-/

namespace WalletVault
namespace KeyShare

/-!
# One byte
-/

theorem evaluate_cons_eq_iff {b x value : UInt8} (hx : x ≠ 0) (rest : List UInt8) :
    Gf256.evaluate (b :: rest) x = value <->
      Gf256.evaluate rest x = Gf256.mul (value ^^^ b) (Gf256.inv x) := by
  have hne : (⟨x⟩ : Gf256.Element) ≠ 0 := by
    intro h
    exact hx (congrArg Gf256.Element.byte h)
  rw [Gf256.evaluate_cons]
  rw [← Gf256.Element.mk_injective.eq_iff, ← Gf256.Element.mk_injective.eq_iff]
  change (⟨Gf256.evaluate rest x⟩ : Gf256.Element) * ⟨x⟩ + ⟨b⟩ = ⟨value⟩ <->
    (⟨Gf256.evaluate rest x⟩ : Gf256.Element) = (⟨value⟩ - ⟨b⟩) * (⟨x⟩ : Gf256.Element)⁻¹
  rw [← eq_sub_iff_add_eq, eq_mul_inv_iff_mul_eq₀ hne]

/-- Some values at places other than zero fix the coefficients above a given constant term. -/
theorem existsUnique_coefficients_above (b : UInt8) {places : Finset UInt8}
    (hzero : 0 ∉ places) (value : UInt8 -> UInt8) :
    ∃! rest : List UInt8, rest.length = places.card ∧
      forall x, x ∈ places -> Gf256.evaluate (b :: rest) x = value x := by
  have h := Gf256.existsUnique_coefficients places
    (fun x => Gf256.mul (value x ^^^ b) (Gf256.inv x))
  refine (existsUnique_congr ?_).mp h
  intro rest
  apply and_congr_right
  intro _
  constructor
  · intro hvalues x hx
    exact (evaluate_cons_eq_iff (ne_of_mem_of_not_mem hx hzero) rest).mpr (hvalues x hx)
  · intro hvalues x hx
    exact (evaluate_cons_eq_iff (ne_of_mem_of_not_mem hx hzero) rest).mp (hvalues x hx)

/-!
# All bytes
-/

theorem existsUnique_append {front back : Nat} {p q : Bytes -> Prop}
    (hfront : ∃! slice : Bytes, slice.length = front ∧ p slice)
    (hback : ∃! slice : Bytes, slice.length = back ∧ q slice) :
    ∃! whole : Bytes, whole.length = front + back ∧ p (whole.take front) ∧
      q (whole.drop front) := by
  rcases hfront with ⟨first, ⟨hfirst, hp⟩, hfirstUnique⟩
  rcases hback with ⟨second, ⟨hsecond, hq⟩, hsecondUnique⟩
  have htake : (first ++ second).take front = first := by
    rw [← hfirst, List.take_left]
  have hdrop : (first ++ second).drop front = second := by
    rw [← hfirst, List.drop_left]
  refine ⟨first ++ second, ⟨?_, ?_, ?_⟩, ?_⟩
  · rw [List.length_append, hfirst, hsecond]
  · rwa [htake]
  · rwa [hdrop]
  · intro other h
    rcases h with ⟨hlength, hpOther, hqOther⟩
    have hhead := hfirstUnique (other.take front)
      ⟨by rw [List.length_take]; omega, hpOther⟩
    have htail := hsecondUnique (other.drop front)
      ⟨by rw [List.length_drop]; omega, hqOther⟩
    rw [← hhead, ← htail, List.take_append_drop]

theorem existsUnique_randomness {places : Finset UInt8} (hzero : 0 ∉ places)
    {secret secret' : Bytes} (hlength : secret'.length = secret.length)
    (randomness : Bytes) :
    ∃! randomness' : Bytes, randomness'.length = secret.length * places.card ∧
      forall x, x ∈ places ->
        Gf256.values (polynomials places.card secret' randomness') x =
          Gf256.values (polynomials places.card secret randomness) x := by
  induction secret generalizing secret' randomness with
  | nil =>
      refine ⟨[], ⟨by simp, ?_⟩, ?_⟩
      · intro x _
        rw [List.length_eq_zero_iff.mp hlength]
        rfl
      · intro other h
        rcases h with ⟨hother, _⟩
        simpa using hother
  | cons b secret ih =>
      cases secret' with
      | nil =>
          cases hlength
      | cons b' secret' =>
          have hfront := existsUnique_coefficients_above b' hzero
            (Gf256.evaluate (b :: randomness.take places.card))
          have hback := ih (by simpa using hlength) (randomness.drop places.card)
          refine (existsUnique_congr ?_).mp (existsUnique_append hfront hback)
          intro whole
          rw [List.length_cons, Nat.succ_mul, Nat.add_comm]
          apply and_congr_right
          intro _
          constructor
          · intro h x hx
            rw [values_polynomials_cons, values_polynomials_cons, h.1 x hx, h.2 x hx]
          · intro h
            have hvalues : forall x, x ∈ places ->
                Gf256.evaluate (b' :: whole.take places.card) x =
                    Gf256.evaluate (b :: randomness.take places.card) x ∧
                  Gf256.values (polynomials places.card secret' (whole.drop places.card)) x =
                    Gf256.values (polynomials places.card secret
                      (randomness.drop places.card)) x := by
              intro x hx
              have hcons := h x hx
              rw [values_polynomials_cons, values_polynomials_cons] at hcons
              exact List.cons.inj hcons
            exact ⟨fun x hx => (hvalues x hx).1, fun x hx => (hvalues x hx).2⟩

/-!
# Shares
-/

def placesOf (indices : Finset Nat) : Finset UInt8 :=
  indices.image UInt8.ofNat

theorem ofNat_injOn {indices : Finset Nat}
    (hindices : forall i, i ∈ indices -> 1 <= i ∧ i <= 255) :
    Set.InjOn UInt8.ofNat (indices : Set Nat) := by
  intro i hi j hj h
  have hnat := congrArg UInt8.toNat h
  have hi' := hindices i hi
  have hj' := hindices j hj
  rw [UInt8.toNat_ofNat', UInt8.toNat_ofNat', Nat.mod_eq_of_lt (by omega),
    Nat.mod_eq_of_lt (by omega)] at hnat
  exact hnat

theorem zero_notMem_placesOf {indices : Finset Nat}
    (hindices : forall i, i ∈ indices -> 1 <= i ∧ i <= 255) :
    0 ∉ placesOf indices := by
  intro hzero
  rcases Finset.mem_image.mp hzero with ⟨i, hi, hplace⟩
  have hi' := hindices i hi
  have hnat := congrArg UInt8.toNat hplace
  rw [UInt8.toNat_ofNat', Nat.mod_eq_of_lt (by omega)] at hnat
  exact absurd hnat (by simp; omega)

theorem forall_placesOf {indices : Finset Nat} {p : UInt8 -> Prop} :
    (forall x, x ∈ placesOf indices -> p x) <->
      forall i, i ∈ indices -> p (UInt8.ofNat i) := by
  simp [placesOf]

theorem shareAt_eq_iff {degree : Nat} {secret secret' randomness randomness' : Bytes}
    (hsecret : secret.length = 32) (hsecret' : secret'.length = 32) (i : Nat) :
    shareAt degree randomness hsecret i = shareAt degree randomness' hsecret' i <->
      Gf256.values (polynomials degree secret randomness) (UInt8.ofNat (i + 1)) =
        Gf256.values (polynomials degree secret' randomness') (UInt8.ofNat (i + 1)) := by
  simp [shareAt, atPlace, Gf256.values]

theorem common_share_iff {count degree : Nat} (hcount : count <= 255)
    {secret secret' randomness randomness' : Bytes} (hsecret : secret.length = 32)
    (hsecret' : secret'.length = 32) {i : Nat} (hi : 1 <= i ∧ i <= count) :
    (exists share : KeyShare, share.index.toNat = i ∧
        (shareOut count degree secret randomness hsecret)[i - 1]? = some share ∧
        (shareOut count degree secret' randomness' hsecret')[i - 1]? = some share) <->
      Gf256.values (polynomials degree secret' randomness') (UInt8.ofNat i) =
        Gf256.values (polynomials degree secret randomness) (UInt8.ofNat i) := by
  rcases hi with ⟨hone, hle⟩
  rcases Nat.exists_eq_add_of_le' hone with ⟨j, hj⟩
  have hcovered : j < count := by omega
  rw [hj, Nat.add_sub_cancel, getElem?_shareOut hcovered, getElem?_shareOut hcovered,
    ← shareAt_eq_iff hsecret' hsecret]
  constructor
  · intro h
    rcases h with ⟨share, _, hshare, hshare'⟩
    rw [Option.some_inj.mp hshare, Option.some_inj.mp hshare']
  · intro h
    exact ⟨_, index_shareAt hcount _ randomness hsecret hcovered, rfl, congrArg some h⟩

/-- Whatever secret is assumed, exactly one choice of the random bytes leads to the shares seen
at one index less than the threshold. -/
theorem split_perfectly_secret {count threshold : Nat} (hthreshold : 1 <= threshold)
    (hle : threshold <= count) (hcount : count <= 255)
    {secret secret' : Bytes} (hsecret : secret.length = 32) (hsecret' : secret'.length = 32)
    {randomness : Bytes} (hrandomness : randomness.length = 32 * (threshold - 1))
    {seen : Finset Nat} (hseen : forall i, i ∈ seen -> 1 <= i ∧ i <= count)
    (hcard : seen.card = threshold - 1) :
    ∃! randomness' : Bytes, randomness'.length = 32 * (threshold - 1) ∧
      exists shares shares',
        splitWith secret randomness count threshold = .ok shares ∧
        splitWith secret' randomness' count threshold = .ok shares' ∧
        forall i, i ∈ seen -> exists share : KeyShare, share.index.toNat = i ∧
          shares[i - 1]? = some share ∧ shares'[i - 1]? = some share := by
  have hbytes : forall i, i ∈ seen -> 1 <= i ∧ i <= 255 := by
    intro i hi
    exact ⟨(hseen i hi).1, (hseen i hi).2.trans hcount⟩
  have hplaces : (placesOf seen).card = threshold - 1 := by
    rw [placesOf, Finset.card_image_of_injOn (ofNat_injOn hbytes), hcard]
  have hunique := existsUnique_randomness (zero_notMem_placesOf hbytes)
    (hsecret'.trans hsecret.symm) randomness
  rw [hplaces, hsecret] at hunique
  refine (existsUnique_congr ?_).mpr hunique
  intro randomness'
  apply and_congr_right
  intro hrandomness'
  rw [splitWith_eq_ok hthreshold hle hcount hsecret hrandomness,
    splitWith_eq_ok hthreshold hle hcount hsecret' hrandomness', forall_placesOf]
  constructor
  · intro h i hi
    rcases h with ⟨shares, shares', hshares, hshares', hsame⟩
    cases hshares
    cases hshares'
    exact (common_share_iff hcount hsecret hsecret' (hseen i hi)).mp (hsame i hi)
  · intro hvalues
    refine ⟨_, _, rfl, rfl, ?_⟩
    intro i hi
    exact (common_share_iff hcount hsecret hsecret' (hseen i hi)).mpr (hvalues i hi)

theorem split_perfectly_secret_three_of_three :
    ∃! randomness' : Bytes, randomness'.length = 32 * (3 - 1) ∧
      exists shares shares',
        splitWith (List.replicate 32 1) (List.replicate 64 7) (3 : Nat) (3 : Nat) =
          .ok shares ∧
        splitWith (Bytes.zeros 32) randomness' (3 : Nat) (3 : Nat) = .ok shares' ∧
        forall i, i ∈ ({1, 3} : Finset Nat) -> exists share : KeyShare,
          share.index.toNat = i ∧ shares[i - 1]? = some share ∧ shares'[i - 1]? = some share :=
  split_perfectly_secret (by decide) (by decide) (by decide) (by decide) (by decide)
    (by decide) (by decide) (by decide)

end KeyShare
end WalletVault
