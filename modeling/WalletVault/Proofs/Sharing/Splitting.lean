import WalletVault.KeyShare
import WalletVault.Proofs.Draws
import WalletVault.Proofs.Field.Polynomial

/-!
# Splitting a secret

Splitting draws the random coefficients of all curves at once and evaluates the
curves at the indices from one on. Every byte of the secret takes its own slice
of the random bytes, so the curves of a secret are as many as its bytes and as
long as the threshold.
-/

namespace WalletVault

namespace KeyShare

/-!
# The curves of a secret
-/

theorem values_polynomials_cons (degree : Nat) (b : UInt8)
    (secret randomness : Bytes) (x : UInt8) :
    Gf256.values (polynomials degree (b :: secret) randomness) x =
      Gf256.evaluate (b :: randomness.take degree) x ::
        Gf256.values (polynomials degree secret (randomness.drop degree)) x := rfl

theorem length_of_mem_polynomials {degree : Nat} {secret randomness : Bytes}
    {curve : List UInt8} (h : curve ∈ polynomials degree secret randomness) :
    curve.length <= degree + 1 := by
  induction secret generalizing randomness with
  | nil =>
      cases h
  | cons b secret ih =>
      rcases List.mem_cons.mp h with hhead | htail
      · rw [hhead, List.length_cons, List.length_take]
        omega
      · exact ih htail

theorem values_polynomials_zero (degree : Nat) (secret randomness : Bytes) :
    Gf256.values (polynomials degree secret randomness) 0 = secret := by
  induction secret generalizing randomness with
  | nil =>
      rfl
  | cons b secret ih =>
      rw [values_polynomials_cons, ih, Gf256.evaluate_cons, Gf256.mul_comm,
        Gf256.zero_mul, UInt8.zero_xor]

/-!
# Shares of a split
-/

theorem split_apply {count threshold : Nat} (hthreshold : 1 <= threshold)
    (hle : threshold <= count) (hcount : count <= 255)
    {secret : Bytes} (hsecret : secret.length = 32) (source : RandomSource) :
    split secret count threshold source =
      ((draw (32 * (threshold - 1)) source).1.map
          (fun randomness => shareOut count (threshold - 1) secret randomness hsecret),
        (draw (32 * (threshold - 1)) source).2) := by
  have hone : ¬ (threshold : Int) < 1 := by omega
  have hcover : ¬ (count : Int) < threshold := by omega
  have hfield : ¬ (count : Int) > 255 := by omega
  unfold split
  rw [dif_pos hsecret]
  simp only [hone, hcover, hfield, if_false, Int.toNat_natCast]
  rw [Computation.bind_apply]
  rcases draw (32 * (threshold - 1)) source with ⟨result, source'⟩
  cases result <;> rfl

theorem split_eq_ok {count threshold : Nat} (hthreshold : 1 <= threshold)
    (hle : threshold <= count) (hcount : count <= 255)
    {secret : Bytes} (hsecret : secret.length = 32)
    {shares : List KeyShare} {source source' : RandomSource} :
    split secret count threshold source = (.ok shares, source') <->
      exists randomness, draw (32 * (threshold - 1)) source = (.ok randomness, source') ∧
        shares = shareOut count (threshold - 1) secret randomness hsecret := by
  rw [split_apply hthreshold hle hcount hsecret]
  rcases draw (32 * (threshold - 1)) source with ⟨result, drawn⟩
  cases result with
  | ok randomness =>
      constructor
      · intro h
        cases h
        exact ⟨randomness, rfl, rfl⟩
      · intro h
        rcases h with ⟨_, hdraw, hshares⟩
        cases hdraw
        rw [hshares]
        rfl
  | error fault =>
      constructor
      · intro h
        cases h
      · intro h
        rcases h with ⟨_, hdraw, _⟩
        cases hdraw

def splitWith (secret randomness : Bytes) (count threshold : Int) :
    Except Fault (List KeyShare) :=
  (split secret count threshold (RandomSource.ofBytes randomness)).1

theorem splitWith_eq_ok {count threshold : Nat} (hthreshold : 1 <= threshold)
    (hle : threshold <= count) (hcount : count <= 255)
    {secret : Bytes} (hsecret : secret.length = 32)
    {randomness : Bytes} (hrandomness : randomness.length = 32 * (threshold - 1)) :
    splitWith secret randomness count threshold =
      .ok (shareOut count (threshold - 1) secret randomness hsecret) := by
  rcases draw_of_gives hrandomness (ofBytes_gives randomness) with ⟨hdraw, _⟩
  rw [splitWith, split_apply hthreshold hle hcount hsecret, hdraw]
  rfl

theorem length_shareOut (count degree : Nat) {secret : Bytes} (randomness : Bytes)
    (hsecret : secret.length = 32) :
    (shareOut count degree secret randomness hsecret).length = count := by
  simp [shareOut]

theorem toNat_ofNat_succ {count i : Nat} (hcount : count <= 255) (hi : i < count) :
    (UInt8.ofNat (i + 1)).toNat = i + 1 := by
  rw [UInt8.toNat_ofNat']
  exact Nat.mod_eq_of_lt (by omega)

theorem length_curves (degree : Nat) {secret : Bytes} (randomness : Bytes)
    (hsecret : secret.length = 32) : (polynomials degree secret randomness).length = 32 := by
  rw [length_polynomials, hsecret]

def shareAt (degree : Nat) {secret : Bytes} (randomness : Bytes) (hsecret : secret.length = 32)
    (i : Nat) : KeyShare :=
  atPlace (polynomials degree secret randomness) (length_curves degree randomness hsecret)
    (UInt8.ofNat (i + 1))

theorem shareOut_eq_map (count degree : Nat) {secret : Bytes} (randomness : Bytes)
    (hsecret : secret.length = 32) :
    shareOut count degree secret randomness hsecret =
      (List.range count).map (shareAt degree randomness hsecret) := rfl

theorem getElem?_shareOut {count i : Nat} (hi : i < count) (degree : Nat) {secret : Bytes}
    (randomness : Bytes) (hsecret : secret.length = 32) :
    (shareOut count degree secret randomness hsecret)[i]? =
      some (shareAt degree randomness hsecret i) := by
  rw [shareOut_eq_map, List.getElem?_map, List.getElem?_range hi]
  rfl

theorem index_shareAt {count : Nat} (hcount : count <= 255) (degree : Nat) {secret : Bytes}
    (randomness : Bytes) (hsecret : secret.length = 32) {i : Nat} (hi : i < count) :
    (shareAt degree randomness hsecret i).index.toNat = i + 1 :=
  toNat_ofNat_succ hcount hi

theorem shareAt_injOn {count : Nat} (hcount : count <= 255) (degree : Nat) {secret : Bytes}
    (randomness : Bytes) (hsecret : secret.length = 32) {i j : Nat} (hi : i < count)
    (hj : j < count)
    (h : shareAt degree randomness hsecret i = shareAt degree randomness hsecret j) : i = j := by
  have hindex := congrArg (fun share => (index share).toNat) h
  rw [index_shareAt hcount degree randomness hsecret hi,
    index_shareAt hcount degree randomness hsecret hj] at hindex
  omega

theorem nodup_shareOut {count : Nat} (hcount : count <= 255) (degree : Nat) {secret : Bytes}
    (randomness : Bytes) (hsecret : secret.length = 32) :
    (shareOut count degree secret randomness hsecret).Nodup := by
  rw [shareOut_eq_map]
  apply List.Nodup.map_on
  · intro i hi j hj h
    exact shareAt_injOn hcount degree randomness hsecret (List.mem_range.mp hi)
      (List.mem_range.mp hj) h
  · exact List.nodup_range

end KeyShare
end WalletVault
