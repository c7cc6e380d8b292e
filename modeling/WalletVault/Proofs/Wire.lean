import Mathlib.Tactic.Ring
import WalletVault.Proofs.Computation
import WalletVault.Wire

/-!
# Laws of file fields

A reader of one field takes its bytes from the front and leaves the rest, and
whatever it takes is what a writer would have put there. Together the two
directions make files and their fields determine each other.
-/

namespace WalletVault

/-!
# Digits
-/

namespace Bytes

theorem toNatLE_lt (data : Bytes) : toNatLE data < 256 ^ data.length := by
  induction data with
  | nil =>
      simp [toNatLE]
  | cons b rest ih =>
      have hb := b.toNat_lt
      rw [toNatLE, List.length_cons, Nat.pow_succ]
      omega

theorem toNatLE_ofNatLE (width n : Nat) :
    toNatLE (ofNatLE width n) = n % 256 ^ width := by
  induction width generalizing n with
  | zero =>
      simp [ofNatLE, toNatLE, Nat.mod_one]
  | succ width ih =>
      have hbyte : (UInt8.ofNat (n % 256)).toNat = n % 256 := by
        rw [UInt8.toNat_ofNat']
        exact Nat.mod_mod _ _
      rw [ofNatLE, toNatLE, ih, hbyte, Nat.pow_succ, Nat.mul_comm (256 ^ width), Nat.mod_mul]

theorem ofNatLE_toNatLE (data : Bytes) : ofNatLE data.length (toNatLE data) = data := by
  induction data with
  | nil =>
      rfl
  | cons b rest ih =>
      have hb := b.toNat_lt
      have hlow : (b.toNat + 256 * toNatLE rest) % 256 = b.toNat := by omega
      have hhigh : (b.toNat + 256 * toNatLE rest) / 256 = toNatLE rest := by omega
      rw [List.length_cons, toNatLE, ofNatLE, hlow, hhigh, ih, UInt8.ofNat_toNat]

end Bytes

namespace Wire

/-!
# Reading
-/

theorem exact_eq_ok {size : Int} (hsize : Bytes.isSize size = true)
    {input data rest : Bytes} :
    exact size input = (.ok data, rest) <->
      input = data ++ rest ∧ (data.length : Int) = size := by
  unfold exact
  simp only [hsize, Bool.not_true, Bool.false_eq_true, if_false]
  constructor
  · intro h
    by_cases hgot : ((input.take (if size < 0 then input.length else size.toNat)).length : Int) =
        size
    · rw [if_pos hgot] at h
      cases h
      exact ⟨(List.take_append_drop _ _).symm, hgot⟩
    · rw [if_neg hgot] at h
      cases h
  · intro h
    rcases h with ⟨hinput, hlength⟩
    have hnonneg : ¬ size < 0 := by omega
    have htake : size.toNat = data.length := by omega
    simp [hinput, hnonneg, htake, hlength]

theorem exact_of_short {needed : Int} {input : Bytes} (hsize : Bytes.isSize needed = true)
    (hshort : needed < 0 ∨ input.length < needed) :
    exact needed input = (.error (.malformed (.truncated needed input.length)), []) := by
  have hall : input.length <= (if needed < 0 then input.length else needed.toNat) := by
    split
    next =>
      exact Nat.le_refl _
    next hnonneg =>
      omega
  have hfew : ¬ (input.length : Int) = needed := by omega
  simp only [exact, hsize, Bool.not_true, Bool.false_eq_true, if_false,
    List.take_of_length_le hall, List.drop_of_length_le hall, if_neg hfew]

theorem exact_of_not_size {needed : Int} (hsize : Bytes.isSize needed = false) (input : Bytes) :
    exact needed input = (.error (.misuse .sizeWidth), input) := by
  simp [exact, hsize]

/-- What a request for some bytes can come to: its result, the piece that it takes from the front of
the input, and the rest. It gets a piece of the size, or takes all that is left because that is too
little, or takes nothing because its size is none. -/
inductive Gets : Int -> Except Fault Bytes -> Bytes -> Bytes -> Prop where
  | enough (piece rest : Bytes) : Gets piece.length (.ok piece) piece rest
  | short {needed : Int} (piece : Bytes) (h : needed < 0 ∨ piece.length < needed) :
      Gets needed (.error (.malformed (.truncated needed piece.length))) piece []
  | refused {needed : Int} (rest : Bytes) (h : Bytes.isSize needed = false) :
      Gets needed (.error (.misuse .sizeWidth)) [] rest

theorem exists_gets (needed : Int) (input : Bytes) :
    exists result piece rest, Wire.exact needed input = (result, rest) ∧ input = piece ++ rest ∧
      Gets needed result piece rest := by
  cases hsize : Bytes.isSize needed with
  | false =>
      exact ⟨_, [], input, exact_of_not_size hsize input, rfl, .refused input hsize⟩
  | true =>
      by_cases henough : 0 <= needed ∧ needed <= input.length
      · have hlength : ((input.take needed.toNat).length : Int) = needed := by
          rw [List.length_take]
          omega
        have hsplit := (List.take_append_drop needed.toNat input).symm
        have hgets := Gets.enough (input.take needed.toNat) (input.drop needed.toNat)
        rw [hlength] at hgets
        exact ⟨_, _, _, (exact_eq_ok hsize).mpr ⟨hsplit, hlength⟩, hsplit, hgets⟩
      · have hshort : needed < 0 ∨ input.length < needed := by omega
        exact ⟨_, input, [], exact_of_short hsize hshort, (List.append_nil input).symm,
          .short input hshort⟩

theorem isSize_size (width : Width) : Bytes.isSize (size width) = true := by
  cases width <;> rfl

theorem number_eq_ok {width : Nat} (hwidth : Bytes.isSize width = true)
    {n : Nat} {input rest : Bytes} :
    number width input = (.ok n, rest) <->
      input = Bytes.ofNatLE width n ++ rest ∧ n < 256 ^ width := by
  rw [number, Computation.bind_eq_ok]
  constructor
  · intro h
    rcases h with ⟨data, middle, hdata, hnumber⟩
    cases hnumber
    rcases (exact_eq_ok hwidth).mp hdata with ⟨hinput, hlength⟩
    have hlength' : data.length = width := by exact_mod_cast hlength
    subst hlength'
    exact ⟨by rw [Bytes.ofNatLE_toNatLE, hinput], Bytes.toNatLE_lt data⟩
  · intro h
    rcases h with ⟨hinput, hn⟩
    refine ⟨Bytes.ofNatLE width n, rest, ?_, ?_⟩
    · exact (exact_eq_ok hwidth).mpr ⟨hinput, by rw [Bytes.length_ofNatLE]⟩
    · rw [Bytes.toNatLE_ofNatLE, Nat.mod_eq_of_lt hn, Computation.pure_apply]

/-!
# Writing
-/

theorem not_fits_iff {width : Width} {value : Int} :
    (value < 0 ∨ (Nat.pow 256 (size width) : Nat) <= value) <->
      ¬ (0 <= value ∧ value < 256 ^ size width) := by
  have hlimit : ((Nat.pow 256 (size width) : Nat) : Int) = 256 ^ size width := by
    exact Nat.cast_pow 256 (size width)
  rw [hlimit]
  omega

theorem isWide_of_fits {width : Width} {value : Int}
    (hfits : 0 <= value ∧ value < 256 ^ size width) : isWide width value = false := by
  cases width with
  | u8 =>
      simp [isWide, Bytes.isSize, size] at hfits ⊢
      omega
  | u16 =>
      simp [isWide, Bytes.isSize, size] at hfits ⊢
      omega
  | u32 =>
      simp [isWide, size] at hfits ⊢
      omega

theorem put_of_fits {width : Width} {value : Int}
    (hfits : 0 <= value ∧ value < 256 ^ size width) :
    put width value = .ok (Bytes.ofNatLE (size width) value.toNat) := by
  have hlimits := mt not_fits_iff.mp (not_not.mpr hfits)
  rw [put, isWide_of_fits hfits, if_neg Bool.false_ne_true, if_neg hlimits]

theorem put_of_not_fits {width : Width} {value : Int}
    (hfits : ¬ (0 <= value ∧ value < 256 ^ size width)) :
    exists cause, (cause = .width width ∨ cause = .wideNumber) ∧
      put width value = .error (.misuse cause) := by
  unfold put
  split
  next =>
    exact ⟨.wideNumber, Or.inr rfl, rfl⟩
  next =>
    rw [if_pos (not_fits_iff.mpr hfits)]
    exact ⟨.width width, Or.inl rfl, rfl⟩

theorem put_u32_eq_ok {value : Int} {data : Bytes} :
    put .u32 value = .ok data <->
      (0 <= value ∧ value < 2 ^ 32) ∧ data = Bytes.ofNatLE 4 value.toNat := by
  have hlimit : (256 : Int) ^ size .u32 = 2 ^ 32 := by decide
  rw [← hlimit]
  by_cases hfits : 0 <= value ∧ value < 256 ^ size .u32
  · rw [put_of_fits hfits, Except.ok.injEq]
    exact ⟨fun h => ⟨hfits, h.symm⟩, fun h => h.2.symm⟩
  · rcases put_of_not_fits hfits with ⟨cause, _, hput⟩
    rw [hput]
    constructor
    · intro h
      cases h
    · intro h
      exact absurd h.1 hfits

end Wire
end WalletVault
