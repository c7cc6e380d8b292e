import Mathlib.Order.MinMax
import WalletVault.Proofs.Computation
import WalletVault.RandomSource

/-!
# Draws from a random source

A draw succeeds just in case the source answers in full, and only spends the
request. So a source is described by what it gives to the next requests, or by
answering every request in full.
-/

namespace WalletVault

namespace RandomSource

def spend (source : RandomSource) (size : Nat) : RandomSource :=
  { source with asked := size :: source.asked }

/-- The next requests are answered by the given pieces, if each asks for the size of its piece. -/
def Gives (source : RandomSource) : List Bytes -> Prop
  | [] => True
  | piece :: rest =>
      source.answer (piece.length :: source.asked) = piece ∧
        (source.spend piece.length).Gives rest

def Ample (source : RandomSource) : Prop :=
  forall size asked, (source.answer (size :: asked)).length = size

end RandomSource

theorem draw_of_gives {source : RandomSource} {piece : Bytes} {rest : List Bytes}
    {size : Nat} (hsize : piece.length = size) (h : source.Gives (piece :: rest)) :
    draw size source = (.ok piece, source.spend size) ∧ (source.spend size).Gives rest := by
  rcases h with ⟨hanswer, hrest⟩
  subst hsize
  refine ⟨?_, hrest⟩
  simp [draw, hanswer, RandomSource.spend]

theorem draw_of_ample {source : RandomSource} (h : source.Ample) (size : Nat) :
    draw size source =
      (.ok (source.answer (size :: source.asked)), source.spend size) := by
  simp [draw, h size, RandomSource.spend]

theorem ample_spend {source : RandomSource} (h : source.Ample) (size : Nat) :
    (source.spend size).Ample :=
  h

theorem draw_eq_ok {source source' : RandomSource} {size : Nat} {data : Bytes}
    (h : draw size source = (.ok data, source')) :
    data.length = size ∧ source' = source.spend size := by
  unfold draw at h
  by_cases hsize : (source.answer (size :: source.asked)).length = size
  · simp only [hsize, if_true] at h
    cases h
    exact ⟨hsize, rfl⟩
  · simp only [hsize, if_false] at h
    cases h

theorem ofPattern_ample {pattern : Bytes} (h : pattern ≠ []) :
    (RandomSource.ofPattern pattern).Ample := by
  intro size asked
  have hpos := List.length_pos_iff.mpr h
  have hcover : size <= (size / pattern.length + 1) * pattern.length := by
    have hmod := Nat.mod_lt size hpos
    have hdiv := Nat.div_add_mod' size pattern.length
    rw [Nat.succ_mul]
    omega
  simpa [RandomSource.ofPattern, Bytes.cycle, h] using hcover

theorem ofBytes_gives (data : Bytes) : (RandomSource.ofBytes data).Gives [data] := by
  simp [RandomSource.Gives, RandomSource.ofBytes]

end WalletVault
