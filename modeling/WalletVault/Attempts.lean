/-!
# Attempts

Actions are carried out one after the other, and some of them may fail. A failed
action does not stop the later ones, and what it has done to the state stays.
-/

namespace WalletVault

section

variable {ι ε σ α : Type}

/-- The results of actions that are carried out one after the other, and the state after them. -/
def attempts (action : ι -> ExceptT ε (StateM σ) α) : List ι -> σ -> List (Except ε α) × σ
  | [], s => ([], s)
  | first :: rest, s =>
    let (result, s) := action first s
    let (results, s) := attempts action rest s
    (result :: results, s)

variable (action : ι -> ExceptT ε (StateM σ) α)

theorem attempts_cons (first : ι) (rest : List ι) (s : σ) :
    attempts action (first :: rest) s =
      ((action first s).1 :: (attempts action rest (action first s).2).1,
        (attempts action rest (action first s).2).2) := rfl

theorem attempts_append (front back : List ι) (s : σ) :
    attempts action (front ++ back) s =
      ((attempts action front s).1 ++ (attempts action back (attempts action front s).2).1,
        (attempts action back (attempts action front s).2).2) := by
  induction front generalizing s with
  | nil => rfl
  | cons first rest ih => rw [List.cons_append, attempts_cons, ih, attempts_cons, List.cons_append]

end

end WalletVault
