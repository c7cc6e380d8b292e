import WalletVault.Proofs.Json.Grammar

/-!
# Lists of numbers are read

A list of natural numbers is read from every text that spells it, with any
blanks between its items, as long as its numbers are not too long to be read at
all. What is written as such a list is one of these texts.
-/

namespace WalletVault
namespace Json

/-!
# Numbers
-/

def Ends (rest : List Char) : Prop :=
  forall c, rest.head? = some c -> c = ',' ∨ c = ']' ∨ isSpace c = true

theorem Ends.not_digit {c : Char} {rest : List Char} (h : Ends (c :: rest)) :
    isDigit c = false ∧ c ≠ '.' ∧ ¬ (c = 'e' ∨ c = 'E') := by
  rcases h c rfl with hcomma | hbracket | hspace
  · rw [hcomma]
    decide
  · rw [hbracket]
    decide
  · simp only [isSpace, Bool.or_eq_true, decide_eq_true_eq] at hspace
    rcases hspace with ((h | h) | h) | h <;> rw [h] <;> decide

theorem Ends.takeWhile_eq {rest : List Char} (h : Ends rest) : rest.takeWhile isDigit = [] := by
  cases rest with
  | nil =>
      rfl
  | cons c rest =>
      rw [List.takeWhile_cons_of_neg]
      rw [h.not_digit.1]
      exact Bool.false_ne_true

theorem Ends.dropWhile_eq {rest : List Char} (h : Ends rest) :
    rest.dropWhile isDigit = rest := by
  cases rest with
  | nil =>
      rfl
  | cons c rest =>
      rw [List.dropWhile_cons_of_neg]
      rw [h.not_digit.1]
      exact Bool.false_ne_true

theorem Ends.no_more {rest : List Char} (h : Ends rest) :
    fraction? rest = none ∧ exponent? rest = none := by
  cases rest with
  | nil =>
      exact ⟨rfl, rfl⟩
  | cons c rest =>
      rcases h.not_digit with ⟨_, hpoint, hexponent⟩
      constructor
      · unfold fraction?
        split
        · rename_i heq
          exact absurd (List.cons.inj heq).1 hpoint
        · rfl
      · simp only [exponent?, if_neg hexponent]

theorem head_of_toDigits (n : Nat) (rest : List Char) :
    exists c others, Nat.toDigits 10 n ++ rest = c :: others ∧ isDigit c = true := by
  cases hdigits : Nat.toDigits 10 n with
  | nil =>
      exact absurd hdigits Nat.toDigits_ne_nil
  | cons c others =>
      have hmem : c ∈ Nat.toDigits 10 n := by
        rw [hdigits]
        exact List.mem_cons_self
      exact ⟨c, others ++ rest, rfl, isDigit_of_mem_toDigits hmem⟩

theorem number_toDigits {n : Nat} {rest : List Char}
    (hshort : (Nat.toDigits 10 n).length <= Text.maxDigits) (hrest : Ends rest) :
    number (Nat.toDigits 10 n ++ rest) = .ok (.int n, rest) := by
  rcases hrest.no_more with ⟨hfraction, hexponent⟩
  rcases head_of_toDigits n rest with ⟨c, others, hhead, hdigit⟩
  have hpart := integerPart?_append n hrest.takeWhile_eq hrest.dropWhile_eq
  have hvalue : Text.ofDigits ((Nat.toDigits 10 n).map (fun c => c.toNat - 48)) = n := by
    rw [Text.ofDigits, List.foldl_map]
    exact Nat.ofDigitChars_ten_toDigits
  unfold number
  split
  rename_i negative body hsign
  split at hsign
  · rename_i rest' heq
    rw [hhead] at heq
    rw [(List.cons.inj heq).1] at hdigit
    cases hdigit
  · cases hsign
    rw [hpart]
    dsimp only
    rw [hfraction, Option.getD_none, hexponent, Option.getD_none, if_neg (Nat.lt_irrefl _),
      if_neg (Nat.not_lt.mpr hshort), hvalue]
    rfl

theorem literal?_of_digit {c : Char} (h : isDigit c = true) (rest : List Char) :
    literal? (c :: rest) = none := by
  have hletters : literals.all (fun entry => entry.1.head?.any (fun d => !isDigit d)) = true := by
    decide
  rw [literal?, Option.map_eq_none_iff, List.find?_eq_none]
  intro entry hentry
  have hletter := List.all_eq_true.mp hletters entry hentry
  rcases entry with ⟨word, literal⟩
  cases word with
  | nil =>
      cases hletter
  | cons d word =>
      have hne : d ≠ c := by
        intro hsame
        simp [hsame, h] at hletter
      simp [hne]

theorem value_of_digit {c : Char} (h : isDigit c = true) (fuel depth : Nat) (rest : List Char) :
    value (fuel + 1) depth (c :: rest) = number (c :: rest) := by
  unfold value
  split
  case h_1 heq => cases heq
  case h_7 => rw [literal?_of_digit h]
  -- The other arms start with a quote or a bracket, which is no digit.
  all_goals
    rename_i heq
    cases heq
    cases h

theorem value_toDigits {n fuel depth : Nat} {rest : List Char}
    (hshort : (Nat.toDigits 10 n).length <= Text.maxDigits) (hrest : Ends rest) :
    value (fuel + 1) depth (Nat.toDigits 10 n ++ rest) = .ok (.int n, rest) := by
  rcases head_of_toDigits n rest with ⟨c, others, hhead, hdigit⟩
  have hnumber := number_toDigits hshort hrest
  rw [hhead] at hnumber ⊢
  rw [value_of_digit hdigit, hnumber]

/-!
# Lists
-/

/-- The digits of a number that is not too long to be read. -/
def SpellsNat (text : List Char) (n : Nat) : Prop :=
  text = Nat.toDigits 10 n ∧ text.length <= Text.maxDigits

theorem skip_blanks {before : List Char} (h : Blanks before) (rest : List Char) :
    skip (before ++ rest) = skip rest :=
  List.dropWhile_append_of_pos h

theorem skip_of_not_space {c : Char} (h : isSpace c = false) (rest : List Char) :
    skip (c :: rest) = c :: rest := by
  rw [skip, List.dropWhile_cons_of_neg]
  rw [h]
  exact Bool.false_ne_true

theorem not_space_of_digit {c : Char} (h : isDigit c = true) : isSpace c = false := by
  rw [Bool.eq_false_iff]
  intro hspace
  simp only [isSpace, Bool.or_eq_true, decide_eq_true_eq] at hspace
  rcases hspace with ((hc | hc) | hc) | hc <;> rw [hc] at h <;> cases h

/-- What follows an item: a comma or the closing bracket. -/
def Closes (rest : List Char) : Prop :=
  exists c more, rest = c :: more ∧ (c = ',' ∨ c = ']')

theorem Closes.skip_eq {rest : List Char} (h : Closes rest) : skip rest = rest := by
  rcases h with ⟨c, more, rfl, hc⟩
  rcases hc with hcomma | hbracket
  · rw [hcomma]
    exact skip_of_not_space rfl more
  · rw [hbracket]
    exact skip_of_not_space rfl more

theorem Closes.ends {after rest : List Char} (hafter : Blanks after) (h : Closes rest) :
    Ends (after ++ rest) := by
  rcases h with ⟨c, more, rfl, hc⟩
  intro d hd
  cases after with
  | nil =>
      cases hd
      rcases hc with hcomma | hbracket
      · exact Or.inl hcomma
      · exact Or.inr (Or.inl hbracket)
  | cons e after =>
      cases hd
      exact Or.inr (Or.inr (hafter _ List.mem_cons_self))

section Items

variable {before text after rest : List Char} {n fuel depth : Nat}

theorem skip_item (hbefore : Blanks before) (h : SpellsNat text n) (rest : List Char) :
    skip (before ++ text ++ rest) = text ++ rest := by
  rcases head_of_toDigits n rest with ⟨c, others, hhead, hdigit⟩
  rw [List.append_assoc, skip_blanks hbefore, h.1, hhead,
    skip_of_not_space (not_space_of_digit hdigit)]

theorem value_item (hbefore : Blanks before) (h : SpellsNat text n) (hafter : Blanks after)
    (hrest : Closes rest) :
    value (fuel + 1) depth (skip (before ++ text ++ after ++ rest)) =
      .ok (.int n, after ++ rest) := by
  rw [List.append_assoc, skip_item hbefore h]
  rcases h with ⟨rfl, hshort⟩
  exact value_toDigits hshort (hrest.ends hafter)

end Items

theorem skip_separated {text : List Char} {numbers : List Nat}
    (h : Separated SpellsNat text numbers) (rest : List Char) :
    exists c others, skip (text ++ rest) = c :: others ∧ isDigit c = true := by
  cases h with
  | last hbefore h hafter =>
      rw [List.append_assoc, skip_item hbefore h, h.1]
      exact head_of_toDigits _ _
  | cons hbefore h hafter hrest =>
      rw [List.append_assoc, List.append_assoc, skip_item hbefore h, h.1]
      exact head_of_toDigits _ _

theorem length_separated {α : Type} {spells : List Char -> α -> Prop} {text : List Char}
    {items : List α} (h : Separated spells text items) : items.length <= text.length + 1 := by
  induction h with
  | last hbefore h hafter =>
      exact Nat.le_add_left 1 _
  | cons hbefore h hafter hrest ih =>
      simp only [List.length_cons, List.length_append]
      omega

/-- The steps of an item are counted: one for the list, and one for the number. -/
theorem items_separated {text : List Char} {numbers : List Nat}
    (h : Separated SpellsNat text numbers) {fuel : Nat} (depth : Nat)
    (hfuel : numbers.length < fuel) (rest : List Char) :
    items fuel depth (skip (text ++ ']' :: rest)) =
      .ok (numbers.map (fun n : Nat => .int n), rest) := by
  induction h generalizing fuel with
  | last hbefore h hafter =>
      obtain ⟨fuel, rfl⟩ : exists more, fuel = more + 2 := ⟨fuel - 2, by simp at hfuel; omega⟩
      have hcloses : Closes (']' :: rest) := ⟨']', rest, rfl, Or.inr rfl⟩
      rw [items, value_item hbefore h hafter hcloses]
      dsimp only
      rw [skip_blanks hafter, hcloses.skip_eq]
      rfl
  | cons hbefore h hafter hrest ih =>
      rename_i before text after others n more
      obtain ⟨fuel, rfl⟩ : exists more, fuel = more + 2 := ⟨fuel - 2, by simp at hfuel; omega⟩
      have hcloses : Closes (',' :: (others ++ ']' :: rest)) := ⟨',', _, rfl, Or.inl rfl⟩
      rw [List.append_assoc, List.cons_append, items, value_item hbefore h hafter hcloses]
      dsimp only
      rw [skip_blanks hafter, hcloses.skip_eq]
      exact congrArg (Except.map _) (ih (by simpa using hfuel))

def ofNats (numbers : List Nat) : Json :=
  .array (numbers.map (fun n : Nat => .int n))

theorem value_separated {text : List Char} {numbers : List Nat}
    (h : Separated SpellsNat text numbers) {fuel : Nat} (depth : Nat)
    (hfuel : numbers.length < fuel) (rest : List Char) :
    value (fuel + 1) (depth + 1) ('[' :: (text ++ ']' :: rest)) = .ok (ofNats numbers, rest) := by
  rcases skip_separated h (']' :: rest) with ⟨c, others, hskip, hdigit⟩
  have hitems := items_separated h depth hfuel rest
  rw [value]
  split
  · rename_i heq
    rw [hskip] at heq
    rw [(List.cons.inj heq).1] at hdigit
    cases hdigit
  · rw [hitems]
    rfl

theorem read_separated {text : List Char} {numbers : List Nat}
    (h : Separated SpellsNat text numbers) :
    read (String.ofList ('[' :: text ++ [']'])) = .ok (ofNats numbers) := by
  have hfuel : numbers.length < 2 * ('[' :: text ++ [']']).length + 1 := by
    have hlength := length_separated h
    simp only [List.cons_append, List.length_cons, List.length_append]
    omega
  have hvalue := value_separated h 984 hfuel []
  have hskip : skip ('[' :: text ++ [']']) = '[' :: (text ++ [']']) :=
    skip_of_not_space rfl (text ++ [']'])
  unfold read
  rw [String.toList_ofList]
  dsimp only
  rw [hskip, show maxDepth = 984 + 1 from rfl, hvalue]
  rfl

/-!
# Written lists
-/

theorem spellsNat_writeItems (layout : Layout) (depth : Nat) {numbers : List Nat}
    (hshort : forall n, n ∈ numbers -> (Nat.toDigits 10 n).length <= Text.maxDigits) :
    List.Forall₂ SpellsNat
      ((writeItems layout depth (numbers.map (fun n : Nat => .int n))).map String.toList)
      numbers := by
  induction numbers with
  | nil =>
      exact .nil
  | cons n numbers ih =>
      rcases List.forall_mem_cons.mp hshort with ⟨hfirst, hothers⟩
      have hdigits : (toString (n : Int)).toList = Nat.toDigits 10 n := Nat.toList_repr
      exact .cons ⟨hdigits, hdigits ▸ hfirst⟩ (ih hothers)

/-- What is written for a list of numbers stands between brackets and is read as this list, in
either layout and at any depth. -/
theorem read_write_ofNats (layout : Layout) (depth : Nat) {numbers : List Nat}
    (hshort : forall n, n ∈ numbers -> (Nat.toDigits 10 n).length <= Text.maxDigits) :
    exists text, (write layout depth (ofNats numbers)).toList = '[' :: text ++ [']'] ∧
      read (String.ofList ('[' :: text ++ [']'])) = .ok (ofNats numbers) := by
  have hitems := spellsNat_writeItems layout (depth + 1) hshort
  rw [ofNats, write]
  rcases enclose_cases layout depth "[" "]" hitems with ⟨hnone, htext⟩ | ⟨text, htext, hspells⟩
  · refine ⟨[], htext, ?_⟩
    rw [hnone]
    rfl
  · exact ⟨text, htext, read_separated hspells⟩

end Json
end WalletVault
