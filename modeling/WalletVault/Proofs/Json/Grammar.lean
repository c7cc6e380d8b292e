import Mathlib.Data.List.Forall2
import Mathlib.Data.List.TakeWhile
import WalletVault.Json.Reader

/-!
# The grammar of JSON texts

A text spells a value. The grammar is the usual one as far as values without fractions go: blanks
stand around items and fields, and a string holds characters as such or their escapes. Whatever is
written spells the value that it was written for, in both layouts.
-/

namespace WalletVault
namespace Json

/-!
# Productions
-/

/-- Characters without a meaning between the words of a text. -/
def Blanks (text : List Char) : Prop :=
  forall c, c ∈ text -> isSpace c = true

/-- A character in a string, as such, as a short escape, or as the escape of its unit or of a pair
of units. -/
inductive SpellsChar : List Char -> Char -> Prop
  | plain {c : Char} (hvisible : 0x20 <= c.toNat) (hquote : c ≠ '"') (hescape : c ≠ '\\') :
      SpellsChar [c] c
  | short {letter c : Char} (h : escaped? letter = some c) : SpellsChar ['\\', letter] c
  | unit {a b c d : Char} {n : Nat} (hunit : unit? a b c d = some n) (hvalid : n.isValidChar) :
      SpellsChar ['\\', 'u', a, b, c, d] (Char.ofNat n)
  | pair {a b c d a' b' c' d' : Char} {high low : Nat} (hhigh : unit? a b c d = some high)
      (hlow : unit? a' b' c' d' = some low) (hisHigh : isHigh high = true)
      (hisLow : isLow low = true) :
      SpellsChar ['\\', 'u', a, b, c, d, '\\', 'u', a', b', c', d']
        (Char.ofNat (0x10000 + 0x400 * (high - 0xd800) + (low - 0xdc00)))

inductive SpellsString : List Char -> String -> Prop
  | mk {pieces : List (List Char)} {s : String} (h : List.Forall₂ SpellsChar pieces s.toList) :
      SpellsString ('"' :: pieces.flatten ++ ['"']) s

/-- An integer: digits without a zero in front, and a sign if it is negative. -/
inductive SpellsInt : List Char -> Int -> Prop
  | natural {digits : List Char} (h : integerPart? digits = some (digits, [])) :
      SpellsInt digits (Nat.ofDigitChars 10 digits 0)
  | negative {digits : List Char} (h : integerPart? digits = some (digits, [])) :
      SpellsInt ('-' :: digits) (-Nat.ofDigitChars 10 digits 0)

/-- One or more things with blanks around them and commas between them. -/
inductive Separated {α : Type} (spells : List Char -> α -> Prop) : List Char -> List α -> Prop
  | last {before text after : List Char} {a : α} (hbefore : Blanks before) (h : spells text a)
      (hafter : Blanks after) : Separated spells (before ++ text ++ after) [a]
  | cons {before text after rest : List Char} {a : α} {more : List α} (hbefore : Blanks before)
      (h : spells text a) (hafter : Blanks after) (hrest : Separated spells rest more) :
      Separated spells (before ++ text ++ after ++ ',' :: rest) (a :: more)

inductive Field (spells : List Char -> Json -> Prop) : List Char -> String × Json -> Prop
  | mk {name before after text : List Char} {s : String} {value : Json}
      (hname : SpellsString name s) (hbefore : Blanks before) (hafter : Blanks after)
      (h : spells text value) : Field spells (name ++ before ++ ':' :: after ++ text) (s, value)

inductive Spells : List Char -> Json -> Prop
  | null : Spells "null".toList .null
  | true : Spells "true".toList (.bool true)
  | false : Spells "false".toList (.bool false)
  | int {text : List Char} {n : Int} (h : SpellsInt text n) : Spells text (.int n)
  | text {text : List Char} {s : String} (h : SpellsString text s) : Spells text (.text s)
  | emptyArray {between : List Char} (h : Blanks between) :
      Spells ('[' :: between ++ [']']) (.array [])
  | array {text : List Char} {items : List Json} (h : Separated Spells text items) :
      Spells ('[' :: text ++ [']']) (.array items)
  | emptyObject {between : List Char} (h : Blanks between) :
      Spells ('\x7b' :: between ++ ['\x7d']) (.object [])
  | object {text : List Char} {fields : List (String × Json)}
      (h : Separated (Field Spells) text fields) :
      Spells ('\x7b' :: text ++ ['\x7d']) (.object fields)

theorem exists_toDigits_cons {n : Nat} (hpos : 0 < n) :
    exists c rest, Nat.toDigits 10 n = c :: rest ∧ c ≠ '0' := by
  induction n using Nat.strongRecOn with
  | ind n ih =>
      by_cases hsmall : n < 10
      · rw [Nat.toDigits_of_lt_base hsmall]
        refine ⟨n.digitChar, [], rfl, ?_⟩
        have hzero : forall m : Fin 10, m.val ≠ 0 -> m.val.digitChar ≠ '0' := by
          decide
        exact hzero ⟨n, hsmall⟩ (Nat.ne_of_gt hpos)
      · rcases ih (n / 10) (by omega) (by omega) with ⟨c, rest, hdigits, hc⟩
        rw [Nat.toDigits_of_base_le (by decide) (Nat.le_of_not_lt hsmall), hdigits]
        exact ⟨c, rest ++ [(n % 10).digitChar], rfl, hc⟩

theorem isDigit_of_mem_toDigits {n : Nat} {c : Char} (h : c ∈ Nat.toDigits 10 n) :
    isDigit c = true :=
  Nat.isDigit_of_mem_toDigits (by decide) (by decide) h

theorem integerPart?_cons {c : Char} (hc : c ≠ '0') (hdigit : isDigit c = true)
    (rest : List Char) :
    integerPart? (c :: rest) =
      some (c :: rest.takeWhile isDigit, rest.dropWhile isDigit) := by
  unfold integerPart?
  split
  · rename_i heq
    exact absurd (List.cons.inj heq).1 hc
  · rename_i heq
    cases heq
    rw [if_pos hdigit]
  · rename_i heq
    cases heq

theorem integerPart?_append (n : Nat) {rest : List Char} (htake : rest.takeWhile isDigit = [])
    (hdrop : rest.dropWhile isDigit = rest) :
    integerPart? (Nat.toDigits 10 n ++ rest) = some (Nat.toDigits 10 n, rest) := by
  rcases Nat.eq_zero_or_pos n with hzero | hpos
  · rw [hzero]
    rfl
  · rcases exists_toDigits_cons hpos with ⟨c, others, hdigits, hc⟩
    have hall : forall d, d ∈ c :: others -> isDigit d = true := by
      intro d hd
      rw [← hdigits] at hd
      exact isDigit_of_mem_toDigits hd
    rcases List.forall_mem_cons.mp hall with ⟨hfirst, hothers⟩
    rw [hdigits, List.cons_append, integerPart?_cons hc hfirst,
      List.takeWhile_append_of_pos hothers, htake, List.append_nil,
      List.dropWhile_append_of_pos hothers, hdrop]

theorem integerPart?_toDigits (n : Nat) :
    integerPart? (Nat.toDigits 10 n) = some (Nat.toDigits 10 n, []) := by
  have hpart := integerPart?_append n (rfl : [].takeWhile isDigit = []) rfl
  rwa [List.append_nil] at hpart

theorem spellsInt_toString (n : Int) : SpellsInt (toString n).toList n := by
  have hnat : forall m : Nat, SpellsInt (Nat.toDigits 10 m) m := by
    intro m
    have hspells := SpellsInt.natural (integerPart?_toDigits m)
    rwa [Nat.ofDigitChars_ten_toDigits] at hspells
  rw [Int.toString_eq_repr, Int.repr_eq_if]
  split
  · rename_i hnonneg
    have hspells := hnat n.toNat
    rwa [Int.toNat_of_nonneg hnonneg, ← Nat.toList_repr] at hspells
  · rename_i hneg
    have hspells := SpellsInt.negative (integerPart?_toDigits (-n).toNat)
    rw [Nat.ofDigitChars_ten_toDigits, Int.toNat_of_nonneg (by omega), Int.neg_neg,
      ← Nat.toList_repr] at hspells
    rwa [String.toList_append]

/-!
# Strings
-/

theorem hexDigits_succ {width : Nat} (hwidth : 1 <= width) (n : Nat) :
    Text.hexDigits (width + 1) n = Text.hexDigits width (n / 16) ++ [(n % 16).digitChar] := by
  unfold Text.hexDigits
  by_cases hsmall : n < 16
  · rw [Nat.toDigits_of_lt_base hsmall, Nat.div_eq_of_lt hsmall, Nat.mod_eq_of_lt hsmall]
    obtain ⟨more, rfl⟩ : exists more, width = more + 1 := ⟨width - 1, by omega⟩
    simp [List.replicate_succ']
  · rw [Nat.toDigits_of_base_le (by decide) (Nat.le_of_not_lt hsmall)]
    simp [Nat.add_sub_add_right]

theorem hexDigits_one {n : Nat} (h : n < 16) : Text.hexDigits 1 n = [n.digitChar] := by
  rw [Text.hexDigits, Nat.toDigits_of_lt_base h]
  rfl

theorem hexDigits_four {n : Nat} (h : n < 0x10000) :
    Text.hexDigits 4 n = [(n / 16 / 16 / 16).digitChar, (n / 16 / 16 % 16).digitChar,
      (n / 16 % 16).digitChar, (n % 16).digitChar] := by
  rw [hexDigits_succ (by decide), hexDigits_succ (by decide), hexDigits_succ (by decide),
    hexDigits_one (by omega)]
  rfl

theorem unit?_digitChar {a b c d : Nat} (ha : a < 16) (hb : b < 16) (hc : c < 16) (hd : d < 16) :
    unit? a.digitChar b.digitChar c.digitChar d.digitChar =
      some (4096 * a + 256 * b + 16 * c + d) := by
  have hdigit : forall m : Fin 16,
      (if 48 <= m.val.digitChar.toNat ∧ m.val.digitChar.toNat <= 57 then
        some (m.val.digitChar.toNat - 48)
      else if 97 <= m.val.digitChar.toNat ∧ m.val.digitChar.toNat <= 102 then
        some (m.val.digitChar.toNat - 87)
      else if 65 <= m.val.digitChar.toNat ∧ m.val.digitChar.toNat <= 70 then
        some (m.val.digitChar.toNat - 55)
      else none) = some m.val := by
    decide
  have hdigit' := fun m hm => hdigit ⟨m, hm⟩
  simp only at hdigit'
  simp only [unit?, hdigit' a ha, hdigit' b hb, hdigit' c hc, hdigit' d hd]
  rfl

theorem exists_escapeUnit {n : Nat} (h : n < 0x10000) :
    exists a b c d, escapeUnit n = ['\\', 'u', a, b, c, d] ∧ unit? a b c d = some n := by
  refine ⟨_, _, _, _, congrArg (fun digits => '\\' :: 'u' :: digits) (hexDigits_four h), ?_⟩
  rw [unit?_digitChar (by omega) (by omega) (by omega) (by omega), Option.some_inj]
  omega

theorem spellsChar_escapeChar (c : Char) : SpellsChar (escapeChar c) c := by
  have hofNat : forall n, c.toNat = n -> Char.ofNat n = c := by
    rintro n rfl
    exact Char.ofNat_toNat c
  have hvalid : c.toNat.isValidChar := c.valid
  unfold escapeChar
  dsimp only
  split
  · rename_i h
    rcases h with rfl | rfl
    · exact .short rfl
    · exact .short rfl
  split
  · rename_i h
    exact h ▸ .short rfl
  split
  · rename_i h
    exact h ▸ .short rfl
  split
  · rename_i h
    exact h ▸ .short rfl
  split
  · rename_i h
    rw [← hofNat _ h]
    exact .short rfl
  split
  · rename_i h
    rw [← hofNat _ h]
    exact .short rfl
  split
  · rename_i hplain _ _ _ _ _ h
    exact .plain h.1 (fun hc => hplain (Or.inl hc)) (fun hc => hplain (Or.inr hc))
  split
  · rename_i h
    rcases exists_escapeUnit h with ⟨x, y, z, w, htext, hunit⟩
    have hspells := SpellsChar.unit hunit hvalid
    rwa [hofNat _ rfl, ← htext] at hspells
  · rename_i h
    have hbound : c.toNat < 0x110000 := by
      rcases hvalid with hlow | hhigh
      · omega
      · exact hhigh.2
    rcases exists_escapeUnit (n := 0xd800 + (c.toNat - 0x10000) / 0x400) (by omega) with
      ⟨x, y, z, w, htext, hunit⟩
    rcases exists_escapeUnit (n := 0xdc00 + (c.toNat - 0x10000) % 0x400) (by omega) with
      ⟨x', y', z', w', htext', hunit'⟩
    have hspells := SpellsChar.pair hunit hunit' (by simp [isHigh]; omega) (by simp [isLow]; omega)
    have hchar : Char.ofNat (0x10000 + 0x400 * (0xd800 + (c.toNat - 0x10000) / 0x400 - 0xd800) +
        (0xdc00 + (c.toNat - 0x10000) % 0x400 - 0xdc00)) = c := hofNat _ (by omega)
    rw [hchar] at hspells
    rwa [htext, htext']

theorem spellsString_quote (s : String) : SpellsString (quote s).toList s := by
  have hpieces : List.Forall₂ SpellsChar (s.toList.map escapeChar) s.toList :=
    List.forall₂_map_left_iff.mpr (List.forall₂_same.mpr (fun c _ => spellsChar_escapeChar c))
  have hspells := SpellsString.mk hpieces
  rw [quote, String.toList_ofList, List.flatMap]
  exact hspells

/-!
# Strings spell one thing

A text that goes on behind the closing quote of a string spells no other string at its start.
-/

theorem SpellsChar.exists_head {text : List Char} {c : Char} (h : SpellsChar text c) :
    exists first rest, text = first :: rest ∧ first ≠ '"' := by
  cases h with
  | plain hvisible hquote hescape => exact ⟨c, [], rfl, hquote⟩
  | short h => exact ⟨_, _, rfl, by decide⟩
  | unit hunit hvalid => exact ⟨_, _, rfl, by decide⟩
  | pair hhigh hlow hisHigh hisLow => exact ⟨_, _, rfl, by decide⟩

theorem isHigh_iff {n : Nat} : isHigh n = true <-> 0xd800 <= n ∧ n < 0xdc00 := by
  simp [isHigh]

theorem escaped?_letter : escaped? 'u' = none := rfl

theorem SpellsChar.unique {text text' rest rest' : List Char} {c c' : Char}
    (h : SpellsChar text c) (h' : SpellsChar text' c') (hsame : text ++ rest = text' ++ rest') :
    c = c' ∧ rest = rest' := by
  -- The first character tells an escape from a plain character, the second one a short escape from
  -- a unit; the unit of a pair stands for no character alone.
  cases h <;> cases h' <;>
    simp only [List.cons_append, List.nil_append, List.cons.injEq] at hsame <;>
    grind [escaped?_letter, isHigh_iff]

theorem flatten_unique {pieces pieces' : List (List Char)} {chars chars' rest rest' : List Char}
    (h : List.Forall₂ SpellsChar pieces chars) (h' : List.Forall₂ SpellsChar pieces' chars')
    (hsame : pieces.flatten ++ '"' :: rest = pieces'.flatten ++ '"' :: rest') :
    chars = chars' ∧ rest = rest' := by
  induction h generalizing pieces' chars' with
  | nil =>
      cases h' with
      | nil =>
          exact ⟨rfl, (List.cons.inj hsame).2⟩
      | cons hpiece hmore =>
          rcases hpiece.exists_head with ⟨first, more, htext, hfirst⟩
          rw [htext] at hsame
          exact absurd (List.cons.inj hsame).1.symm hfirst
  | cons hpiece hmore ih =>
      cases h' with
      | nil =>
          rcases hpiece.exists_head with ⟨first, more, htext, hfirst⟩
          rw [htext] at hsame
          exact absurd (List.cons.inj hsame).1 hfirst
      | cons hpiece' hmore' =>
          rw [List.flatten_cons, List.flatten_cons, List.append_assoc, List.append_assoc] at hsame
          rcases hpiece.unique hpiece' hsame with ⟨hchar, hsame⟩
          rcases ih hmore' hsame with ⟨hchars, hrest⟩
          exact ⟨by rw [hchar, hchars], hrest⟩

theorem SpellsString.unique {text text' rest rest' : List Char} {s s' : String}
    (h : SpellsString text s) (h' : SpellsString text' s')
    (hsame : text ++ rest = text' ++ rest') : s = s' ∧ rest = rest' := by
  cases h with
  | mk h =>
      cases h' with
      | mk h' =>
          simp only [List.cons_append, List.append_assoc, List.nil_append, List.cons.injEq,
            true_and] at hsame
          rcases flatten_unique h h' hsame with ⟨hchars, hrest⟩
          exact ⟨String.toList_inj.mp hchars, hrest⟩

/-!
# Values
-/

/-- A value in which every number is an integer and no object has a name twice. -/
inductive Exact : Json -> Prop
  | null : Exact .null
  | bool (b : Bool) : Exact (.bool b)
  | int (n : Int) : Exact (.int n)
  | text (s : String) : Exact (.text s)
  | array {items : List Json} (h : forall item, item ∈ items -> Exact item) : Exact (.array items)
  | object {fields : List (String × Json)} (hnames : (fields.map Prod.fst).Nodup)
      (h : forall field, field ∈ fields -> Exact field.2) : Exact (.object fields)

@[simp] theorem exact_bool (b : Bool) : Exact (.bool b) := .bool b

@[simp] theorem exact_int (n : Int) : Exact (.int n) := .int n

@[simp] theorem exact_text (s : String) : Exact (.text s) := .text s

@[simp] theorem exact_array {items : List Json} :
    Exact (.array items) <-> forall item, item ∈ items -> Exact item :=
  ⟨fun h => (by cases h; assumption), .array⟩

@[simp] theorem exact_object {fields : List (String × Json)} :
    Exact (.object fields) <->
      (fields.map Prod.fst).Nodup ∧ forall field, field ∈ fields -> Exact field.2 :=
  ⟨fun h => (by cases h; exact ⟨‹_›, ‹_›⟩), fun h => .object h.1 h.2⟩

theorem blanks_nil : Blanks [] := by
  intro c hc
  cases hc

theorem blanks_singleton {c : Char} (h : isSpace c = true) : Blanks [c] := by
  intro other hother
  rwa [List.mem_singleton.mp hother]

theorem separated_intercalate {α : Type} {spells : List Char -> α -> Prop}
    {parts : List (List Char)} {items : List α} (h : List.Forall₂ spells parts items)
    (hsome : parts ≠ []) {first gap last : List Char} (hfirst : Blanks first) (hgap : Blanks gap)
    (hlast : Blanks last) :
    Separated spells (first ++ (',' :: gap).intercalate parts ++ last) items := by
  induction h generalizing first with
  | nil =>
      exact absurd rfl hsome
  | @cons part item parts items hpart hparts ih =>
      cases hparts with
      | nil =>
          rw [List.intercalate_singleton]
          exact .last hfirst hpart hlast
      | @cons next _ more _ hnext hmore =>
          have hrest := ih (List.cons_ne_nil next more) hgap
          have hspells := Separated.cons hfirst hpart blanks_nil hrest
          rw [List.intercalate_cons_cons]
          simpa using hspells

theorem blanks_margin (depth : Nat) :
    Blanks ("\n" ++ String.ofList (List.replicate (2 * depth) ' ')).toList := by
  intro c hc
  simp only [String.toList_append, String.toList_ofList, List.mem_append] at hc
  rcases hc with hline | hblank
  · rw [List.mem_singleton.mp hline]
    rfl
  · rw [List.eq_of_mem_replicate hblank]
    rfl

theorem enclose_cases {α : Type} {spells : List Char -> α -> Prop} (layout : Layout) (depth : Nat)
    (first last : String) {parts : List String} {items : List α}
    (h : List.Forall₂ spells (parts.map String.toList) items) :
    (items = [] ∧ (enclose layout depth first last parts).toList = first.toList ++ last.toList) ∨
      exists text, (enclose layout depth first last parts).toList =
        first.toList ++ text ++ last.toList ∧ Separated spells text items := by
  by_cases hsome : parts = []
  · rw [hsome] at h ⊢
    cases h
    exact Or.inl ⟨rfl, String.toList_append⟩
  have hparts : parts.map String.toList ≠ [] := by
    simpa using hsome
  have hempty : parts.isEmpty = false := by
    simpa using hsome
  right
  unfold enclose
  rw [hempty, if_neg Bool.false_ne_true]
  cases layout with
  | line =>
      have hspace : Blanks [' '] := blanks_singleton rfl
      refine ⟨_, ?_, separated_intercalate h hparts blanks_nil hspace blanks_nil⟩
      simp [String.toList_intercalate]
  | indented =>
      refine ⟨_, ?_, separated_intercalate h hparts (blanks_margin (depth + 1))
        (blanks_margin (depth + 1)) (blanks_margin depth)⟩
      simp [String.toList_intercalate]

mutual

theorem spells_write (layout : Layout) (depth : Nat) :
    (value : Json) -> Exact value -> Spells (write layout depth value).toList value
  | .null, _ => .null
  | .bool true, _ => .true
  | .bool false, _ => .false
  | .int n, _ => .int (spellsInt_toString n)
  | .float _, h => by cases h
  | .text s, _ => .text (spellsString_quote s)
  | .array items, h => by
      have hitems := exact_array.mp h
      rw [write]
      rcases enclose_cases layout depth "[" "]"
        (spells_writeItems layout (depth + 1) items hitems) with
        ⟨hnil, htext⟩ | ⟨text, htext, hspells⟩
      · rw [htext, hnil]
        exact .emptyArray blanks_nil
      · rw [htext]
        exact .array hspells
  | .object fields, h => by
      have hfields := (exact_object.mp h).2
      rw [write]
      rcases enclose_cases layout depth "\x7b" "\x7d"
        (spells_writeFields layout (depth + 1) fields hfields) with
        ⟨hnil, htext⟩ | ⟨text, htext, hspells⟩
      · rw [htext, hnil]
        exact .emptyObject blanks_nil
      · rw [htext]
        exact .object hspells

theorem spells_writeItems (layout : Layout) (depth : Nat) :
    (items : List Json) -> (forall item, item ∈ items -> Exact item) ->
      List.Forall₂ Spells ((writeItems layout depth items).map String.toList) items
  | [], _ => .nil
  | item :: rest, h =>
      .cons (spells_write layout depth item (h item List.mem_cons_self))
        (spells_writeItems layout depth rest
          (fun other hother => h other (List.mem_cons_of_mem item hother)))

theorem spells_writeFields (layout : Layout) (depth : Nat) :
    (fields : List (String × Json)) -> (forall field, field ∈ fields -> Exact field.2) ->
      List.Forall₂ (Field Spells) ((writeFields layout depth fields).map String.toList) fields
  | [], _ => .nil
  | (name, value) :: rest, h => by
      have hvalue := spells_write layout depth value (h (name, value) List.mem_cons_self)
      have hspace : Blanks [' '] := blanks_singleton rfl
      have hfield := Field.mk (spellsString_quote name) blanks_nil hspace hvalue
      rw [writeFields, List.map_cons]
      refine .cons ?_ (spells_writeFields layout depth rest
        (fun other hother => h other (List.mem_cons_of_mem (name, value) hother)))
      simpa using hfield

end

theorem infix_intercalate {gap part : List Char} {parts : List (List Char)}
    (h : part ∈ parts) : part <:+: gap.intercalate parts := by
  induction parts with
  | nil =>
      cases h
  | cons first rest ih =>
      cases rest with
      | nil =>
          refine ⟨[], [], ?_⟩
          simp [List.mem_singleton.mp h]
      | cons next rest =>
          rw [List.intercalate_cons_cons]
          rcases List.mem_cons.mp h with rfl | hrest
          · rw [List.append_assoc]
            exact (List.prefix_append _ _).isInfix
          · exact (ih hrest).trans (List.suffix_append _ _).isInfix

theorem infix_enclose (layout : Layout) (depth : Nat) (first last : String) {part : String}
    {parts : List String} (h : part ∈ parts) :
    part.toList <:+: (enclose layout depth first last parts).toList := by
  have hparts : forall gap : List Char,
      part.toList <:+: gap.intercalate (parts.map String.toList) :=
    fun gap => infix_intercalate (List.mem_map_of_mem h)
  have hsome : ¬ parts.isEmpty = true := by
    intro hnone
    rw [List.isEmpty_iff.mp hnone] at h
    cases h
  unfold enclose
  rw [if_neg hsome]
  cases layout with
  | line =>
      refine (hparts ", ".toList).trans ⟨first.toList, last.toList, ?_⟩
      simp [String.toList_intercalate]
  | indented =>
      let margin (d : Nat) := "\n" ++ String.ofList (List.replicate (2 * d) ' ')
      refine (hparts ("," ++ margin (depth + 1)).toList).trans
        ⟨(first ++ margin (depth + 1)).toList, (margin depth ++ last).toList, ?_⟩
      simp [margin, String.toList_intercalate]

theorem mem_writeFields (layout : Layout) (depth : Nat) {name : String} {value : Json}
    {fields : List (String × Json)} (h : (name, value) ∈ fields) :
    quote name ++ ": " ++ write layout depth value ∈ writeFields layout depth fields := by
  induction fields with
  | nil =>
      cases h
  | cons field rest ih =>
      rcases field with ⟨other, item⟩
      rw [writeFields]
      rcases List.mem_cons.mp h with hfirst | hrest
      · cases hfirst
        exact List.mem_cons_self
      · exact List.mem_cons_of_mem _ (ih hrest)

theorem infix_write (layout : Layout) (depth : Nat) {name : String} {value : Json}
    {fields : List (String × Json)} (h : (name, value) ∈ fields) :
    (quote name ++ ": " ++ write layout (depth + 1) value).toList <:+:
      (write layout depth (.object fields)).toList := by
  rw [write]
  exact infix_enclose layout depth _ _ (mem_writeFields layout (depth + 1) h)

end Json
end WalletVault
