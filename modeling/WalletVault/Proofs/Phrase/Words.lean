import Mathlib.Data.Char
import Mathlib.Data.List.Chain
import Mathlib.Data.List.Forall2
import Mathlib.Data.List.Nodup
import Mathlib.Data.List.TakeWhile
import WalletVault.Password
import WalletVault.Phrase.Codec
import WalletVault.Proofs.Computation

/-!
# Words and their indices

The words of the list have small letters only and differ in their first four,
so each is found under its own index, and whatever is found has an index of the
list. Words that are joined by blanks are the words of the joined text.
-/

namespace WalletVault

/-!
# Words of a text
-/

namespace Text

def Blank (text : List Char) : Prop :=
  forall c, c ∈ text -> isBlank c = true

instance (text : List Char) : Decidable (Blank text) :=
  decidable_of_iff (text.all isBlank = true) List.all_eq_true

theorem dropWhile_eq_of_head {text : List Char}
    (h : forall c, text.head? = some c -> isBlank c = false) : text.dropWhile isBlank = text := by
  cases text with
  | nil =>
      rfl
  | cons c rest =>
      have hc : ¬ isBlank c = true := by
        rw [h c rfl]
        exact Bool.false_ne_true
      exact List.dropWhile_cons_of_neg hc

theorem trim_of_ends {left core right : List Char} (hleft : Blank left) (hright : Blank right)
    (hfirst : forall c, core.head? = some c -> isBlank c = false)
    (hlast : forall c, core.getLast? = some c -> isBlank c = false) :
    trim (left ++ core ++ right) = core := by
  rw [trim, strip, List.append_assoc, List.dropWhile_append_of_pos hleft]
  cases core with
  | nil =>
      rw [List.nil_append, List.dropWhile_eq_nil_iff.mpr hright]
      rfl
  | cons c rest =>
      have hback : Blank right.reverse := fun d hd => hright d (List.mem_reverse.mp hd)
      have hfront : (c :: rest ++ right).dropWhile isBlank = c :: rest ++ right :=
        dropWhile_eq_of_head hfirst
      rw [← List.head?_reverse] at hlast
      rw [hfront, List.reverse_append, List.dropWhile_append_of_pos hback,
        dropWhile_eq_of_head hlast, List.reverse_reverse]

theorem trim_padded {left core right : List Char} (hleft : Blank left) (hright : Blank right)
    (hcore : forall c, c ∈ core -> isBlank c = false) : trim (left ++ core ++ right) = core :=
  trim_of_ends hleft hright (fun c hc => hcore c (List.mem_of_head? hc))
    (fun c hc => hcore c (List.mem_of_getLast? hc))

/-- A text shows words if blanks separate them. More blanks may stand between them and around
them. -/
inductive Shows : List String -> List Char -> Prop where
  | done : Shows [] []
  | blank {c : Char} {words : List String} {rest : List Char} (hblank : isBlank c = true)
      (h : Shows words rest) : Shows words (c :: rest)
  | word {word : String} {words : List String} {rest : List Char}
      (hend : forall c, rest.head? = some c -> isBlank c = true) (h : Shows words rest) :
      Shows (word :: words) (word.toList ++ rest)

/-- The runs of characters between the blanks of a text. -/
def runs (text : List Char) : List (List Char) :=
  (text.splitOnP isBlank).filter (fun run => !run.isEmpty)

theorem runs_cons_of_blank {c : Char} (h : isBlank c = true) (rest : List Char) :
    runs (c :: rest) = runs rest := by
  rw [runs, List.splitOnP_cons_eq_if_modifyHead, if_pos h]
  exact List.filter_cons_of_neg Bool.false_ne_true

theorem runs_append {run rest : List Char} (hsome : run ≠ [])
    (hletters : forall c, c ∈ run -> isBlank c = false)
    (hend : forall c, rest.head? = some c -> isBlank c = true) :
    runs (run ++ rest) = run :: runs rest := by
  have hkeep : forall others : List (List Char),
      (run :: others).filter (fun run => !run.isEmpty) =
        run :: others.filter (fun run => !run.isEmpty) := by
    intro others
    exact List.filter_cons_of_pos (by simpa using hsome)
  cases rest with
  | nil =>
      rw [List.append_nil, runs, List.splitOnP_eq_singleton hletters, hkeep]
      rfl
  | cons c rest =>
      have hblank := hend c rfl
      rw [runs_cons_of_blank hblank, runs,
        List.splitOnP_append_cons_of_forall_mem hletters c hblank, hkeep]
      rfl

theorem runs_of_shows {words : List String} {text : List Char} (hshows : Shows words text)
    (h : forall word, word ∈ words ->
      word.toList ≠ [] ∧ forall c, c ∈ word.toList -> isBlank c = false) :
    runs text = words.map String.toList := by
  induction hshows with
  | done =>
      rfl
  | blank hblank _ ih =>
      rw [runs_cons_of_blank hblank]
      exact ih h
  | word hend _ ih =>
      rename_i word words rest _
      rcases h word List.mem_cons_self with ⟨hsome, hletters⟩
      have hrest := ih (fun other hother => h other (List.mem_cons_of_mem word hother))
      rw [runs_append hsome hletters hend, hrest, List.map_cons]

theorem words_of_shows {words : List String} {text : String} (hshows : Shows words text.toList)
    (h : forall word, word ∈ words ->
      word.toList ≠ [] ∧ forall c, c ∈ word.toList -> isBlank c = false) :
    Text.words text = words := by
  have hback : String.ofList ∘ String.toList = id := funext (fun _ => String.ofList_toList)
  change (runs text.toList).map String.ofList = words
  rw [runs_of_shows hshows h, List.map_map, hback, List.map_id]

theorem shows_intercalate (words : List String) :
    Shows words (String.intercalate " " words).toList := by
  rw [String.toList_intercalate]
  induction words with
  | nil =>
      exact Shows.done
  | cons word rest ih =>
      cases rest with
      | nil =>
          rw [List.map_singleton, List.intercalate_singleton, ← List.append_nil word.toList]
          apply Shows.word
          · intro c hc
            cases hc
          · exact Shows.done
      | cons next rest =>
          have hblank : isBlank ' ' = true := rfl
          rw [List.map_cons, List.map_cons, List.intercalate_cons_cons, List.append_assoc]
          apply Shows.word
          · intro c hc
            cases hc
            exact hblank
          · exact Shows.blank hblank ih

end Text

/-!
# Letters as bytes
-/

theorem utf8_eq_flatMap (text : String) :
    utf8 text = text.toList.flatMap String.utf8EncodeChar := by
  have hbytes : text.toUTF8 = text.toList.utf8Encode := by
    conv => lhs; rw [← String.ofList_toList (s := text)]
    exact String.toByteArray_ofList
  rw [utf8, hbytes, List.utf8Encode, List.data_toByteArray]

theorem utf8EncodeChar_of_lt {c : Char}
    (h : forall b, b ∈ String.utf8EncodeChar c -> b.toNat < 128) :
    c.toNat < 128 ∧ String.utf8EncodeChar c = [UInt8.ofNat c.toNat] := by
  have hcode : c.val.toNat = c.toNat := rfl
  unfold String.utf8EncodeChar at h ⊢
  dsimp only at h ⊢
  rw [hcode] at h ⊢
  by_cases hone : c.toNat <= 127
  · rw [if_pos hone]
    exact ⟨Nat.lt_succ_of_le hone, rfl⟩
  · -- The first of several bytes is at least 192.
    rw [if_neg hone] at h
    exfalso
    split at h
    · have hfirst := h _ List.mem_cons_self
      rw [UInt8.toNat_ofNat'] at hfirst
      omega
    · split at h
      · have hfirst := h _ List.mem_cons_self
        rw [UInt8.toNat_ofNat'] at hfirst
        omega
      · have hfirst := h _ List.mem_cons_self
        rw [UInt8.toNat_ofNat'] at hfirst
        omega

theorem map_toNat_toList {text : String} (h : forall b, b ∈ utf8 text -> b.toNat < 128) :
    text.toList.map Char.toNat = (utf8 text).map UInt8.toNat := by
  rw [utf8_eq_flatMap] at h ⊢
  generalize text.toList = letters at h ⊢
  induction letters with
  | nil =>
      rfl
  | cons c rest ih =>
      rw [List.flatMap_cons] at h ⊢
      rcases utf8EncodeChar_of_lt (fun b hb => h b (List.mem_append_left _ hb)) with ⟨hc, hcode⟩
      have hrest := ih (fun b hb => h b (List.mem_append_right _ hb))
      have hbyte : (UInt8.ofNat c.toNat).toNat = c.toNat := by
        rw [UInt8.toNat_ofNat']
        exact Nat.mod_eq_of_lt (by omega)
      rw [List.map_append, ← hrest, hcode, List.map_cons, List.map_cons, hbyte]
      rfl

namespace Phrase

/-!
# The word list
-/

def codes (word : String) : List Nat :=
  (utf8 word).map UInt8.toNat

set_option maxRecDepth 20000 in
theorem length_wordList : wordList.length = 2048 := by
  decide +kernel

set_option maxRecDepth 20000 in
/-- The words are sorted by their first four letters, and each has at least three letters, all of
them small. -/
theorem wordList_sorted :
    (wordList.map (fun word => (codes word).take 4)).IsChain (· < ·) ∧
      forall word, word ∈ wordList ->
        3 <= (codes word).length ∧ forall code, code ∈ codes word -> 97 <= code ∧ code <= 122 := by
  decide +kernel

theorem isLower_iff {c : Char} : c.isLower = true <-> 97 <= c.toNat ∧ c.toNat <= 122 := by
  have hcodes : c.isLower = (decide (97 <= c.toNat) && decide (c.toNat <= 122)) := rfl
  rw [hcodes, Bool.and_eq_true, decide_eq_true_eq, decide_eq_true_eq]

theorem map_toNat_of_mem {word : String} (h : word ∈ wordList) :
    word.toList.map Char.toNat = codes word := by
  apply map_toNat_toList
  intro b hb
  have hcode := (wordList_sorted.2 word h).2 b.toNat (List.mem_map_of_mem hb)
  omega

theorem letters_of_mem {word : String} (h : word ∈ wordList) :
    word.toList ≠ [] ∧ forall c, c ∈ word.toList -> c.isLower = true := by
  rcases wordList_sorted.2 word h with ⟨hlength, hcodes⟩
  rw [← map_toNat_of_mem h] at hlength hcodes
  constructor
  · intro hnone
    rw [hnone] at hlength
    exact absurd hlength (by decide)
  · intro c hc
    exact isLower_iff.mpr (hcodes c.toNat (List.mem_map_of_mem hc))

theorem nodup_openings : (wordList.map (fun word => (codes word).take 4)).Nodup :=
  wordList_sorted.1.pairwise.imp (fun hlt => ne_of_lt hlt)

/-- Words that agree in their first four letters stand in one place of the list. -/
theorem index_eq_of_take {index other : Nat} (hindex : index < wordList.length)
    (hother : other < wordList.length)
    (h : wordList[index].toList.take 4 = wordList[other].toList.take 4) : index = other := by
  have hmem := List.getElem_mem hindex
  have hmem' := List.getElem_mem hother
  have hcodes : (codes wordList[index]).take 4 = (codes wordList[other]).take 4 := by
    rw [← map_toNat_of_mem hmem, ← map_toNat_of_mem hmem', ← List.map_take, ← List.map_take, h]
  have hspelling := List.inj_on_of_nodup_map nodup_openings hmem hmem' hcodes
  exact nodup_openings.of_map.getElem_inj_iff.mp hspelling

/-!
# Letters as they are typed
-/

theorem toLower_cases (c : Char) :
    c.toLower = c ∨ 65 <= c.toNat ∧ c.toNat <= 90 := by
  by_cases hcapital : c.val >= 'A'.val ∧ c.val <= 'Z'.val
  · exact Or.inr hcapital
  · exact Or.inl (dif_neg hcapital)

theorem toLower_of_isLower {c : Char} (h : c.isLower = true) : c.toLower = c := by
  rcases toLower_cases c with hsame | hcapital
  · exact hsame
  · have hlow := (isLower_iff.mp h).1
    omega

theorem isBlank_of_isLower_toLower {c : Char} (h : c.toLower.isLower = true) :
    Text.isBlank c = false := by
  have hletter : 97 <= c.toNat ∧ c.toNat <= 122 ∨ 65 <= c.toNat ∧ c.toNat <= 90 := by
    rcases toLower_cases c with hsame | hcapital
    · rw [hsame] at h
      exact Or.inl (isLower_iff.mp h)
    · exact Or.inr hcapital
  simp only [Text.isBlank, Bool.or_eq_false_iff, Bool.and_eq_false_iff, decide_eq_false_iff_not,
    beq_eq_false_iff_ne]
  omega

theorem lowerLetter_of_isLower_toLower {c : Char} (h : c.toLower.isLower = true) :
    Text.lowerLetter c = c.toLower := by
  apply if_neg
  intro hkelvin
  rw [hkelvin] at h
  cases h

/-- Letters that are typed for a word: all of it or its first four at least, each of them small or
capital. -/
def Abbreviates (typed : List Char) (word : String) : Prop :=
  typed.map Char.toLower <+: word.toList ∧
    (typed.length = word.toList.length ∨ 4 <= typed.length)

instance (typed : List Char) (word : String) : Decidable (Abbreviates typed word) :=
  inferInstanceAs (Decidable (_ ∧ _))

section Abbreviated

variable {typed : List Char} {word : String}

theorem Abbreviates.isLower (h : Abbreviates typed word) (hword : word ∈ wordList) :
    forall c, c ∈ typed -> c.toLower.isLower = true := by
  intro c hc
  exact (letters_of_mem hword).2 _ (h.1.subset (List.mem_map_of_mem hc))

theorem Abbreviates.ne_nil (h : Abbreviates typed word) (hword : word ∈ wordList) :
    typed ≠ [] := by
  apply List.ne_nil_of_length_pos
  have hlength := List.length_pos_of_ne_nil (letters_of_mem hword).1
  rcases h.2 with hwhole | hlong
  · omega
  · omega

theorem Abbreviates.isBlank (h : Abbreviates typed word) (hword : word ∈ wordList) :
    forall c, c ∈ typed -> Text.isBlank c = false := by
  intro c hc
  exact isBlank_of_isLower_toLower (h.isLower hword c hc)

theorem Abbreviates.map_lowerLetter (h : Abbreviates typed word) (hword : word ∈ wordList) :
    typed.map Text.lowerLetter = typed.map Char.toLower :=
  List.map_congr_left (fun c hc => lowerLetter_of_isLower_toLower (h.isLower hword c hc))

theorem abbreviates_self (h : word ∈ wordList) : Abbreviates word.toList word := by
  have hsame : word.toList.map Char.toLower = word.toList :=
    (List.map_congr_left (fun c hc => toLower_of_isLower ((letters_of_mem h).2 c hc))).trans
      (List.map_id word.toList)
  rw [Abbreviates, hsame]
  exact ⟨List.prefix_rfl, Or.inl rfl⟩

end Abbreviated

/-!
# Finding words
-/

theorem lt_of_find? {typed : String} {index : Nat} (h : find? typed = some index) :
    index < 2048 := by
  have hlt : forall {p : String -> Bool}, wordList.findIdx? p = some index -> index < 2048 := by
    intro p hfound
    rcases List.findIdx?_eq_some_iff_getElem.mp hfound with ⟨hindex, _, _⟩
    rwa [length_wordList] at hindex
  unfold find? at h
  dsimp only at h
  split at h
  · rename_i hfound
    cases h
    exact hlt hfound
  · split at h
    · cases h
    · exact hlt h

theorem take_of_prefix {front letters : List Char} (h : front <+: letters)
    (hlong : 4 <= front.length) : letters.take 4 = front.take 4 := by
  rcases h with ⟨rest, hletters⟩
  rw [← hletters, List.take_append_of_le_length hlong]

theorem find?_of_abbreviates {typed word : String} {index : Nat}
    (hword : wordList[index]? = some word) (h : Abbreviates (Text.trim typed.toList) word) :
    find? typed = some index := by
  rcases List.getElem?_eq_some_iff.mp hword with ⟨hindex, hentry⟩
  have hlower := h.map_lowerLetter (List.mem_of_getElem? hword)
  rcases h with ⟨hfront, hlength⟩
  rw [← List.length_map Char.toLower] at hlength
  unfold find?
  rw [hlower]
  dsimp only
  generalize (Text.trim typed.toList).map Char.toLower = front at hfront hlength
  have hcut : forall other (hother : other < wordList.length), 4 <= front.length ->
      front <+: wordList[other].toList -> other = index := by
    intro other hother hlong hbegins
    apply index_eq_of_take hother hindex
    rw [hentry, take_of_prefix hbegins hlong, take_of_prefix hfront hlong]
  have hwhole : front.length = word.toList.length -> front = word.toList :=
    hfront.eq_of_length
  split
  · rename_i found hfound
    rcases List.findIdx?_eq_some_iff_getElem.mp hfound with ⟨hplace, hsame, _⟩
    have hspelling : wordList[found].toList = front := eq_of_beq hsame
    rcases hlength with hall | hlong
    · have hletters : wordList[found].toList.take 4 = wordList[index].toList.take 4 := by
        rw [hspelling, hwhole hall, hentry]
      rw [index_eq_of_take hplace hindex hletters]
    · rw [hcut found hplace hlong (hspelling ▸ List.prefix_rfl)]
  · rename_i hnone
    rcases hlength with hall | hlong
    · -- All of the word was typed, so it is found as it is spelled.
      have hmissed := List.findIdx?_eq_none_iff.mp hnone word (List.mem_of_getElem? hword)
      rw [hwhole hall, beq_self_eq_true] at hmissed
      cases hmissed
    · rw [if_neg (Nat.not_lt.mpr hlong)]
      apply List.findIdx?_eq_some_iff_getElem.mpr
      refine ⟨hindex, ?_, ?_⟩
      · rw [hentry]
        exact List.isPrefixOf_iff_prefix.mpr hfront
      · intro other hearlier hbegins
        have hother : other < wordList.length := Nat.lt_trans hearlier hindex
        have hsame := hcut other hother hlong (List.isPrefixOf_iff_prefix.mp hbegins)
        omega

theorem find?_of_getElem? {index : Nat} {word : String} (h : wordList[index]? = some word) :
    find? word = some index := by
  have hself := abbreviates_self (List.mem_of_getElem? h)
  have htrim : Text.trim word.toList = word.toList := by
    have hpadded : Text.trim ([] ++ word.toList ++ []) = word.toList :=
      Text.trim_padded (List.forall_mem_nil _) (List.forall_mem_nil _)
        (hself.isBlank (List.mem_of_getElem? h))
    rwa [List.nil_append, List.append_nil] at hpadded
  apply find?_of_abbreviates h
  rwa [htrim]

/-!
# Words and indices
-/

theorem indices_eq_ok {words : List String} {found : List Nat} :
    indices words = .ok found <->
      List.Forall₂ (fun word index => find? word = some index) words found := by
  induction words generalizing found with
  | nil =>
      rw [List.forall₂_nil_left_iff, indices]
      exact ⟨fun h => (Except.ok.inj h).symm, fun h => by rw [h]⟩
  | cons word rest ih =>
      rw [List.forall₂_cons_left_iff, indices]
      constructor
      · intro h
        split at h
        · cases h
        · rename_i index hindex
          rcases Computation.except_map_eq_ok.mp h with ⟨others, hothers, hfound⟩
          exact ⟨index, others, hindex, ih.mp hothers, hfound.symm⟩
      · intro h
        rcases h with ⟨index, others, hindex, hothers, hfound⟩
        rw [hindex, hfound]
        exact Computation.except_map_eq_ok.mpr ⟨others, ih.mpr hothers, rfl⟩

theorem length_of_indices {words : List String} {found : List Nat}
    (h : indices words = .ok found) : found.length = words.length :=
  (indices_eq_ok.mp h).length_eq.symm

theorem lt_of_indices {words : List String} {found : List Nat} (h : indices words = .ok found) :
    forall index, index ∈ found -> index < 2048 := by
  have hfound := indices_eq_ok.mp h
  clear h
  induction hfound with
  | nil =>
      intro index hindex
      cases hindex
  | cons hword _ ih =>
      intro index hindex
      rcases List.mem_cons.mp hindex with hsame | hrest
      · rw [hsame]
        exact lt_of_find? hword
      · exact ih index hrest

def spelled (indices : List Nat) : List String :=
  indices.map (fun index => wordList.getD index "")

theorem getElem?_wordList {index : Nat} (h : index < 2048) :
    wordList[index]? = some (wordList.getD index "") := by
  rw [← length_wordList] at h
  rw [List.getD_eq_getElem?_getD, List.getElem?_eq_getElem h, Option.getD_some]

theorem indices_spelled {found : List Nat} (h : forall index, index ∈ found -> index < 2048) :
    indices (spelled found) = .ok found := by
  apply indices_eq_ok.mpr
  apply List.forall₂_map_left_iff.mpr
  apply List.forall₂_same.mpr
  intro index hindex
  exact find?_of_getElem? (getElem?_wordList (h index hindex))

theorem mem_wordList_of_mem_spelled {found : List Nat}
    (h : forall index, index ∈ found -> index < 2048) :
    forall word, word ∈ spelled found -> word ∈ wordList := by
  intro word hword
  rcases List.mem_map.mp hword with ⟨index, hindex, hsame⟩
  rw [← hsame]
  exact List.mem_of_getElem? (getElem?_wordList (h index hindex))

theorem words_intercalate_of_mem {words : List String}
    (h : forall word, word ∈ words -> word ∈ wordList) :
    Text.words (String.intercalate " " words) = words := by
  apply Text.words_of_shows (Text.shows_intercalate words)
  intro word hword
  have hself := abbreviates_self (h word hword)
  exact ⟨hself.ne_nil (h word hword), hself.isBlank (h word hword)⟩

end Phrase
end WalletVault
