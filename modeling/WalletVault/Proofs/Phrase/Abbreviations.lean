import WalletVault.Proofs.Phrase.Acceptance

/-!
# Abbreviated phrases

A phrase of list words may be given in many ways: each word whole or cut to its
first letters, in small letters or capitals, with blanks wherever they do not
divide a word. All of them have the indices of the full words, so there is one
outcome for all of them.
-/

namespace WalletVault
namespace Phrase

/-!
# Ways to give a phrase
-/

/-- An entry stands for a word if it abbreviates the word, apart from blanks around it. -/
def StandsFor (word entry : String) : Prop :=
  exists left core right, entry.toList = left ++ core ++ right ∧ Text.Blank left ∧
    Text.Blank right ∧ Abbreviates core word

/-- The ways to give a phrase: a list of entries that stand for its words, or a text that shows
abbreviations of its words. -/
inductive Conveys (words : List String) : Given -> Prop where
  | list {entries : List String} (h : List.Forall₂ StandsFor words entries) :
      Conveys words (.list entries)
  | text {shown : List String} {phrase : String}
      (h : List.Forall₂ (fun word core => Abbreviates core.toList word) words shown)
      (hshows : Text.Shows shown phrase.toList) : Conveys words (.text phrase)

theorem standsFor_of_abbreviates {word entry : String} (h : Abbreviates entry.toList word) :
    StandsFor word entry := by
  refine ⟨[], entry.toList, [], ?_, List.forall_mem_nil _, List.forall_mem_nil _, h⟩
  rw [List.nil_append, List.append_nil]

theorem find?_of_standsFor {word entry : String} {index : Nat}
    (hword : wordList[index]? = some word) (h : StandsFor word entry) :
    find? entry = some index := by
  rcases h with ⟨left, core, right, hentry, hleft, hright, hcore⟩
  apply find?_of_abbreviates hword
  rw [hentry, Text.trim_padded hleft hright (hcore.isBlank (List.mem_of_getElem? hword))]
  exact hcore

theorem resolves_of_standsFor {words entries : List String}
    (hlist : forall word, word ∈ words -> word ∈ wordList)
    (h : List.Forall₂ StandsFor words entries) :
    exists found, Resolves words found ∧ Resolves entries found := by
  induction h with
  | nil =>
      exact ⟨[], List.Forall₂.nil, List.Forall₂.nil⟩
  | cons hentry _ ih =>
      rcases List.forall_mem_cons.mp hlist with ⟨hword, hrest⟩
      rcases ih hrest with ⟨found, hwords, hentries⟩
      rcases List.getElem?_of_mem hword with ⟨index, hindex⟩
      exact ⟨index :: found, List.Forall₂.cons (find?_of_getElem? hindex) hwords,
        List.Forall₂.cons (find?_of_standsFor hindex hentry) hentries⟩

theorem unbroken_of_abbreviates {words shown : List String}
    (hlist : forall word, word ∈ words -> word ∈ wordList)
    (h : List.Forall₂ (fun word core => Abbreviates core.toList word) words shown) :
    forall core, core ∈ shown ->
      core.toList ≠ [] ∧ forall c, c ∈ core.toList -> Text.isBlank c = false := by
  induction h with
  | nil =>
      exact List.forall_mem_nil _
  | cons hcore _ ih =>
      rcases List.forall_mem_cons.mp hlist with ⟨hword, hrest⟩
      exact List.forall_mem_cons.mpr ⟨⟨hcore.ne_nil hword, hcore.isBlank hword⟩, ih hrest⟩

theorem standsFor_of_conveys {words : List String} {given : Given}
    (hlist : forall word, word ∈ words -> word ∈ wordList) (h : Conveys words given) :
    List.Forall₂ StandsFor words given.words := by
  cases h with
  | list h =>
      exact h
  | text h hshows =>
      rename_i shown phrase
      change List.Forall₂ StandsFor words (Text.words phrase)
      rw [Text.words_of_shows hshows (unbroken_of_abbreviates hlist h)]
      exact h.imp (fun _ _ => standsFor_of_abbreviates)

theorem conveys_list {words : List String} (hlist : forall word, word ∈ words -> word ∈ wordList) :
    Conveys words (.list words) :=
  Conveys.list (List.forall₂_same.mpr
    (fun word hword => standsFor_of_abbreviates (abbreviates_self (hlist word hword))))

theorem conveys_text {words : List String} (hlist : forall word, word ∈ words -> word ∈ wordList) :
    Conveys words (.text (String.intercalate " " words)) :=
  Conveys.text (List.forall₂_same.mpr (fun word hword => abbreviates_self (hlist word hword)))
    (Text.shows_intercalate words)

/-!
# One outcome
-/

theorem toEntropy_of_conveys [Suite] {words : List String} {found : List Nat} {given : Given}
    (hcount : words.length = 12 ∨ words.length = 24)
    (hlist : forall word, word ∈ words -> word ∈ wordList) (hfound : Resolves words found)
    (h : Conveys words given) : toEntropy given.words = entropyOf found := by
  rcases resolves_of_standsFor hlist (standsFor_of_conveys hlist h) with ⟨found', hwords, hgiven⟩
  rw [← hfound.unique hwords] at hgiven
  rw [hfound.length_eq] at hcount
  exact toEntropy_of_resolves hcount hgiven

/-- A phrase of 12 or 24 list words has one outcome however it is given: with whole or cut words, in
small or capital letters and with any blanks around them. The outcome is the same entropy for all
ways to give it, or it is refused for its check bits in all of them. The full words as a list, and
joined to a text, are two of these ways. -/
theorem abbreviations_keep_meaning [Suite] {words : List String}
    (hcount : words.length = 12 ∨ words.length = 24)
    (hlist : forall word, word ∈ words -> word ∈ wordList) :
    Conveys words (.list words) ∧ Conveys words (.text (String.intercalate " " words)) ∧
      ((exists entropy, forall given, Conveys words given ->
          toEntropy given.words = .ok entropy) ∨
        forall given, Conveys words given -> toEntropy given.words = .error .phraseChecksum) := by
  refine ⟨conveys_list hlist, conveys_text hlist, ?_⟩
  rcases resolves_of_standsFor hlist (standsFor_of_conveys hlist (conveys_list hlist)) with
    ⟨found, hfound, _⟩
  have hlength := hcount
  rw [hfound.length_eq] at hlength
  rcases exists_carries (lt_of_indices (indices_eq_ok.mpr hfound)) hlength with
    ⟨bits, entropy, check, h⟩
  have hentropy := h.entropyOf_eq
  split at hentropy
  · refine Or.inl ⟨lengthen entropy, ?_⟩
    intro given hgiven
    rw [toEntropy_of_conveys hcount hlist hfound hgiven, hentropy]
  · refine Or.inr ?_
    intro given hgiven
    rw [toEntropy_of_conveys hcount hlist hfound hgiven, hentropy]

set_option maxRecDepth 20000 in
/-- The first word twelve times is the phrase of zeros, also cut to four letters between blanks, and
cut to five in a text that begins with a blank. -/
theorem abbreviations_keep_meaning_of_zeros :
    letI : Suite := Suite.standard
    let cut := List.replicate 12 "\tABAn "
    let shown := List.replicate 12 "AbanD"
    toEntropy (Given.list cut).words = .ok (Bytes.zeros 32) ∧
      toEntropy (Given.text ("\n" ++ String.intercalate " " shown)).words =
        .ok (Bytes.zeros 32) := by
  let _ : Suite := Suite.standard
  intro cut shown
  have hlist : forall word, word ∈ List.replicate 12 "abandon" -> word ∈ wordList := by
    decide +kernel
  have hzeros : toEntropy (Given.list (List.replicate 12 "abandon")).words =
      .ok (Bytes.zeros 32) := by
    decide +kernel
  have hrepeat : forall {R : String -> String -> Prop} {word entry : String}, R word entry ->
      List.Forall₂ R (List.replicate 12 word) (List.replicate 12 entry) := by
    intro R word entry h
    apply List.forall₂_iff_zip.mpr
    refine ⟨rfl, ?_⟩
    intro a b hpair
    rcases List.of_mem_zip hpair with ⟨ha, hb⟩
    rwa [List.eq_of_mem_replicate ha, List.eq_of_mem_replicate hb]
  have hcut : Conveys (List.replicate 12 "abandon") (Given.list cut) := by
    apply Conveys.list
    apply hrepeat
    exact ⟨['\t'], "ABAn".toList, [' '], by decide +kernel⟩
  have htext : Conveys (List.replicate 12 "abandon")
      (Given.text ("\n" ++ String.intercalate " " shown)) := by
    have hword : Abbreviates "AbanD".toList "abandon" := by
      decide +kernel
    apply Conveys.text (hrepeat hword)
    rw [String.toList_append]
    exact Text.Shows.blank rfl (Text.shows_intercalate shown)
  rcases abbreviations_keep_meaning (Or.inl rfl) hlist with ⟨hfull, _, hsame | hrefused⟩
  · rcases hsame with ⟨entropy, hentropy⟩
    have hread := (hentropy _ hfull).symm.trans hzeros
    cases hread
    exact ⟨hentropy _ hcut, hentropy _ htext⟩
  · rw [hrefused _ hfull] at hzeros
    cases hzeros

end Phrase
end WalletVault
