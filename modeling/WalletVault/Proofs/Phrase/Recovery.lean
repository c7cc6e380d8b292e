import WalletVault.Proofs.Digits
import WalletVault.Proofs.Phrase.Words
import WalletVault.SigningKey

/-!
# Phrases give back their entropy

Every check bit goes with four bytes of entropy and three words. The entropy and
its check bits are one number, whose digits to base 2048 are the indices of the
words, so the words give back both. A key is the key of its own phrase.
-/

namespace WalletVault

namespace Phrase

variable [Suite]

/-!
# Entropy with its check bits
-/

/-- Entropy followed by its check bits as one number. -/
def number (bits : Nat) (entropy : Bytes) : Nat :=
  Bytes.toNatBE entropy * 2 ^ bits + checkBits bits entropy

omit [Suite] in
theorem two_pow_words (bits : Nat) : 2048 ^ (3 * bits) = 256 ^ (4 * bits) * 2 ^ bits := by
  rw [show 256 = 2 ^ 8 by rfl, show 2048 = 2 ^ 11 by rfl, ← Nat.pow_mul, ← Nat.pow_mul,
    ← Nat.pow_add]
  congr 1
  omega

omit [Suite] in
theorem div_of_check {bits check : Nat} (hcheck : check < 2 ^ bits) (n : Nat) :
    (n * 2 ^ bits + check) / 2 ^ bits = n := by
  rw [Nat.mul_comm, Nat.mul_add_div (Nat.two_pow_pos bits), Nat.div_eq_of_lt hcheck, Nat.add_zero]

omit [Suite] in
theorem mod_of_check {bits check : Nat} (hcheck : check < 2 ^ bits) (n : Nat) :
    (n * 2 ^ bits + check) % 2 ^ bits = check := by
  rw [Nat.mul_comm, Nat.mul_add_mod, Nat.mod_eq_of_lt hcheck]

omit [Suite] in
theorem lt_of_check {bits check : Nat} {entropy : Bytes} (hcheck : check < 2 ^ bits)
    (hlength : entropy.length = 4 * bits) :
    Bytes.toNatBE entropy * 2 ^ bits + check < 2048 ^ (3 * bits) := by
  have hentropy := Bytes.toNatBE_lt entropy
  rw [two_pow_words, ← Nat.div_lt_iff_lt_mul (Nat.two_pow_pos bits), div_of_check hcheck]
  rwa [hlength] at hentropy

theorem checkBits_lt {bits : Nat} (hbits : bits <= 8) (entropy : Bytes) :
    checkBits bits entropy < 2 ^ bits := by
  have hbyte := ((Suite.sha256 entropy).headD 0).toNat_lt
  have hsplit : 2 ^ (8 - bits) * 2 ^ bits = 2 ^ 8 := by
    rw [← Nat.pow_add, Nat.sub_add_cancel hbits]
  apply Nat.div_lt_of_lt_mul
  exact hbyte.trans_eq hsplit.symm

section Bits

variable {bits : Nat} {entropy : Bytes}

theorem number_div (hbits : bits <= 8) :
    number bits entropy / 2 ^ bits = Bytes.toNatBE entropy :=
  div_of_check (checkBits_lt hbits entropy) _

theorem number_mod (hbits : bits <= 8) :
    number bits entropy % 2 ^ bits = checkBits bits entropy :=
  mod_of_check (checkBits_lt hbits entropy) _

theorem number_lt (hbits : bits <= 8) (hlength : entropy.length = 4 * bits) :
    number bits entropy < 2048 ^ (3 * bits) :=
  lt_of_check (checkBits_lt hbits entropy) hlength

theorem indicesOf_eq (hlength : entropy.length = 4 * bits) :
    indicesOf entropy = digits (3 * bits) (number bits entropy) := by
  have hbits : entropy.length / 4 = bits := by omega
  have hwords : entropy.length * 3 / 4 = 3 * bits := by omega
  rw [indicesOf, hbits, hwords]
  rfl

theorem lt_of_mem_indicesOf (hlength : entropy.length = 4 * bits) :
    forall index, index ∈ indicesOf entropy -> index < 2048 := by
  intro index hindex
  rw [indicesOf_eq hlength] at hindex
  exact lt_of_mem_digits hindex

theorem length_indicesOf (hlength : entropy.length = 4 * bits) :
    (indicesOf entropy).length = 3 * bits := by
  rw [indicesOf_eq hlength, length_digits]

end Bits

omit [Suite] in
theorem bits_of_length {short : Bytes} (h : short.length = 16 ∨ short.length = 32) :
    exists bits, bits <= 8 ∧ short.length = 4 * bits ∧ (3 * bits = 12 ∨ 3 * bits = 24) := by
  rcases h with hshort | hlong
  · exact ⟨4, by decide, hshort, Or.inl rfl⟩
  · exact ⟨8, by decide, hlong, Or.inr rfl⟩

/-- Entropy as it is read back: sixteen bytes come twice. -/
def lengthen (entropy : Bytes) : Bytes :=
  if entropy.length = 16 then entropy ++ entropy else entropy

def payload (found : List Nat) : Bytes :=
  Bytes.ofNatBE (4 * (found.length / 3)) (ofDigits found / 2 ^ (found.length / 3))

omit [Suite] in
theorem length_payload {bits : Nat} {found : List Nat} (hlength : found.length = 3 * bits) :
    (payload found).length = 4 * bits := by
  rw [payload, Bytes.length_ofNatBE]
  omega

theorem entropyOf_eq {found : List Nat} (hcount : found.length = 12 ∨ found.length = 24) :
    entropyOf found =
      if ofDigits found % 2 ^ (found.length / 3) = checkBits (found.length / 3) (payload found) ∨
          ofDigits found % 2 ^ (found.length / 3) = 0 then
        .ok (lengthen (payload found))
      else .error .phraseChecksum := by
  have htwice : (payload found).length = 16 <-> found.length = 12 := by
    rw [payload, Bytes.length_ofNatBE]
    omega
  have hread : (if found.length = 12 then payload found ++ payload found else payload found) =
      lengthen (payload found) := if_congr htwice.symm rfl rfl
  rw [← hread]
  rfl

theorem entropyOf_eq_ok {found : List Nat} {entropy : Bytes}
    (hcount : found.length = 12 ∨ found.length = 24) :
    entropyOf found = .ok entropy <->
      (ofDigits found % 2 ^ (found.length / 3) = checkBits (found.length / 3) (payload found) ∨
        ofDigits found % 2 ^ (found.length / 3) = 0) ∧ lengthen (payload found) = entropy := by
  rw [entropyOf_eq hcount]
  split
  · rename_i hcheck
    simp [hcheck]
  · rename_i hcheck
    simp [hcheck]

/-!
# Reading what was written
-/

theorem ofDigits_indicesOf {bits : Nat} {entropy : Bytes} (hbits : bits <= 8)
    (hlength : entropy.length = 4 * bits) : ofDigits (indicesOf entropy) = number bits entropy := by
  rw [indicesOf_eq hlength, ofDigits_digits (number_lt hbits hlength)]

theorem payload_indicesOf {bits : Nat} {entropy : Bytes} (hbits : bits <= 8)
    (hlength : entropy.length = 4 * bits) : payload (indicesOf entropy) = entropy := by
  have hcount : (indicesOf entropy).length / 3 = bits := by
    rw [length_indicesOf hlength]
    omega
  rw [payload, hcount, ofDigits_indicesOf hbits hlength, number_div hbits, ← hlength,
    Bytes.ofNatBE_toNatBE]

theorem entropyOf_indicesOf {entropy : Bytes} (h : entropy.length = 16 ∨ entropy.length = 32) :
    entropyOf (indicesOf entropy) = .ok (lengthen entropy) := by
  rcases bits_of_length h with ⟨bits, hbits, hlength, hcount⟩
  have hwords := length_indicesOf hlength
  have hdiv : (indicesOf entropy).length / 3 = bits := by omega
  apply (entropyOf_eq_ok (by rwa [hwords])).mpr
  rw [hdiv, payload_indicesOf hbits hlength, ofDigits_indicesOf hbits hlength, number_mod hbits]
  exact ⟨Or.inl rfl, rfl⟩

/-!
# Doubled entropy
-/

section Halves

variable {entropy : Bytes}

omit [Suite] in
theorem length_shorten (h : entropy.length = 16 ∨ entropy.length = 32) :
    (shorten entropy).length =
      if entropy.length = 16 ∨ entropy.take 16 = entropy.drop 16 then 16 else 32 := by
  unfold shorten
  by_cases htwice : entropy.length = 32 ∧ entropy.take 16 = entropy.drop 16
  · rw [if_pos htwice, if_pos (Or.inr htwice.2), List.length_take, htwice.1]
    rfl
  · rw [if_neg htwice]
    rcases h with hshort | hlong
    · rw [if_pos (Or.inl hshort), hshort]
    · have hneither : ¬ (entropy.length = 16 ∨ entropy.take 16 = entropy.drop 16) := by
        intro heither
        rcases heither with hshort | hhalves
        · omega
        · exact htwice ⟨hlong, hhalves⟩
      rw [if_neg hneither, hlong]

omit [Suite] in
theorem length_shorten_cases (h : entropy.length = 16 ∨ entropy.length = 32) :
    (shorten entropy).length = 16 ∨ (shorten entropy).length = 32 := by
  rw [length_shorten h]
  split
  · exact Or.inl rfl
  · exact Or.inr rfl

omit [Suite] in
theorem lengthen_shorten (h : entropy.length = 16 ∨ entropy.length = 32) :
    lengthen (shorten entropy) = if entropy.length = 32 then entropy else entropy ++ entropy := by
  unfold shorten lengthen
  by_cases htwice : entropy.length = 32 ∧ entropy.take 16 = entropy.drop 16
  · have hhalf : (entropy.take 16).length = 16 := by
      rw [List.length_take, htwice.1]
      rfl
    rw [if_pos htwice, if_pos hhalf, if_pos htwice.1]
    nth_rewrite 2 [htwice.2]
    exact List.take_append_drop 16 entropy
  · rw [if_neg htwice]
    rcases h with hshort | hlong
    · rw [if_pos hshort, if_neg (by omega)]
    · rw [if_neg (by omega), if_pos hlong]

end Halves

/-!
# Phrases of entropy and of keys
-/

theorem ofEntropy_eq {entropy : Bytes} (h : entropy.length = 16 ∨ entropy.length = 32) :
    ofEntropy entropy = .ok (spelled (indicesOf (shorten entropy))) :=
  if_pos (length_shorten_cases h)

omit [Suite] in
theorem length_spelled (found : List Nat) : (spelled found).length = found.length :=
  List.length_map _

theorem toEntropy_spelled {found : List Nat} (h : forall index, index ∈ found -> index < 2048)
    (hcount : found.length = 12 ∨ found.length = 24) :
    toEntropy (spelled found) = entropyOf found := by
  rw [toEntropy, length_spelled, if_pos hcount, indices_spelled h]
  rfl

theorem length_of_ofEntropy {entropy : Bytes} {words : List String}
    (h : entropy.length = 16 ∨ entropy.length = 32) (hwords : ofEntropy entropy = .ok words) :
    words.length =
      if entropy.length = 16 ∨ entropy.take 16 = entropy.drop 16 then 12 else 24 := by
  have hsame := Except.ok.inj ((ofEntropy_eq h).symm.trans hwords)
  have hshort := length_shorten h
  rw [← hsame, length_spelled]
  by_cases htwelve : entropy.length = 16 ∨ entropy.take 16 = entropy.drop 16
  · rw [if_pos htwelve] at hshort ⊢
    exact length_indicesOf (show _ = 4 * 4 from hshort)
  · rw [if_neg htwelve] at hshort ⊢
    exact length_indicesOf (show _ = 4 * 8 from hshort)

theorem mem_wordList_of_ofEntropy {entropy : Bytes} {words : List String}
    (h : entropy.length = 16 ∨ entropy.length = 32) (hwords : ofEntropy entropy = .ok words) :
    forall word, word ∈ words -> word ∈ wordList := by
  rcases bits_of_length (length_shorten_cases h) with ⟨bits, _, hlength, _⟩
  rw [← Except.ok.inj ((ofEntropy_eq h).symm.trans hwords)]
  exact mem_wordList_of_mem_spelled (lt_of_mem_indicesOf hlength)

theorem toEntropy_of_ofEntropy {entropy : Bytes} {words : List String}
    (h : entropy.length = 16 ∨ entropy.length = 32) (hwords : ofEntropy entropy = .ok words) :
    toEntropy words = .ok (if entropy.length = 32 then entropy else entropy ++ entropy) := by
  rcases bits_of_length (length_shorten_cases h) with ⟨bits, hbits, hlength, hcount⟩
  rw [← Except.ok.inj ((ofEntropy_eq h).symm.trans hwords),
    toEntropy_spelled (lt_of_mem_indicesOf hlength) (by rwa [length_indicesOf hlength]),
    entropyOf_indicesOf (length_shorten_cases h), lengthen_shorten h]

end Phrase

namespace SigningKey

variable [Suite]

theorem exists_words (key : SigningKey) :
    exists words, key.words = .ok words ∧ (forall word, word ∈ words -> word ∈ Phrase.wordList) ∧
      ofWords words = .ok key := by
  rcases key with ⟨seed, hseed⟩
  have hwords := Phrase.ofEntropy_eq (Or.inr hseed)
  refine ⟨_, hwords, Phrase.mem_wordList_of_ofEntropy (Or.inr hseed) hwords, ?_⟩
  have hentropy := Phrase.toEntropy_of_ofEntropy (Or.inr hseed) hwords
  rw [if_pos hseed] at hentropy
  have hlong : 32 <= seed.length := by rw [hseed]
  -- A seed is 32 bytes, so all of the entropy is the seed.
  rw [ofWords, hentropy]
  change ofEntropy seed = _
  rw [ofEntropy, dif_pos hlong]
  congr 2
  exact List.take_of_length_le (by rw [hseed])

theorem exists_phrase (key : SigningKey) :
    exists words phrase, key.words = .ok words ∧ key.phrase = .ok phrase ∧
      ofWords (Phrase.Given.list words).words = .ok key ∧
      ofWords (Phrase.Given.text phrase).words = .ok key := by
  rcases exists_words key with ⟨words, hwords, hlist, hkey⟩
  have hphrase : key.phrase = .ok (String.intercalate " " words) := by
    rw [phrase, hwords]
    rfl
  have htext : (Phrase.Given.text (String.intercalate " " words)).words = words :=
    Phrase.words_intercalate_of_mem hlist
  exact ⟨words, _, hwords, hphrase, hkey, by rw [htext, hkey]⟩

end SigningKey

/-- Entropy of 16 or 32 bytes has a phrase, of 12 words just in case it is one half or two equal
halves, and the phrase gives the entropy back. A key is given back by its phrase, as one text and
as a list of words. -/
theorem Phrase.phrase_gives_back_entropy [Suite] :
    (forall entropy : Bytes, entropy.length = 16 ∨ entropy.length = 32 ->
      exists words, ofEntropy entropy = .ok words ∧
        toEntropy words = .ok (if entropy.length = 32 then entropy else entropy ++ entropy) ∧
        (forall word, word ∈ words -> word ∈ wordList) ∧
        words.length =
          if entropy.length = 16 ∨ entropy.take 16 = entropy.drop 16 then 12 else 24) ∧
    (forall key : SigningKey, exists words phrase,
      key.words = .ok words ∧ key.phrase = .ok phrase ∧
        SigningKey.ofWords (Given.list words).words = .ok key ∧
        SigningKey.ofWords (Given.text phrase).words = .ok key) := by
  refine ⟨?_, SigningKey.exists_phrase⟩
  intro entropy hlength
  have hwords := ofEntropy_eq hlength
  exact ⟨_, hwords, toEntropy_of_ofEntropy hlength hwords, mem_wordList_of_ofEntropy hlength hwords,
    length_of_ofEntropy hlength hwords⟩

/-- A phrase of equal halves has twelve words. -/
theorem Phrase.phrase_gives_back_equal_halves :
    letI : Suite := Suite.standard
    exists words, ofEntropy (List.replicate 32 7) = .ok words ∧
      toEntropy words = .ok (List.replicate 32 7) ∧ words.length = 12 := by
  let _ : Suite := Suite.standard
  rcases Phrase.phrase_gives_back_entropy.1 (List.replicate 32 7) (Or.inr (by decide)) with
    ⟨words, hwords, hentropy, _, hcount⟩
  exact ⟨words, hwords, hentropy, hcount⟩

end WalletVault
