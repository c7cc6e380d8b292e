import WalletVault.Proofs.Phrase.Canonical

/-!
# Which phrases are accepted

The indices of 12 or 24 words are one number: check bits in its low places and
entropy above them. So a phrase is refused for its count, for its first word
that is not found, or for its check bits, in this order, and otherwise gives its
entropy. An entropy has at most two phrases of list words.
-/

namespace WalletVault
namespace Phrase

/-!
# What word indices carry
-/

def Resolves (words : List String) (found : List Nat) : Prop :=
  List.Forall₂ (fun word index => find? word = some index) words found

theorem Resolves.unique {words : List String} {found found' : List Nat}
    (h : Resolves words found) (h' : Resolves words found') : found = found' :=
  Except.ok.inj ((indices_eq_ok.mpr h).symm.trans (indices_eq_ok.mpr h'))

/-- Word indices carry entropy and check bits: as digits to base 2048, most significant first, they
are the number whose low bits are the check bits and whose other bits are the entropy. Twelve words
have four check bits, and twenty-four have eight. -/
structure Carries (bits : Nat) (found : List Nat) (entropy : Bytes) (check : Nat) : Prop where
  width : bits = 4 ∨ bits = 8
  length_found : found.length = 3 * bits
  length_entropy : entropy.length = 4 * bits
  check_lt : check < 2 ^ bits
  number_eq : Nat.ofDigits 2048 found.reverse = Bytes.toNatBE entropy * 2 ^ bits + check

def leadingBits [Suite] (bits : Nat) (entropy : Bytes) : Nat :=
  Bytes.toNatBE (Suite.sha256 entropy) / 2 ^ (256 - bits)

theorem checkBits_eq_leadingBits [Suite] {bits : Nat} (hbits : bits <= 8) (entropy : Bytes) :
    checkBits bits entropy = leadingBits bits entropy := by
  have hlength := Suite.length_sha256 entropy
  unfold checkBits leadingBits
  cases hdigest : Suite.sha256 entropy with
  | nil =>
      rw [hdigest] at hlength
      cases hlength
  | cons first rest =>
      rw [hdigest] at hlength
      have hrest := Bytes.toNatBE_lt rest
      have hbytes : rest.length = 31 := Nat.succ.inj hlength
      have hsplit : 2 ^ (256 - bits) = 256 ^ 31 * 2 ^ (8 - bits) := by
        rw [show 256 = 2 ^ 8 by rfl, ← Nat.pow_mul, ← Nat.pow_add]
        congr 1
        omega
      -- The first byte holds the bits; the others are the remainder.
      rw [hbytes] at hrest
      rw [Bytes.toNatBE_cons, hbytes, hsplit, ← Nat.div_div_eq_div_mul,
        Nat.mul_add_div (Nat.pow_pos (by decide)), Nat.div_eq_of_lt hrest, Nat.add_zero]
      rfl

section Carried

variable {bits check : Nat} {found : List Nat} {entropy : Bytes}

theorem Carries.ofDigits_eq (h : Carries bits found entropy check) :
    ofDigits found = Bytes.toNatBE entropy * 2 ^ bits + check :=
  (Phrase.ofDigits_eq found).trans h.number_eq

theorem Carries.length_div (h : Carries bits found entropy check) : found.length / 3 = bits := by
  rw [h.length_found, Nat.mul_div_cancel_left bits (by decide)]

theorem Carries.payload_eq (h : Carries bits found entropy check) : payload found = entropy := by
  rw [payload, h.length_div, h.ofDigits_eq, div_of_check h.check_lt, ← h.length_entropy,
    Bytes.ofNatBE_toNatBE]

theorem Carries.mod_eq (h : Carries bits found entropy check) :
    ofDigits found % 2 ^ bits = check := by
  rw [h.ofDigits_eq, mod_of_check h.check_lt]

theorem Carries.le_eight (h : Carries bits found entropy check) : bits <= 8 := by
  have hwidth := h.width
  omega

theorem Carries.count (h : Carries bits found entropy check) :
    found.length = 12 ∨ found.length = 24 := by
  have hwidth := h.width
  have hlength := h.length_found
  omega

theorem Carries.entropyOf_eq [Suite] (h : Carries bits found entropy check) :
    entropyOf found =
      if check = 0 ∨ check = leadingBits bits entropy then .ok (lengthen entropy)
      else .error .phraseChecksum := by
  rw [Phrase.entropyOf_eq h.count, h.length_div, h.payload_eq, h.mod_eq,
    checkBits_eq_leadingBits h.le_eight]
  exact if_congr or_comm rfl rfl

theorem exists_carries (h : forall index, index ∈ found -> index < 2048)
    (hcount : found.length = 12 ∨ found.length = 24) :
    exists bits entropy check, Carries bits found entropy check := by
  have hbits : exists bits, (bits = 4 ∨ bits = 8) ∧ found.length = 3 * bits := by
    rcases hcount with htwelve | hlong
    · exact ⟨4, Or.inl rfl, htwelve⟩
    · exact ⟨8, Or.inr rfl, hlong⟩
  rcases hbits with ⟨bits, hwidth, hlength⟩
  refine ⟨bits, payload found, ofDigits found % 2 ^ bits, hwidth, hlength, length_payload hlength,
    Nat.mod_lt _ (Nat.two_pow_pos bits), ?_⟩
  rw [← Phrase.ofDigits_eq, toNatBE_payload h hlength, Nat.div_add_mod']

end Carried

/-!
# What a phrase is read as
-/

def firstUnknown? (words : List String) : Option String :=
  words.find? (fun word => (find? word).isNone)

theorem indices_eq_error {words : List String} {fault : Fault} :
    indices words = .error fault <->
      exists word, firstUnknown? words = some word ∧ fault = .unknownWord word := by
  induction words with
  | nil =>
      simp [indices, firstUnknown?]
  | cons word rest ih =>
      rw [indices, firstUnknown?]
      cases hword : find? word with
      | none =>
          rw [List.find?_cons_of_pos (by rw [hword]; rfl)]
          simp [eq_comm]
      | some index =>
          rw [List.find?_cons_of_neg (by rw [hword]; exact Bool.false_ne_true)]
          change (indices rest).map (index :: ·) = .error fault <-> _
          rw [← firstUnknown?, ← ih]
          cases indices rest with
          | ok others =>
              simp [Except.map]
          | error other =>
              simp [Except.map]

inductive Reading [Suite] (words : List String) : Except Fault Bytes -> Prop where
  | miscounted (hcount : ¬ (words.length = 12 ∨ words.length = 24)) :
      Reading words (.error (.wordCount words.length))
  | unknown {word : String} (hcount : words.length = 12 ∨ words.length = 24)
      (hword : firstUnknown? words = some word) : Reading words (.error (.unknownWord word))
  | unchecked {bits check : Nat} {found : List Nat} {entropy : Bytes}
      (hfound : Resolves words found) (h : Carries bits found entropy check)
      (hcheck : ¬ (check = 0 ∨ check = leadingBits bits entropy)) :
      Reading words (.error .phraseChecksum)
  | accepted {bits check : Nat} {found : List Nat} {entropy : Bytes}
      (hfound : Resolves words found) (h : Carries bits found entropy check)
      (hcheck : check = 0 ∨ check = leadingBits bits entropy) :
      Reading words (.ok (lengthen entropy))

section Reading

variable [Suite] {words : List String} {outcome : Except Fault Bytes}

theorem toEntropy_of_resolves {found : List Nat} (hcount : found.length = 12 ∨ found.length = 24)
    (hfound : Resolves words found) : toEntropy words = entropyOf found := by
  rw [toEntropy, ← hfound.length_eq.symm, if_pos hcount, indices_eq_ok.mpr hfound]
  rfl

theorem reading_toEntropy (words : List String) : Reading words (toEntropy words) := by
  by_cases hcount : words.length = 12 ∨ words.length = 24
  · cases hindices : indices words with
    | error fault =>
        rcases indices_eq_error.mp hindices with ⟨word, hword, hfault⟩
        have hread : toEntropy words = .error fault := by
          rw [toEntropy, if_pos hcount, hindices]
          rfl
        rw [hread, hfault]
        exact Reading.unknown hcount hword
    | ok found =>
        have hfound : Resolves words found := indices_eq_ok.mp hindices
        rw [← length_of_indices hindices] at hcount
        rcases exists_carries (lt_of_indices hindices) hcount with ⟨bits, entropy, check, h⟩
        rw [toEntropy_of_resolves hcount hfound, h.entropyOf_eq]
        split
        · rename_i hcheck
          exact Reading.accepted hfound h hcheck
        · rename_i hcheck
          exact Reading.unchecked hfound h hcheck
  · rw [toEntropy, if_neg hcount]
    exact Reading.miscounted hcount

theorem toEntropy_of_reading (h : Reading words outcome) : toEntropy words = outcome := by
  cases h with
  | miscounted hcount =>
      exact if_neg hcount
  | unknown hcount hword =>
      rw [toEntropy, if_pos hcount, indices_eq_error.mpr ⟨_, hword, rfl⟩]
      rfl
  | unchecked hfound h hcheck =>
      rw [toEntropy_of_resolves h.count hfound, h.entropyOf_eq, if_neg hcheck]
  | accepted hfound h hcheck =>
      rw [toEntropy_of_resolves h.count hfound, h.entropyOf_eq, if_pos hcheck]

theorem toEntropy_eq_iff : toEntropy words = outcome <-> Reading words outcome := by
  constructor
  · intro h
    rw [← h]
    exact reading_toEntropy words
  · exact toEntropy_of_reading

theorem toEntropy_eq_wordCount {count : Nat} :
    toEntropy words = .error (.wordCount count) <->
      count = words.length ∧ ¬ (words.length = 12 ∨ words.length = 24) := by
  rw [toEntropy_eq_iff]
  constructor
  · intro h
    cases h with
    | miscounted hcount =>
        exact ⟨rfl, hcount⟩
  · intro h
    rw [h.1]
    exact Reading.miscounted h.2

theorem toEntropy_eq_unknownWord {word : String} :
    toEntropy words = .error (.unknownWord word) <->
      (words.length = 12 ∨ words.length = 24) ∧ firstUnknown? words = some word := by
  rw [toEntropy_eq_iff]
  constructor
  · intro h
    cases h with
    | unknown hcount hword =>
        exact ⟨hcount, hword⟩
  · intro h
    exact Reading.unknown h.1 h.2

theorem toEntropy_eq_phraseChecksum :
    toEntropy words = .error .phraseChecksum <->
      exists bits found entropy check, Resolves words found ∧ Carries bits found entropy check ∧
        check ≠ 0 ∧ check ≠ leadingBits bits entropy := by
  rw [toEntropy_eq_iff]
  constructor
  · intro h
    cases h with
    | unchecked hfound h hcheck =>
        exact ⟨_, _, _, _, hfound, h, not_or.mp hcheck⟩
  · intro h
    rcases h with ⟨bits, found, entropy, check, hfound, h, hcheck⟩
    exact Reading.unchecked hfound h (not_or.mpr hcheck)

theorem toEntropy_eq_ok_carries {result : Bytes} :
    toEntropy words = .ok result <->
      exists bits found entropy check, Resolves words found ∧ Carries bits found entropy check ∧
        (check = 0 ∨ check = leadingBits bits entropy) ∧ result = lengthen entropy := by
  rw [toEntropy_eq_iff]
  constructor
  · intro h
    cases h with
    | accepted hfound h hcheck =>
        exact ⟨_, _, _, _, hfound, h, hcheck, rfl⟩
  · intro h
    rcases h with ⟨bits, found, entropy, check, hfound, h, hcheck, hresult⟩
    rw [hresult]
    exact Reading.accepted hfound h hcheck

end Reading

/-!
# Phrases of one entropy
-/

/-- The word indices of some entropy with the given check bits. -/
def indicesWith (bits : Nat) (entropy : Bytes) (check : Nat) : List Nat :=
  digits (3 * bits) (Bytes.toNatBE entropy * 2 ^ bits + check)

section Pairs

variable {bits check : Nat} {entropy : Bytes}

theorem carries_indicesWith (hwidth : bits = 4 ∨ bits = 8) (hlength : entropy.length = 4 * bits)
    (hcheck : check < 2 ^ bits) : Carries bits (indicesWith bits entropy check) entropy check where
  width := hwidth
  length_found := length_digits _ _
  length_entropy := hlength
  check_lt := hcheck
  number_eq := by
    rw [← ofDigits_eq, indicesWith, ofDigits_digits (lt_of_check hcheck hlength)]

theorem Carries.eq_indicesWith {found : List Nat} (h : Carries bits found entropy check)
    (hlt : forall index, index ∈ found -> index < 2048) :
    found = indicesWith bits entropy check := by
  rw [indicesWith, ← h.ofDigits_eq, ← h.length_found, digits_ofDigits hlt]

theorem leadingBits_lt [Suite] (hwidth : bits = 4 ∨ bits = 8) (entropy : Bytes) :
    leadingBits bits entropy < 2 ^ bits := by
  have hbits : bits <= 8 := by omega
  rw [← checkBits_eq_leadingBits hbits]
  exact checkBits_lt hbits entropy

theorem indicesWith_inj {check' : Nat} (hwidth : bits = 4 ∨ bits = 8)
    (hlength : entropy.length = 4 * bits) (hcheck : check < 2 ^ bits)
    (hcheck' : check' < 2 ^ bits) :
    indicesWith bits entropy check = indicesWith bits entropy check' <-> check = check' := by
  constructor
  · intro hsame
    rw [← (carries_indicesWith hwidth hlength hcheck).mod_eq, hsame,
      (carries_indicesWith hwidth hlength hcheck').mod_eq]
  · intro hsame
    rw [hsame]

/-- The indices that are read as some entropy are those with the right check bits and those with
none. -/
theorem accepted_indices [Suite] (hwidth : bits = 4 ∨ bits = 8)
    (hlength : entropy.length = 4 * bits) :
    {found | exists given : Given, given.words.length = 3 * bits ∧ Resolves given.words found ∧
        toEntropy given.words = .ok (lengthen entropy)} =
      {indicesWith bits entropy (leadingBits bits entropy), indicesWith bits entropy 0} := by
  ext found
  rw [Set.mem_insert_iff, Set.mem_singleton_iff]
  constructor
  · intro h
    rcases h with ⟨given, hcount, hresolves, hentropy⟩
    rcases toEntropy_eq_ok_carries.mp hentropy with
      ⟨bits', found', entropy', check, hresolves', h, hcheck, hresult⟩
    rw [← hresolves.unique hresolves'] at h
    have hbits : bits' = bits := by
      rw [← h.length_div, ← hresolves.length_eq, hcount, Nat.mul_div_cancel_left bits (by decide)]
    rw [hbits] at h hcheck
    have hsame := (lengthen_inj (hlength.trans h.length_entropy.symm)).mp hresult
    rw [← hsame] at h hcheck
    rw [h.eq_indicesWith (lt_of_indices (indices_eq_ok.mpr hresolves))]
    rcases hcheck with hzero | hright
    · rw [hzero]
      exact Or.inr rfl
    · rw [hright]
      exact Or.inl rfl
  · -- The words in full that have the indices are such a phrase.
    have haccepted : forall {check : Nat}, check < 2 ^ bits ->
        check = 0 ∨ check = leadingBits bits entropy ->
        exists given : Given, given.words.length = 3 * bits ∧
          Resolves given.words (indicesWith bits entropy check) ∧
          toEntropy given.words = .ok (lengthen entropy) := by
      intro check hlt hcheck
      have hindices := indices_spelled
        (fun index (hindex : index ∈ indicesWith bits entropy check) => lt_of_mem_digits hindex)
      have hresolves := indices_eq_ok.mp hindices
      refine ⟨Given.list (spelled (indicesWith bits entropy check)), ?_, hresolves, ?_⟩
      · exact (length_spelled _).trans (length_digits _ _)
      · exact toEntropy_eq_ok_carries.mpr ⟨bits, _, entropy, check, hresolves,
          carries_indicesWith hwidth hlength hlt, hcheck, rfl⟩
    intro h
    rcases h with hright | hzero
    · rw [hright]
      exact haccepted (leadingBits_lt hwidth entropy) (Or.inr rfl)
    · rw [hzero]
      exact haccepted (Nat.two_pow_pos bits) (Or.inl rfl)

end Pairs

/-- A phrase is refused for its count just in case it has neither 12 nor 24 words; otherwise for its
first word that is not found, if there is one; otherwise for its check bits just in case they are
neither zero nor the first bits of the digest of its entropy. All other phrases give their entropy,
and nothing else happens. The word indices that give some entropy are one sequence or two: those
with the right check bits and those with none. -/
theorem toEntropy_characterised [Suite] :
    (forall (given : Given) (count : Nat),
      toEntropy given.words = .error (.wordCount count) <->
        count = given.words.length ∧ ¬ (given.words.length = 12 ∨ given.words.length = 24)) ∧
    (forall (given : Given) (word : String),
      toEntropy given.words = .error (.unknownWord word) <->
        (given.words.length = 12 ∨ given.words.length = 24) ∧
          firstUnknown? given.words = some word) ∧
    (forall given : Given,
      toEntropy given.words = .error .phraseChecksum <->
        exists bits found entropy check,
          Resolves given.words found ∧ Carries bits found entropy check ∧
            check ≠ 0 ∧ check ≠ leadingBits bits entropy) ∧
    (forall (given : Given) (result : Bytes),
      toEntropy given.words = .ok result <->
        exists bits found entropy check,
          Resolves given.words found ∧ Carries bits found entropy check ∧
            (check = 0 ∨ check = leadingBits bits entropy) ∧ result = lengthen entropy) ∧
    (forall (given : Given) (fault : Fault), toEntropy given.words = .error fault ->
      (exists count, fault = .wordCount count) ∨ (exists word, fault = .unknownWord word) ∨
        fault = .phraseChecksum) ∧
    (forall (bits : Nat) (entropy : Bytes), bits = 4 ∨ bits = 8 -> entropy.length = 4 * bits ->
      {found | exists given : Given, given.words.length = 3 * bits ∧ Resolves given.words found ∧
          toEntropy given.words = .ok (lengthen entropy)} =
        {indicesWith bits entropy (leadingBits bits entropy), indicesWith bits entropy 0} ∧
      (indicesWith bits entropy (leadingBits bits entropy) = indicesWith bits entropy 0 <->
        leadingBits bits entropy = 0)) := by
  refine ⟨fun given count => toEntropy_eq_wordCount, fun given word => toEntropy_eq_unknownWord,
    fun given => toEntropy_eq_phraseChecksum, fun given result => toEntropy_eq_ok_carries, ?_, ?_⟩
  · intro given fault h
    cases toEntropy_eq_iff.mp h with
    | miscounted _ =>
        exact Or.inl ⟨_, rfl⟩
    | unknown _ _ =>
        exact Or.inr (Or.inl ⟨_, rfl⟩)
    | unchecked _ _ _ =>
        exact Or.inr (Or.inr rfl)
  · intro bits entropy hwidth hlength
    exact ⟨accepted_indices hwidth hlength, indicesWith_inj hwidth hlength
      (leadingBits_lt hwidth entropy) (Nat.two_pow_pos bits)⟩

set_option maxRecDepth 20000 in
/-- Sixteen zeros are the entropy of two index sequences, those of "abandon" eleven times and
"abandon" or "about" behind. The count is looked at first: a single word is refused for it, whether
or not the word is found. -/
theorem toEntropy_characterised_of_zeros :
    letI : Suite := Suite.standard
    {found | exists given : Given, given.words.length = 12 ∧ Resolves given.words found ∧
        toEntropy given.words = .ok (Bytes.zeros 32)} =
      {List.replicate 11 0 ++ [3], List.replicate 11 0 ++ [0]} ∧
    toEntropy (Given.text "xyzzy").words = .error (.wordCount 1) := by
  let _ : Suite := Suite.standard
  rcases toEntropy_characterised with ⟨hcount, _, _, _, _, hpairs⟩
  have hright : indicesWith 4 (Bytes.zeros 16) (leadingBits 4 (Bytes.zeros 16)) =
      List.replicate 11 0 ++ [3] := by
    decide +kernel
  have hnone : indicesWith 4 (Bytes.zeros 16) 0 = List.replicate 11 0 ++ [0] := by
    decide +kernel
  have hpair := (hpairs 4 (Bytes.zeros 16) (Or.inl rfl) rfl).1
  rw [hright, hnone] at hpair
  exact ⟨hpair, (hcount (Given.text "xyzzy") 1).mpr ⟨by decide +kernel, by decide +kernel⟩⟩

end Phrase
end WalletVault
