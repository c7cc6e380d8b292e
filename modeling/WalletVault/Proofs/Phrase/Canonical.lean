import WalletVault.Proofs.Phrase.Recovery

/-!
# Phrases of one entropy

Several phrases give the same entropy: words may be cut, and the check bits may
all be zero. Writing the entropy again spells the words out and puts the check
bits right, and it halves a long phrase of equal halves. Apart from the check
bits, the indices of the words are known from the entropy.
-/

namespace WalletVault

namespace Phrase

/-- The index of a last word with other check bits. -/
def recheck (bits check index : Nat) : Nat :=
  index / 2 ^ bits * 2 ^ bits + check

def reencode [Suite] (words : List String) : Except Fault (List String) :=
  (toEntropy words).bind ofEntropy

/-!
# Check bits of the last word
-/

section Check

variable {bits check : Nat}

theorem recheck_div (hcheck : check < 2 ^ bits) (index : Nat) :
    recheck bits check index / 2 ^ bits = index / 2 ^ bits :=
  div_of_check hcheck _

theorem recheck_eq_iff (hcheck : check < 2 ^ bits) {index other : Nat} :
    recheck bits check index = recheck bits check other <->
      index / 2 ^ bits = other / 2 ^ bits := by
  constructor
  · intro hsame
    rw [← recheck_div hcheck index, hsame, recheck_div hcheck]
  · intro hsame
    rw [recheck, recheck, hsame]

theorem recheck_lt (hbits : bits <= 8) (hcheck : check < 2 ^ bits) {index : Nat}
    (hindex : index < 2048) : recheck bits check index < 2048 := by
  have hsplit : 2048 = 2 ^ (11 - bits) * 2 ^ bits := by
    rw [← Nat.pow_add, Nat.sub_add_cancel (by omega)]
  rw [hsplit, ← Nat.div_lt_iff_lt_mul (Nat.two_pow_pos bits), recheck_div hcheck,
    Nat.div_lt_iff_lt_mul (Nat.two_pow_pos bits), ← hsplit]
  exact hindex

theorem ofDigits_recheck (hbits : bits <= 8) (front : List Nat) (last : Nat) :
    ofDigits (front ++ [recheck bits check last]) =
      recheck bits check (ofDigits (front ++ [last])) := by
  have hsplit : 2048 = 2 ^ bits * 2 ^ (11 - bits) := by
    rw [← Nat.pow_add, Nat.add_sub_cancel' (by omega)]
  have hdiv : (ofDigits front * 2048 + last) / 2 ^ bits =
      ofDigits front * 2 ^ (11 - bits) + last / 2 ^ bits := by
    rw [hsplit, Nat.mul_left_comm, Nat.mul_add_div (Nat.two_pow_pos bits)]
  have hfront : ofDigits front * 2 ^ (11 - bits) * 2 ^ bits = ofDigits front * 2048 := by
    rw [Nat.mul_assoc, Nat.mul_comm (2 ^ (11 - bits)), ← hsplit]
  rw [ofDigits_concat, ofDigits_concat, recheck, recheck, hdiv, Nat.add_mul, hfront, Nat.add_assoc]

end Check

theorem ofDigits_inj {found found' : List Nat} (h : forall index, index ∈ found -> index < 2048)
    (h' : forall index, index ∈ found' -> index < 2048) (hlength : found.length = found'.length) :
    ofDigits found = ofDigits found' <-> found = found' := by
  constructor
  · intro hsame
    rw [← digits_ofDigits h, ← digits_ofDigits h', hsame, hlength]
  · intro hsame
    rw [hsame]

/-!
# Accepted indices
-/

theorem toNatBE_payload {bits : Nat} {found : List Nat}
    (h : forall index, index ∈ found -> index < 2048) (hlength : found.length = 3 * bits) :
    Bytes.toNatBE (payload found) = ofDigits found / 2 ^ bits := by
  have hbits : found.length / 3 = bits := by omega
  have hnumber := ofDigits_lt h
  rw [hlength, two_pow_words, ← Nat.div_lt_iff_lt_mul (Nat.two_pow_pos bits)] at hnumber
  rw [payload, hbits, Bytes.toNatBE_ofNatBE hnumber]

theorem payload_eq_iff {bits : Nat} {found found' : List Nat}
    (h : forall index, index ∈ found -> index < 2048)
    (h' : forall index, index ∈ found' -> index < 2048) (hlength : found.length = 3 * bits)
    (hlength' : found'.length = 3 * bits) :
    payload found = payload found' <-> ofDigits found / 2 ^ bits = ofDigits found' / 2 ^ bits := by
  constructor
  · intro hsame
    rw [← toNatBE_payload h hlength, ← toNatBE_payload h' hlength', hsame]
  · intro hsame
    have hbits : found.length / 3 = bits := by omega
    have hbits' : found'.length / 3 = bits := by omega
    rw [payload, payload, hbits, hbits', hsame]

section Accepted

variable {bits last last' : Nat} {front front' : List Nat}

theorem lt_of_mem_recheck {check : Nat} (hbits : bits <= 8) (hcheck : check < 2 ^ bits)
    (h : forall index, index ∈ front ++ [last] -> index < 2048) :
    forall index, index ∈ front ++ [recheck bits check last] -> index < 2048 := by
  intro index hindex
  rcases List.mem_append.mp hindex with hfront | hlast
  · exact h index (List.mem_append_left _ hfront)
  · rw [List.mem_singleton.mp hlast]
    exact recheck_lt hbits hcheck (h last (List.mem_append_right _ List.mem_cons_self))

theorem length_recheck (bits check last : Nat) (front : List Nat) :
    (front ++ [recheck bits check last]).length = (front ++ [last]).length := by
  rw [List.length_append, List.length_append]
  rfl

theorem indicesOf_payload [Suite] (hbits : bits <= 8)
    (h : forall index, index ∈ front ++ [last] -> index < 2048)
    (hlength : (front ++ [last]).length = 3 * bits) :
    indicesOf (payload (front ++ [last])) =
      front ++ [recheck bits (checkBits bits (payload (front ++ [last]))) last] := by
  -- Both sides have the same number, and the digits of a number are unique.
  have hnumber : number bits (payload (front ++ [last])) =
      ofDigits (front ++ [recheck bits (checkBits bits (payload (front ++ [last]))) last]) := by
    rw [ofDigits_recheck hbits, number, toNatBE_payload h hlength, recheck]
  have hcount := (length_recheck bits (checkBits bits (payload (front ++ [last]))) last front).trans
    hlength
  rw [indicesOf_eq (length_payload hlength), hnumber, ← hcount,
    digits_ofDigits (lt_of_mem_recheck hbits (checkBits_lt hbits _) h)]

/-- Indices give the same bytes just in case they differ at most in the check bits. -/
theorem payload_inj (hbits : bits <= 8)
    (h : forall index, index ∈ front ++ [last] -> index < 2048)
    (h' : forall index, index ∈ front' ++ [last'] -> index < 2048)
    (hlength : (front ++ [last]).length = 3 * bits)
    (hlength' : (front' ++ [last']).length = 3 * bits) :
    payload (front ++ [last]) = payload (front' ++ [last']) <->
      front = front' ∧ last / 2 ^ bits = last' / 2 ^ bits := by
  have hzero := Nat.two_pow_pos bits
  have hcount : (front ++ [recheck bits 0 last]).length =
      (front' ++ [recheck bits 0 last']).length := by
    rw [length_recheck, length_recheck, hlength, hlength']
  -- Without their check bits, the words spell the number that the bytes spell.
  rw [payload_eq_iff h h' hlength hlength', ← recheck_eq_iff hzero, ← ofDigits_recheck hbits,
    ← ofDigits_recheck hbits,
    ofDigits_inj (lt_of_mem_recheck hbits hzero h) (lt_of_mem_recheck hbits hzero h') hcount,
    List.append_singleton_inj, recheck_eq_iff hzero]

end Accepted

/-!
# Accepted phrases
-/

theorem take_lengthen (short : Bytes) : (lengthen short).take short.length = short := by
  unfold lengthen
  split
  · exact List.take_left' rfl
  · exact List.take_length

theorem lengthen_inj {short short' : Bytes} (h : short.length = short'.length) :
    lengthen short = lengthen short' <-> short = short' := by
  constructor
  · intro hsame
    rw [← take_lengthen short, ← take_lengthen short', hsame, h]
  · intro hsame
    rw [hsame]

theorem length_lengthen {short : Bytes} (h : short.length = 16 ∨ short.length = 32) :
    (lengthen short).length = 32 := by
  rcases h with hshort | hlong
  · rw [lengthen, if_pos hshort, List.length_append, hshort]
  · rw [lengthen, if_neg (by omega), hlong]

theorem shorten_lengthen {short : Bytes} (h : short.length = 16 ∨ short.length = 32) :
    shorten (lengthen short) = shorten short := by
  rcases h with hshort | hlong
  · have htwice : (short ++ short).length = 32 := by
      rw [List.length_append, hshort]
    have hhalves : (short ++ short).take 16 = (short ++ short).drop 16 := by
      rw [List.take_left' hshort, List.drop_left' hshort]
    rw [lengthen, if_pos hshort, shorten, if_pos ⟨htwice, hhalves⟩, List.take_left' hshort, shorten,
      if_neg (by omega)]
  · rw [lengthen, if_neg (by omega)]

section Phrases

variable [Suite]

theorem toEntropy_eq_ok {words : List String} {entropy : Bytes} :
    toEntropy words = .ok entropy <->
      (words.length = 12 ∨ words.length = 24) ∧
        exists found, indices words = .ok found ∧ entropyOf found = .ok entropy := by
  unfold toEntropy
  split
  · rename_i hcount
    exact Computation.except_bind_eq_ok.trans (and_iff_right hcount).symm
  · rename_i hcount
    constructor
    · intro h
      cases h
    · intro h
      exact absurd h.1 hcount

theorem eq_lengthen_payload {words : List String} {entropy : Bytes} {found : List Nat}
    (h : toEntropy words = .ok entropy) (hfound : indices words = .ok found) :
    entropy = lengthen (payload found) := by
  rcases toEntropy_eq_ok.mp h with ⟨hcount, other, hother, hentropy⟩
  cases hother.symm.trans hfound
  rw [← length_of_indices hfound] at hcount
  exact ((entropyOf_eq_ok hcount).mp hentropy).2.symm

theorem exists_last {words : List String} {entropy : Bytes} (h : toEntropy words = .ok entropy) :
    exists bits front last,
      (bits = 4 ∨ bits = 8) ∧ words.length = 3 * bits ∧ indices words = .ok (front ++ [last]) := by
  rcases toEntropy_eq_ok.mp h with ⟨hcount, found, hfound, _⟩
  have hlength := length_of_indices hfound
  have hsome : found ≠ [] := by
    apply List.ne_nil_of_length_pos
    omega
  rw [← List.dropLast_append_getLast hsome] at hfound
  rcases hcount with htwelve | hlong
  · exact ⟨4, _, _, Or.inl rfl, htwelve, hfound⟩
  · exact ⟨8, _, _, Or.inr rfl, hlong, hfound⟩

omit [Suite] in
theorem length_payload_cases {bits : Nat} {found : List Nat} (hbits : bits = 4 ∨ bits = 8)
    (hlength : found.length = 3 * bits) :
    (payload found).length = 16 ∨ (payload found).length = 32 := by
  rw [length_payload hlength]
  omega

theorem length_of_toEntropy {words : List String} {entropy : Bytes}
    (h : toEntropy words = .ok entropy) : entropy.length = 32 := by
  rcases exists_last h with ⟨bits, front, last, hbits, hcount, hfound⟩
  rw [eq_lengthen_payload h hfound]
  exact length_lengthen (length_payload_cases hbits ((length_of_indices hfound).trans hcount))

theorem reencode_eq {words : List String} {entropy : Bytes} (h : toEntropy words = .ok entropy) :
    reencode words = .ok (spelled (indicesOf (shorten entropy))) := by
  rw [reencode, h]
  exact ofEntropy_eq (Or.inr (length_of_toEntropy h))

theorem reencode_reencode {words canonical : List String} (h : reencode words = .ok canonical) :
    reencode canonical = .ok canonical := by
  rcases Computation.except_bind_eq_ok.mp h with ⟨entropy, hentropy, hcanonical⟩
  have hlength := length_of_toEntropy hentropy
  have hback := toEntropy_of_ofEntropy (Or.inr hlength) hcanonical
  rw [if_pos hlength] at hback
  rw [reencode, hback]
  exact hcanonical

section Shapes

variable {words : List String} {entropy : Bytes} {bits last : Nat} {front : List Nat}

theorem reencode_of_halves (h : toEntropy words = .ok entropy)
    (hhalves : entropy.take 16 = entropy.drop 16) :
    reencode words = ofEntropy (entropy.take 16) := by
  have hlong := length_of_toEntropy h
  have hhalf : (entropy.take 16).length = 16 := by
    rw [List.length_take, hlong]
    rfl
  have hshort : shorten entropy = entropy.take 16 := if_pos ⟨hlong, hhalves⟩
  have hagain : shorten (entropy.take 16) = entropy.take 16 := if_neg (by omega)
  rw [reencode_eq h, ofEntropy_eq (Or.inl hhalf), hshort, hagain]

theorem reencode_of_not_halves (h : toEntropy words = .ok entropy) (hbits : bits = 4 ∨ bits = 8)
    (hcount : words.length = 3 * bits) (hfound : indices words = .ok (front ++ [last]))
    (hhalves : ¬ (bits = 8 ∧ entropy.take 16 = entropy.drop 16)) :
    reencode words = .ok (spelled
      (front ++ [recheck bits (checkBits bits (entropy.take (4 * bits))) last])) := by
  have hlength := (length_of_indices hfound).trans hcount
  have hread := eq_lengthen_payload h hfound
  have hbytes := length_payload hlength
  have htake : entropy.take (4 * bits) = payload (front ++ [last]) := by
    rw [hread, ← hbytes, take_lengthen]
  have hshort : shorten entropy = payload (front ++ [last]) := by
    rw [hread, shorten_lengthen (length_payload_cases hbits hlength)]
    apply if_neg
    intro htwice
    apply hhalves
    have hlong : bits = 8 := by omega
    have hsame : entropy = payload (front ++ [last]) := by
      rw [hread, lengthen, if_neg (by omega)]
    rw [hsame]
    exact ⟨hlong, htwice.2⟩
  rw [reencode_eq h, hshort, indicesOf_payload (by omega) (lt_of_indices hfound) hlength, htake]

theorem toEntropy_inj {words' : List String} {entropy' : Bytes} {last' : Nat} {front' : List Nat}
    (h : toEntropy words = .ok entropy) (h' : toEntropy words' = .ok entropy')
    (hbits : bits = 4 ∨ bits = 8) (hcount : words.length = 3 * bits)
    (hcount' : words'.length = 3 * bits) (hfound : indices words = .ok (front ++ [last]))
    (hfound' : indices words' = .ok (front' ++ [last'])) :
    entropy = entropy' <-> front = front' ∧ last / 2 ^ bits = last' / 2 ^ bits := by
  have hlength := (length_of_indices hfound).trans hcount
  have hlength' := (length_of_indices hfound').trans hcount'
  rw [eq_lengthen_payload h hfound, eq_lengthen_payload h' hfound',
    lengthen_inj ((length_payload hlength).trans (length_payload hlength').symm)]
  exact payload_inj (by omega) (lt_of_indices hfound) (lt_of_indices hfound') hlength hlength'

end Shapes

/-- Encoding the entropy of a phrase again gives the full words of the same indices with the right
check bits, or the short phrase of one half if the halves of a long phrase are equal. Encoding once
more changes nothing. Phrases of as many words have the same entropy just in case their indices
agree outside the check bits. -/
theorem reencode_gives_canonical_phrase :
    (forall (given : Given) (entropy : Bytes), toEntropy given.words = .ok entropy ->
      exists bits front last canonical,
        (bits = 4 ∨ bits = 8) ∧ given.words.length = 3 * bits ∧
        indices given.words = .ok (front ++ [last]) ∧
        reencode given.words = .ok canonical ∧ reencode canonical = .ok canonical ∧
        if bits = 8 ∧ entropy.take 16 = entropy.drop 16 then
          ofEntropy (entropy.take 16) = .ok canonical ∧ canonical.length = 12
        else
          canonical = spelled
            (front ++ [recheck bits (checkBits bits (entropy.take (4 * bits))) last])) ∧
    (forall (given given' : Given) (entropy entropy' : Bytes) (bits : Nat) (front front' : List Nat)
      (last last' : Nat),
      toEntropy given.words = .ok entropy -> toEntropy given'.words = .ok entropy' ->
      given.words.length = 3 * bits -> given'.words.length = 3 * bits ->
      indices given.words = .ok (front ++ [last]) ->
      indices given'.words = .ok (front' ++ [last']) ->
      (entropy = entropy' <-> front = front' ∧ last / 2 ^ bits = last' / 2 ^ bits)) := by
  constructor
  · intro given entropy h
    rcases exists_last h with ⟨bits, front, last, hbits, hcount, hfound⟩
    have hcanonical := reencode_eq h
    refine ⟨bits, front, last, _, hbits, hcount, hfound, hcanonical,
      reencode_reencode hcanonical, ?_⟩
    split
    · rename_i htwice
      have hhalf : (entropy.take 16).length = 16 := by
        rw [List.length_take, length_of_toEntropy h]
        rfl
      have hwords := (reencode_of_halves h htwice.2).symm.trans hcanonical
      refine ⟨hwords, ?_⟩
      rw [length_of_ofEntropy (Or.inl hhalf) hwords, if_pos (Or.inl hhalf)]
    · rename_i htwice
      exact Except.ok.inj
        (hcanonical.symm.trans (reencode_of_not_halves h hbits hcount hfound htwice))
  · intro given given' entropy entropy' bits front front' last last' h h' hcount hcount' hfound
      hfound'
    have hbits : bits = 4 ∨ bits = 8 := by
      have hwords := (toEntropy_eq_ok.mp h).1
      omega
    exact toEntropy_inj h h' hbits hcount hcount' hfound hfound'

end Phrases

set_option maxRecDepth 20000 in
/-- The first word twelve times, once in capitals, is accepted, as its check bits are zero; the
phrase with the check bits of sixteen zeros has the same entropy. -/
theorem reencode_gives_canonical_phrase_of_zeros :
    letI : Suite := Suite.standard
    let typed := Given.list (" ABANDON" :: List.replicate 11 "abandon")
    let right := Given.list (List.replicate 11 "abandon" ++ ["about"])
    toEntropy typed.words = .ok (List.replicate 32 0) ∧
      reencode typed.words = .ok right.words ∧ reencode right.words = .ok right.words ∧
      toEntropy right.words = .ok (List.replicate 32 0) := by
  let _ : Suite := Suite.standard
  intro typed right
  have hindices : indices typed.words = .ok (List.replicate 11 0 ++ [0]) := by
    decide +kernel
  have hindices' : indices right.words = .ok (List.replicate 11 0 ++ [3]) := by
    decide +kernel
  have hentropy : toEntropy typed.words = .ok (List.replicate 32 0) :=
    toEntropy_eq_ok.mpr
      ⟨Or.inl rfl, _, hindices, (entropyOf_eq_ok (Or.inl rfl)).mpr ⟨Or.inr rfl, rfl⟩⟩
  rcases reencode_gives_canonical_phrase.1 typed _ hentropy with
    ⟨bits, front, last, canonical, _, hcount, hfound, hcanonical, hagain, hshape⟩
  have hbits : bits = 4 := Nat.eq_of_mul_eq_mul_left (by decide : 0 < 3) hcount.symm
  rcases List.append_singleton_inj.mp (Except.ok.inj (hfound.symm.trans hindices)) with
    ⟨hfront, hlast⟩
  rw [hbits, if_neg (by decide), hfront, hlast] at hshape
  have hright : canonical = right.words := hshape.trans (by decide +kernel)
  rw [hright] at hcanonical hagain
  rcases Computation.except_bind_eq_ok.mp hagain with ⟨entropy, hback, _⟩
  have hsame := (reencode_gives_canonical_phrase.2 typed right _ entropy 4 _ _ _ _ hentropy hback
    rfl rfl hindices hindices').mpr ⟨rfl, rfl⟩
  exact ⟨hentropy, hcanonical, hagain, hsame ▸ hback⟩

end Phrase
end WalletVault
