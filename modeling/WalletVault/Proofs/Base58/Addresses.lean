import WalletVault.Proofs.Base58.Texts
import WalletVault.SigningKey

/-!
# Checked texts and addresses

A checked text is the base-58 text of a version, a payload and a checksum of
both, and no other text is read as one. An address is a text of this kind or a
plain one, and belongs to one public key only.
-/

namespace WalletVault
namespace Base58

/-!
# Checked texts
-/

section Checked

variable [Suite]

@[simp] theorem length_checksum (data : Bytes) : (checksum data).length = 4 := by
  rw [checksum, List.length_take, Suite.length_sha256]
  rfl

def versioned (version : UInt8) (payload : Bytes) : Bytes :=
  (version :: payload) ++ checksum (version :: payload)

theorem decode_encodeVersion (version : UInt8) (payload : Bytes) :
    decode (encodeVersion version payload) = .ok (versioned version payload) := by
  apply decode_eq_ok_iff_encode_eq_ok.mpr
  exact if_neg (List.cons_ne_nil version _)

theorem encodeVersion_eq_iff {version : UInt8} {payload : Bytes} {text : String} :
    encodeVersion version payload = text <-> decode text = .ok (versioned version payload) := by
  constructor
  · intro h
    rw [← h, decode_encodeVersion]
  · intro h
    have hback := decode_eq_ok_iff_encode_eq_ok.mp (decode_encodeVersion version payload)
    rw [decode_eq_ok_iff_encode_eq_ok, hback] at h
    exact Except.ok.inj h

theorem take_versioned (version : UInt8) (payload : Bytes) :
    (versioned version payload).take ((versioned version payload).length - 4) =
      version :: payload := by
  apply List.take_left'
  rw [versioned, List.length_append, length_checksum, Nat.add_sub_cancel]

theorem drop_versioned (version : UInt8) (payload : Bytes) :
    (versioned version payload).drop ((versioned version payload).length - 4) =
      checksum (version :: payload) := by
  apply List.drop_left'
  rw [versioned, List.length_append, length_checksum, Nat.add_sub_cancel]

theorem decodeCheck_eq_ok {text : String} {version : UInt8} {payload : Bytes} :
    decodeCheck text = .ok (version, payload) <-> encodeVersion version payload = text := by
  rw [encodeVersion_eq_iff]
  constructor
  · intro h
    unfold decodeCheck at h
    split at h
    · cases h
    · rename_i raw hraw
      dsimp only at h
      split at h
      · cases h
      · rename_i first rest hfront
        split at h
        · rename_i hcheck
          cases h
          rw [hraw, versioned, ← hfront, ← hcheck, List.take_append_drop]
        · cases h
  · intro h
    unfold decodeCheck
    rw [h]
    dsimp only
    rw [take_versioned, drop_versioned]
    exact if_pos rfl

theorem decodeCheck_cases (text : String) :
    (exists version payload, decodeCheck text = .ok (version, payload)) ∨
      exists flaw, decodeCheck text = .error (.base58 flaw) := by
  rcases decode_cases text with hread | hrefused
  · rcases hread with ⟨raw, hraw⟩
    unfold decodeCheck
    rw [hraw]
    dsimp only
    split
    · exact Or.inr ⟨_, rfl⟩
    · split
      · exact Or.inl ⟨_, _, rfl⟩
      · exact Or.inr ⟨_, rfl⟩
  · rcases hrefused with ⟨flaw, hflaw⟩
    refine Or.inr ⟨flaw, ?_⟩
    rw [decodeCheck, hflaw]

theorem encodeCheck_eq_ok {payload : Bytes} {version : Int} {text : String} :
    encodeCheck payload version = .ok text <->
      exists tag : UInt8, (tag.toNat : Int) = version ∧ encodeVersion tag payload = text := by
  unfold encodeCheck
  constructor
  · intro h
    split at h
    · rename_i hbyte
      have hlt : version.toNat < 256 := by omega
      refine ⟨_, ?_, Except.ok.inj h⟩
      rw [UInt8.toNat_ofNat_of_lt' hlt, Int.toNat_of_nonneg hbyte.1]
    · cases h
  · intro h
    rcases h with ⟨tag, hversion, htext⟩
    have hlt := tag.toNat_lt
    rw [if_pos (by omega), ← hversion, Int.toNat_natCast, UInt8.ofNat_toNat, htext]

theorem encodeCheck_eq_ok_iff_decodeCheck_eq_ok {text : String} {version : UInt8}
    {payload : Bytes} :
    encodeCheck payload version.toNat = .ok text <->
      decodeCheck text = .ok (version, payload) := by
  rw [encodeCheck_eq_ok, decodeCheck_eq_ok]
  constructor
  · intro h
    rcases h with ⟨tag, hversion, htext⟩
    have hsame : tag = version := UInt8.toNat_inj.mp (Int.ofNat_inj.mp hversion)
    rw [← hsame, htext]
  · intro h
    exact ⟨version, rfl, h⟩

/-!
# Addresses
-/

theorem decodeCheck_helium (publicKey : Bytes) :
    decodeCheck (Address.helium publicKey) = .ok (0, 0x01 :: publicKey) :=
  decodeCheck_eq_ok.mpr rfl

theorem helium_injective {key key' : Bytes} (h : Address.helium key = Address.helium key') :
    key = key' := by
  have hread := decodeCheck_helium key
  rw [h, decodeCheck_helium] at hread
  cases hread
  rfl

omit [Suite] in
theorem solana_injective {key key' : Bytes} {address : String}
    (h : Address.solana key = .ok address) (h' : Address.solana key' = .ok address) :
    key = key' := by
  have hread := decode_eq_ok_iff_encode_eq_ok.mpr h
  rw [decode_eq_ok_iff_encode_eq_ok.mpr h'] at hread
  exact (Except.ok.inj hread).symm

/-- A payload and the value of a byte as its version have a checked text, and this text is read as
both. A text that is read so is the checked text of what it is read as, and all other texts are
refused. The checked address of a public key is read as the version zero and the tagged key.
Different public keys have different addresses of both kinds. -/
theorem checked_texts_exact :
    (forall (payload : Bytes) (version : Int), 0 <= version -> version < 256 ->
      exists text tag, encodeCheck payload version = .ok text ∧
        decodeCheck text = .ok (tag, payload) ∧ (tag.toNat : Int) = version) ∧
    (forall (text : String) (version : UInt8) (payload : Bytes),
      decodeCheck text = .ok (version, payload) ->
        encodeCheck payload version.toNat = .ok text) ∧
    (forall text : String,
      (forall (payload : Bytes) (version : Int), encodeCheck payload version ≠ .ok text) ->
        exists flaw, decodeCheck text = .error (.base58 flaw)) ∧
    (forall publicKey : Bytes,
      decodeCheck (Address.helium publicKey) = .ok (0, 0x01 :: publicKey)) ∧
    (forall key key' : Bytes, key.length = 32 -> key'.length = 32 -> key ≠ key' ->
      Address.helium key ≠ Address.helium key' ∧
        exists address address', Address.solana key = .ok address ∧
          Address.solana key' = .ok address' ∧ address ≠ address') := by
  refine ⟨?_, ?_, ?_, decodeCheck_helium, ?_⟩
  · intro payload version hlow hhigh
    have htext : encodeCheck payload version = .ok _ := if_pos ⟨hlow, hhigh⟩
    rcases encodeCheck_eq_ok.mp htext with ⟨tag, hversion, hsame⟩
    exact ⟨_, tag, htext, decodeCheck_eq_ok.mpr hsame, hversion⟩
  · intro text version payload h
    exact encodeCheck_eq_ok_iff_decodeCheck_eq_ok.mpr h
  · intro text hother
    rcases decodeCheck_cases text with hread | hrefused
    · rcases hread with ⟨version, payload, h⟩
      exact absurd (encodeCheck_eq_ok_iff_decodeCheck_eq_ok.mpr h) (hother payload version.toNat)
    · exact hrefused
  · intro key key' hlength hlength' hdifferent
    have hsome : key ≠ [] := List.ne_nil_of_length_pos (by omega)
    have hsome' : key' ≠ [] := List.ne_nil_of_length_pos (by omega)
    rcases exists_encode hsome with ⟨address, haddress⟩
    rcases exists_encode hsome' with ⟨address', haddress'⟩
    refine ⟨fun hsame => hdifferent (helium_injective hsame), address, address', haddress,
      haddress', ?_⟩
    intro hsame
    rw [← hsame] at haddress'
    exact hdifferent (solana_injective haddress haddress')

end Checked

/-- An empty payload behind the version zero is five bytes, the first of them a leading zero. A text
of one letter is too short, and the keys of zeros and of ones have different addresses. -/
theorem checked_texts_exact_empty_payload :
    letI : Suite := Suite.standard
    (exists text, encodeCheck [] 0 = .ok text ∧ decodeCheck text = .ok (0, [])) ∧
      (exists flaw, decodeCheck "1" = .error (.base58 flaw)) ∧
      Address.helium (Bytes.zeros 32) ≠ Address.helium (List.replicate 32 1) := by
  let _ : Suite := Suite.standard
  rcases checked_texts_exact with ⟨hread, hwritten, hother, _, hkeys⟩
  have hshort : decodeCheck "1" = .error (.base58 .tooShort) := by
    decide +kernel
  refine ⟨?_, hother "1" ?_, ?_⟩
  · rcases hread [] 0 (by decide) (by decide) with ⟨text, tag, _, hback, hversion⟩
    have htag : tag = 0 := UInt8.toNat_inj.mp (Int.ofNat_inj.mp hversion)
    rw [htag] at hback
    exact ⟨text, hwritten text 0 [] hback, hback⟩
  · intro payload version htext
    rcases encodeCheck_eq_ok.mp htext with ⟨tag, _, hsame⟩
    rw [decodeCheck_eq_ok.mpr hsame] at hshort
    cases hshort
  · exact (hkeys (Bytes.zeros 32) (List.replicate 32 1) (by decide) (by decide) (by decide)).1

end Base58
end WalletVault
