import WalletVault.Cipher.Gcm
import WalletVault.Cipher.SecretBox
import WalletVault.Ed25519
import WalletVault.Hash.Argon2id
import WalletVault.Hash.Hmac

/-!
# The cryptographic suite

What the vault needs of its primitives: the operations, the sizes of their
results, and that both ciphers undo themselves; and how much memory the machine
gives them. Everything above this module is written against the class, so its
laws do not depend on how a primitive works. `Suite.standard` is the suite that
the program runs with.
-/

namespace WalletVault

/-!
# Exclusive or
-/

theorem Bytes.xor_xor (text key : Bytes) (h : text.length <= key.length) :
    Bytes.xor (Bytes.xor text key) key = text := by
  induction text generalizing key with
  | nil => simp [Bytes.xor]
  | cons b text ih =>
    cases key with
    | nil => simp at h
    | cons k key =>
      have hk : b ^^^ k ^^^ k = b := by rw [UInt8.xor_assoc, UInt8.xor_self, UInt8.xor_zero]
      have hrest := ih key (by simpa using h)
      simp only [Bytes.xor, List.zipWith_cons_cons, hk] at hrest ⊢
      rw [hrest]

/-!
# Ciphers undo themselves
-/

theorem Gcm.decrypt?_encrypt (key iv plaintext aad : Bytes) :
    Gcm.decrypt? key iv (Gcm.encrypt key iv plaintext aad).1 (Gcm.encrypt key iv plaintext aad).2
      aad = some plaintext := by
  simp only [Gcm.encrypt, Gcm.decrypt?, if_true]
  congr 1
  have hlen :
      plaintext.length <= (Gcm.keyStream (Aes.roundKeys key) iv plaintext.length).length := by
    rw [Gcm.length_keyStream]
    omega
  rw [Gcm.stream, Gcm.length_stream, Gcm.stream]
  exact Bytes.xor_xor _ _ hlen

theorem SecretBox.length_tag (key message : Bytes) : (SecretBox.tag key message).length = 16 := by
  simp [SecretBox.tag]

theorem SecretBox.length_block (key nonce : Bytes) (counter : Nat) :
    (SecretBox.block key nonce counter).length = 64 := by
  simp [SecretBox.block, SecretBox.wordBytes, List.range, List.range.loop]

theorem SecretBox.length_stream (key nonce : Bytes) (size : Nat) :
    (SecretBox.stream key nonce size).length = 64 * ((size + 63) / 64) := by
  unfold SecretBox.stream
  induction (size + 63) / 64 with
  | zero => rfl
  | succ n ih =>
    simp only at ih ⊢
    rw [List.range_succ, List.flatMap_append, List.length_append, ih]
    simp only [List.flatMap_cons, List.flatMap_nil, List.append_nil, SecretBox.length_block]
    omega

theorem SecretBox.decrypt?_encrypt (key nonce text : Bytes) :
    SecretBox.decrypt? key nonce (SecretBox.encrypt key nonce text) = some text := by
  have hkeys : text.length <= ((SecretBox.stream key nonce (32 + text.length)).drop 32).length := by
    rw [List.length_drop, SecretBox.length_stream]
    omega
  have hlen : (Bytes.xor text ((SecretBox.stream key nonce (32 + text.length)).drop 32)).length =
      text.length := by
    rw [Bytes.length_xor]
    omega
  unfold SecretBox.encrypt SecretBox.decrypt?
  generalize hc : Bytes.xor text ((SecretBox.stream key nonce (32 + text.length)).drop 32) =
    ciphertext at hlen
  have htag := SecretBox.length_tag
    ((SecretBox.stream key nonce (32 + text.length)).take 32) ciphertext
  generalize ht : SecretBox.tag ((SecretBox.stream key nonce (32 + text.length)).take 32)
    ciphertext = mark at htag
  have hdrop : (mark ++ ciphertext).drop 16 = ciphertext := by
    rw [← htag, List.drop_left]
  have htake : (mark ++ ciphertext).take 16 = mark := by
    rw [← htag, List.take_left]
  simp only [hc, ht, hdrop, htake, hlen, if_true, Option.some.injEq]
  rw [← hc]
  exact Bytes.xor_xor _ _ hkeys

/-!
# The class
-/

class Suite where
  sha256 : Bytes -> Bytes
  hmac : (key message : Bytes) -> Bytes
  pbkdf2 : (password salt : Bytes) -> (iterations : Nat) -> Bytes
  argon2id : (password salt : Bytes) -> (passes kibibytes : Nat) -> Bytes
  encrypt : (key iv plaintext aad : Bytes) -> Bytes × Bytes
  decrypt? : (key iv ciphertext tag aad : Bytes) -> Option Bytes
  boxEncrypt : (key nonce text : Bytes) -> Bytes
  boxDecrypt? : (key nonce box : Bytes) -> Option Bytes
  publicKey : (seed : Bytes) -> Bytes
  sign : (seed message : Bytes) -> Bytes
  verify : (key message signature : Bytes) -> Bool
  /-- Whether that many bytes of memory are at hand. -/
  hasMemory : (size : Nat) -> Bool
  length_sha256 : forall data, (sha256 data).length = 32
  length_hmac : forall key message, (hmac key message).length = 32
  length_pbkdf2 : forall password salt iterations, (pbkdf2 password salt iterations).length = 32
  length_argon2id : forall password salt passes kibibytes,
    (argon2id password salt passes kibibytes).length = 32
  length_tag : forall key iv plaintext aad, (encrypt key iv plaintext aad).2.length = 16
  length_publicKey : forall seed, (publicKey seed).length = 32
  decrypt_encrypt : forall key iv plaintext aad,
    decrypt? key iv (encrypt key iv plaintext aad).1 (encrypt key iv plaintext aad).2 aad =
      some plaintext
  boxDecrypt_boxEncrypt : forall key nonce text,
    boxDecrypt? key nonce (boxEncrypt key nonce text) = some text

/-- The suite that the program runs with. -/
@[reducible] def Suite.standard : Suite where
  sha256 := Sha256.hash
  hmac := Hmac.hash
  pbkdf2 := Pbkdf2.derive
  argon2id := Argon2id.derive
  encrypt := Gcm.encrypt
  decrypt? := Gcm.decrypt?
  boxEncrypt := SecretBox.encrypt
  boxDecrypt? := SecretBox.decrypt?
  publicKey := Ed25519.publicKey
  sign := Ed25519.sign
  verify := Ed25519.verify
  hasMemory := fun size => size < 68719476736
  length_sha256 := Sha256.length_hash
  length_hmac := Hmac.length_hash
  length_pbkdf2 := Pbkdf2.length_derive
  length_argon2id := Argon2id.length_derive
  length_tag := fun _ _ _ _ => by simp [Gcm.encrypt, Gcm.tag]
  length_publicKey := Ed25519.length_publicKey
  decrypt_encrypt := Gcm.decrypt?_encrypt
  boxDecrypt_boxEncrypt := SecretBox.decrypt?_encrypt

attribute [simp] Suite.length_sha256 Suite.length_hmac Suite.length_pbkdf2 Suite.length_argon2id
  Suite.length_tag Suite.length_publicKey Suite.decrypt_encrypt Suite.boxDecrypt_boxEncrypt

end WalletVault
