import WalletVault.KeyFormat
import WalletVault.SigningKey
import WalletVault.Wallet.Kind

/-!
# The catalogue of numbers

The tags, sizes and work factors of wallet files under the names by which other
programs look them up.
-/

namespace WalletVault
namespace Catalogue

def tags : List (String × Nat) := [
  ("WALLET_KIND_BASIC_V1", WalletKind.tag ⟨false, .first⟩),
  ("WALLET_KIND_BASIC_V2", WalletKind.tag ⟨false, .second⟩),
  ("WALLET_KIND_BASIC_V3", WalletKind.tag ⟨false, .third⟩),
  ("WALLET_KIND_SHARDED_V1", WalletKind.tag ⟨true, .first⟩),
  ("WALLET_KIND_SHARDED_V2", WalletKind.tag ⟨true, .second⟩),
  ("WALLET_KIND_SHARDED_V3", WalletKind.tag ⟨true, .third⟩)]

def hashes : List (String × Nat) := [
  ("PWHASH_KIND_PBKDF2", (PasswordHash.pbkdf2 PasswordHash.blankPbkdf2).selector),
  ("PWHASH_KIND_ARGON2ID13", (PasswordHash.argon2id PasswordHash.blankArgon2id).selector),
  ("PBKDF2_SALT_BYTES", PasswordHash.blankPbkdf2.salt.length),
  ("ARGON2_SALT_BYTES", PasswordHash.blankArgon2id.salt.length),
  ("PBKDF2_DEFAULT_ITERATIONS", Pbkdf2Params.standardIterations.toNat)]

def sizes : List (String × Nat) := [
  ("AES_KEY_BYTES", 32), ("IV_BYTES", 12), ("TAG_BYTES", 16), ("PUBKEY_BYTES", 32),
  ("KEYPAIR_BYTES", 64), ("KEY_SHARE_BYTES", 33), ("SHAMIR_SECRET_BYTES", 32)]

def shares : List (String × Nat) := [
  ("DEFAULT_KEY_SHARE_COUNT", ShareRule.standard.count),
  ("DEFAULT_RECOVERY_THRESHOLD", ShareRule.standard.threshold),
  ("MAX_KEY_SHARES", 255)]

def keyTags : List (String × Nat) := [
  ("KEY_TYPE_ECC_COMPACT", 0x00), ("KEY_TYPE_ED25519", 0x01), ("NETWORK_MAINNET", 0x00),
  ("NETWORK_TESTNET", 0x10), ("LEGACY_ED25519_TAG", KeyTag.current.toNat)]

def numbers : List (String × Nat) :=
  tags ++ hashes ++ sizes ++ shares ++ keyTags

end Catalogue
end WalletVault
