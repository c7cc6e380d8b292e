import WalletVault.Aead
import WalletVault.KeyFormat
import WalletVault.SigningKey
import WalletVault.Wallet.Kind

/-!
# Wallet containers

An encrypted keypair with everything but the password that is needed to open
it. The format may stand in the container itself or be a reference to a format
that several containers share.
-/

namespace WalletVault

/-- A wallet whose format is a value of type `φ`. -/
structure Container (φ : Type) where
  publicKey : Bytes
  iv : Bytes
  tag : Bytes
  encrypted : Bytes
  format : φ
  kind : Int
  deriving DecidableEq

abbrev Wallet := Container KeyFormat

/-- The tag that a wallet with some format is written with. -/
def KeyFormat.currentTag (format : KeyFormat) : Int :=
  (WalletKind.current format.isSharded).tag

namespace Container

def withFormat {φ ψ : Type} (wallet : Container φ) (format : ψ) : Container ψ :=
  { wallet with format }

end Container

namespace Wallet

/-!
# Properties
-/

variable [Suite]

def address (wallet : Wallet) : Except Fault String :=
  Address.solana wallet.publicKey

def heliumAddress (wallet : Wallet) : String :=
  Address.helium wallet.publicKey

omit [Suite] in
def isLegacy (wallet : Wallet) : Except Fault Bool :=
  (WalletKind.ofTag wallet.kind).map (fun kind => kind.generation ≠ .third)

/-- A tag as it is shown: to base 16 with at least six characters. -/
def showTag (tag : Int) : String :=
  if tag < 0 then "-0x" ++ String.ofList (Text.hexDigits 3 tag.natAbs)
  else "0x" ++ String.ofList (Text.hexDigits 4 tag.natAbs)

def summary (wallet : Wallet) : Except Fault String :=
  wallet.address.map (fun address =>
    let sharded := if wallet.format.isSharded then "True" else "False"
    s!"WalletContainer(address={address}, kind={showTag wallet.kind}, sharded={sharded})")

/-!
# Encryption
-/

def encrypt (key : SigningKey) (password : Password) : KeyFormat.Working Wallet := do
  let publicKey := key.publicKey
  let secret ← KeyFormat.deriveKey password true
  let iv ← KeyFormat.drawing (draw 12)
  let (encrypted, tag) ← ExceptT.mk (pure (Aead.encrypt secret iv key.toBytes publicKey))
  let format := (← get).format
  pure { publicKey, iv, tag, encrypted, format, kind := format.currentTag }

/-- What is authenticated beside the ciphertext. -/
def associatedData (kind : WalletKind) (publicKey : Bytes) : Bytes :=
  if kind.taggedKey then KeyTag.current :: publicKey else publicKey

def readKeypair (kind : WalletKind) (plaintext : Bytes) : Except Fault SigningKey :=
  if kind.taggedKey then
    match plaintext with
    | [] => .error (.malformed .keypair)
    | tag :: data =>
      match KeyTag.keyType tag.toNat with
      | .error fault => .error fault
      | .ok _ => SigningKey.ofBytes data
  else SigningKey.ofBytes plaintext

def decrypt (wallet : Wallet) (password : Password) : Except Fault SigningKey := do
  let kind ← WalletKind.ofTag wallet.kind
  let secret ← wallet.format.existingKey password
  let plaintext ← Aead.decrypt secret wallet.iv wallet.encrypted wallet.tag
    (associatedData kind wallet.publicKey)
  readKeypair kind plaintext

/-!
# Shards
-/

omit [Suite] in
def shards (wallet : Wallet) : Except Fault (List Wallet) :=
  wallet.format.toSharded.map (fun format =>
    format.shards.map (fun shard => wallet.withFormat (.sharded shard)))

omit [Suite] in
def absorb (wallet shard : Wallet) : Except Fault Wallet := do
  let format ← wallet.format.toSharded
  let other ← shard.format.toSharded
  let merged ← format.absorb other
  pure (wallet.withFormat (.sharded merged))

end Wallet
end WalletVault
