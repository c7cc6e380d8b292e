import WalletVault.Wallet.Container

/-!
# Wallet files

The fields of a wallet file in order, with little-endian numbers: the kind, the
selector of the password hash from the second generation on, the share block of
a sharded wallet, a key tag up to the second generation, the public key, the
nonce, the parameters of the password hash, the tag, and the ciphertext up to
the end.
-/

namespace WalletVault
namespace Wallet

def reader : Wire.Reader Wallet := do
  let kind ← ExceptT.mk (pure (WalletKind.ofTag (← Wire.u16)))
  let hash ←
    if kind.hasSelector then PasswordHash.readSelector
    else pure (.pbkdf2 PasswordHash.blankPbkdf2)
  let format ← KeyFormat.read <|
    if kind.sharded then .sharded ⟨hash, .standard, []⟩ else .basic hash
  if kind.taggedKey then
    let _ ← ExceptT.mk (pure (KeyTag.keyType (← Wire.u8)))
  let publicKey ← Wire.exact 32
  let iv ← Wire.exact 12
  let hash ← PasswordHash.read hash
  let tag ← Wire.exact 16
  let encrypted ← Wire.toEnd
  pure { publicKey, iv, tag, encrypted, format := format.withHash hash, kind := kind.tag }

def read (data : Bytes) : Except Fault Wallet :=
  (reader data).1

def layout (kind : WalletKind) (keyTag : UInt8) (wallet : Wallet) : Except Fault Bytes := do
  let block ← wallet.format.write
  let params ← wallet.format.hash.write
  pure (Bytes.ofNatLE 2 kind.tag ++
    (if kind.hasSelector then [UInt8.ofNat wallet.format.hash.selector] else []) ++ block ++
    (if kind.taggedKey then [keyTag] else []) ++ wallet.publicKey ++ wallet.iv ++ params ++
    wallet.tag ++ wallet.encrypted)

def write (wallet : Wallet) : Except Fault Bytes :=
  if wallet.kind = wallet.format.currentTag then
    layout (WalletKind.current wallet.format.isSharded) KeyTag.current wallet
  else .error (.malformed (.legacy wallet.kind))

end Wallet
end WalletVault
