import WalletVault.Fault
import WalletVault.Suite

/-!
# Authenticated encryption with fixed sizes

The cipher of the suite behind checks of the sizes of key, nonce and tag. A
wrong tag, a tag of the wrong size and a wrong key all fail alike.
-/

namespace WalletVault
namespace Aead

/-- Checks the sizes of key and nonce, the key first. -/
def checkSizes (key iv : Bytes) : Except Fault Unit :=
  if key.length ≠ 32 then .error (.request .keySize)
  else if iv.length ≠ 12 then .error (.request .ivSize)
  else .ok ()

variable [Suite]

def encrypt (key iv plaintext aad : Bytes) : Except Fault (Bytes × Bytes) :=
  match checkSizes key iv with
  | .error fault => .error fault
  | .ok () => .ok (Suite.encrypt key iv plaintext aad)

def decrypt (key iv ciphertext tag aad : Bytes) : Except Fault Bytes :=
  match checkSizes key iv with
  | .error fault => .error fault
  | .ok () =>
    if tag.length ≠ 16 then .error (.sealed .wallet)
    else
      match Suite.decrypt? key iv ciphertext tag aad with
      | some plaintext => .ok plaintext
      | none => .error (.sealed .wallet)

end Aead
end WalletVault
