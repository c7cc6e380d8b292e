import WalletVault.Proofs.Files.Interruption
import WalletVault.Proofs.Keystore.Calls
import WalletVault.Proofs.Keystore.Upgrade

/-!
# Calls that are refused

A call that fails once it has begun to write does so because of its files or of
something it cannot take. With any other fault it is refused before, and the
files are as they were.
-/

namespace WalletVault

open FileSystem

/-- The faults with which a call can fail after something was written. -/
def Fault.Late : Fault -> Prop
  | .file _ | .misuse _ => True
  | _ => False

/-!
# Refused writes
-/

namespace Store

variable {ownerOnly force : Bool} {fs after : FileSystem} {fault : Fault}

end Store

/-!
# Actions on a machine
-/

namespace Machine

variable {α β : Type} {machine : Machine}

/-- If the action fails with anything but a late fault, it has changed no files. -/
def Careful (action : Vaulting α) (machine : Machine) : Prop :=
  forall fault after, action machine = (.error fault, after) ->
    fault.Late ∨ after.files = machine.files

theorem LeavesFiles.careful {action : Vaulting α} (h : LeavesFiles action) (machine : Machine) :
    Careful action machine := by
  intro fault after hran
  have hfiles := h machine
  rw [hran] at hfiles
  exact Or.inr hfiles

/-- Nothing can go wrong behind the last write. -/
theorem Careful.bind {action : Vaulting α} {next : α -> Vaulting β} (h : Careful action machine)
    (hnext : forall a middle, action machine = (.ok a, middle) ->
      exists b last, next a middle = (.ok b, last)) :
    Careful (action >>= next) machine := by
  intro fault after hran
  rw [Computation.bind_apply] at hran
  rcases hstep : action machine with ⟨refusal | a, middle⟩
  · rw [hstep] at hran
    cases hran
    exact h _ _ hstep
  · rcases hnext a middle hstep with ⟨b, last, hlast⟩
    rw [hstep] at hran
    dsimp only at hran
    rw [hlast] at hran
    cases hran

theorem Careful.bind_pure {action : Vaulting α} (h : Careful action machine) (f : α -> β) :
    Careful (action >>= fun a => pure (f a)) machine :=
  h.bind (fun a middle _ => ⟨f a, middle, rfl⟩)

end Machine

/-!
# Calls of a keystore
-/

namespace Keystore

variable [Suite]

section Creating

variable (keystore : Keystore) (output : Option String) (password : Password) (source : KeySource)
  (options : Options) (machine : Machine)

end Creating

/-!
# New wallets are shown
-/

theorem exists_info_of_make {keystore : Keystore} {form : Form} {key : Draw SigningKey}
    {hash : Draw PasswordHash} {password : Password} {machine made : Machine} {wallet : Wallet}
    (h : keystore.make form key hash password machine = (.ok wallet, made)) :
    exists info, Keystore.info wallet = .ok info := by
  rcases make_eq_ok.mp h with ⟨rule, drawn, hash, _, _, bench, _, _, _, _, hencrypt, _⟩
  rcases Wallet.encrypt_eq_ok.mp hencrypt with ⟨walletKey, iv, middle, _, _, _, hwallet⟩
  have haddress : wallet.address = .ok drawn.address := by
    apply Wallet.address_eq_ok
    rw [hwallet]
    rfl
  have hkind : WalletKind.ofTag wallet.kind = .ok (.current bench.format.isSharded) := by
    rw [hwallet]
    exact WalletKind.ofTag_eq_ok.mpr rfl
  unfold info
  rw [haddress, Wallet.isLegacy, hkind]
  exact ⟨_, rfl⟩

section Shown

variable {keystore : Keystore} {output : Option String} {password : Password} {source : KeySource}
  {options : Options} {machine made : Machine} {wallet : Wallet} {written : List Path}

theorem exists_info_of_createBasic
    (h : keystore.createBasic output password source options machine = (.ok wallet, made)) :
    exists info, Keystore.info wallet = .ok info := by
  rcases createBasic_eq_ok.mp h with ⟨_, _, _, hmake, _⟩
  exact exists_info_of_make hmake

end Shown

end Keystore
end WalletVault
