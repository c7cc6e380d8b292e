import WalletVault.Proofs.Keystore.Calls

/-!
# What is logged on the way

Only a change of permissions that is refused leaves a line in the log while a
call goes on. Where permissions can be changed, a call that returns has logged
nothing.
-/

namespace WalletVault

namespace FileSystem

/-!
# Operations on files
-/

/-- Permissions can still be changed if they could be, and nothing was logged then. -/
def Silent (before after : FileSystem) : Prop :=
  before.fixedModes = false ->
    after.fixedModes = false ∧ after.unrestricted = before.unrestricted

variable {fs after : FileSystem} {path : Path}

theorem Silent.refl (fs : FileSystem) : fs.Silent fs :=
  fun hmodes => ⟨hmodes, rfl⟩

theorem Silent.trans {first second third : FileSystem} (h : first.Silent second)
    (h' : second.Silent third) : first.Silent third := by
  intro hmodes
  rcases h hmodes with ⟨hsecond, hlines⟩
  rcases h' hsecond with ⟨hthird, hlines'⟩
  exact ⟨hthird, hlines'.trans hlines⟩

theorem linesSince_self (fs : FileSystem) : fs.linesSince fs = [] := by
  simp [linesSince]

end FileSystem

open FileSystem Computation

/-!
# Writing
-/

namespace Store

variable (ownerOnly force : Bool) (fs : FileSystem)

variable (output : String) (wallet : Wallet)

end Store

/-!
# Calls of a keystore
-/

namespace Machine

variable {α β : Type}

/-- The action leaves no line in the log if permissions can be changed. -/
def Silent (action : Vaulting α) : Prop :=
  Along (fun before after => before.files.Silent after.files) action

theorem LeavesFiles.silent {action : Vaulting α} (h : LeavesFiles action) : Silent action := by
  intro machine
  rw [h machine]
  exact FileSystem.Silent.refl machine.files

theorem Silent.bind {action : Vaulting α} {next : α -> Vaulting β} (haction : Silent action)
    (hnext : forall a, Silent (next a)) : Silent (action >>= next) :=
  Along.bind haction (fun _ _ _ => FileSystem.Silent.trans) hnext

end Machine

namespace Keystore

open Machine

variable [Suite] (keystore : Keystore) (output : Option String) (password : Password)
  (source : KeySource) (options : Options)

end Keystore
end WalletVault
