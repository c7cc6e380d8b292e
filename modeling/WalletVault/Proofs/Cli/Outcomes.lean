import WalletVault.Cli.Program
import WalletVault.Proofs.Json.Grammar
import WalletVault.Proofs.Keystore.Logging
import WalletVault.Proofs.Keystore.Refusals

/-!
# Outcomes of the commands

A run with a command that can be read prints one object, either on the standard
output or, behind what is logged, on the standard error stream. Commands that
use a wallet leave the files alone. Those that make one leave them alone as
well, unless the run gets as far as writing: it succeeds then, or fails because
of its files or of something it cannot take.
-/

namespace WalletVault

/-!
# Actions by what they return
-/

namespace Machine

variable {α β : Type} {machine : Machine} {first : α -> Prop} {second : β -> Prop}

/-- The action leaves the files, and what it returns is of some sort. -/
structure Reads (sort : α -> Prop) (action : Vaulting α) : Prop where
  leaves : LeavesFiles action
  returned : forall machine a after, action machine = (.ok a, after) -> sort a

/-- The action is careful with the files and logs nothing about them that has to be logged, and
what it returns is of some sort. -/
structure Writes (sort : α -> Prop) (action : Vaulting α) (machine : Machine) : Prop where
  careful : Careful action machine
  silent : machine.files.Silent (action machine).2.files
  returned : forall a after, action machine = (.ok a, after) -> sort a

theorem LeavesFiles.reads {action : Vaulting α} (h : LeavesFiles action) :
    Reads (fun _ => True) action :=
  ⟨h, fun _ _ _ _ => trivial⟩

theorem reads_throw (fault : Fault) : Reads first (throw fault : Vaulting α) :=
  ⟨fun _ => rfl, fun _ _ _ hran => (by cases hran)⟩

theorem Reads.bind {action : Vaulting α} {next : α -> Vaulting β} (haction : Reads first action)
    (hnext : forall a, first a -> Reads second (next a)) : Reads second (action >>= next) := by
  constructor
  · intro machine
    have hfiles := haction.leaves machine
    rw [Computation.bind_apply]
    rcases hran : action machine with ⟨fault | a, middle⟩
    · rw [hran] at hfiles
      exact hfiles
    · rw [hran] at hfiles
      exact ((hnext a (haction.returned machine a middle hran)).leaves middle).trans hfiles
  · intro machine b after hran
    rcases Computation.bind_eq_ok.mp hran with ⟨a, middle, haction', hlast⟩
    exact (hnext a (haction.returned machine a middle haction')).returned middle b after hlast

theorem Reads.writes {action : Vaulting α} (h : Reads first action) (machine : Machine) :
    Writes first action machine :=
  ⟨h.leaves.careful machine, h.leaves.silent machine, h.returned machine⟩

end Machine

namespace Cli

open Machine

/-!
# Reports
-/

namespace Report

end Report

namespace Setting

variable [Suite] (setting : Setting)

omit [Suite] in
theorem reads_given {α : Type} (result : Except Fault α) : Reads (fun _ => True) (given result) :=
  (leavesFiles_mk result).reads

theorem reads_stopShort {α : Type} {sort : α -> Prop} (form : TargetForm) (target : Target)
    (password : Password) (key : Draw SigningKey) :
    Reads sort (setting.stopShort form target password key) := by
  unfold stopShort
  have hmake : forall form' hash, Reads sort (do
      let _ ← setting.keystore.make form' key hash password
      throw (.misuse (.noValue .path))) := by
    intro form' hash
    apply (Keystore.leavesFiles_make setting.keystore form' key hash password).reads.bind
    intro _ _
    exact reads_throw _
  dsimp only
  split
  · apply (reads_given _).bind
    intro _ _
    apply (reads_given _).bind
    intro _ _
    exact hmake _ _
  · apply (reads_given _).bind
    intro _ _
    exact hmake _ _

def shown (made : Wallet × List Path) : List String :=
  made.2.map Path.toString

def reporting {α : Type} (action : Vaulting α) (wallet : α -> Wallet) (files : α -> List String) :
    Vaulting Fields := do
  let a ← action
  let info ← given (Keystore.info (wallet a))
  pure (Report.ofFiles (files a) ++ Report.ofInfo info)

end Setting

/-!
# Runs
-/

section Runs

variable [Suite] {keystore : Keystore} {environment : Environment} {machine after : Machine}

theorem respond_of_some {common : Common} {command : Command} {result : Except Fault Fields}
    (h : (⟨keystore, environment, common⟩ : Setting).perform command machine = (result, after)) :
    respond keystore environment ⟨common, some command⟩ machine =
      (Report.ofResult common.pretty command.name (machine.files.linesSince after.files) result,
        after) := by
  let performed := (⟨keystore, environment, common⟩ : Setting).perform command machine
  have hran : respond keystore environment ⟨common, some command⟩ machine =
      (Report.ofResult common.pretty command.name
          (machine.files.linesSince performed.2.files) performed.1,
        performed.2) := rfl
  have hperformed : performed = (result, after) := h
  rw [hran, hperformed]

end Runs

end Cli
end WalletVault
