import WalletVault.Keystore

/-!
# Sessions

A session holds keys, wallets and byte strings under names. Formats stand on a
shelf of their own and are held by number, because several wallets can share
one: what a wallet absorbs shows in every wallet with the same format. The shelf
only grows, and a number always means the same format.
-/

namespace WalletVault

inductive Register where
  | key (key : SigningKey)
  | format (number : Nat)
  | wallet (wallet : Container Nat)
  | bytes (data : Bytes)
  deriving DecidableEq

structure Session where
  keystore : Keystore
  machine : Machine
  formats : List KeyFormat
  registers : List (String × Register)

inductive Trouble where
  /-- A name that stands for nothing of the kind that is needed. -/
  | missing (name : String)
  | fault (fault : Fault)
  deriving DecidableEq, Repr

abbrev Sessional := ExceptT Trouble (StateM Session)

namespace Session

/-!
# The shelf
-/

def formatAt (session : Session) (number : Nat) : KeyFormat :=
  session.formats.getD number (.basic (.pbkdf2 PasswordHash.blankPbkdf2))

def resolve (session : Session) (wallet : Container Nat) : Wallet :=
  wallet.withFormat (session.formatAt wallet.format)

def shelve (format : KeyFormat) : Sessional Nat := do
  let session ← get
  set { session with formats := session.formats ++ [format] }
  pure session.formats.length

def shelveWallet (wallet : Wallet) : Sessional (Container Nat) := do
  let number ← shelve wallet.format
  pure (wallet.withFormat number)

def replace (number : Nat) (format : KeyFormat) : Sessional Unit :=
  modify (fun session => { session with formats := session.formats.set number format })

/-!
# Names
-/

def lookup? (session : Session) (name : String) : Option Register :=
  session.registers.lookup name

def keep (name : Option String) (register : Register) : Sessional Unit :=
  match name with
  | none => pure ()
  | some name =>
    modify (fun session => { session with
      registers := (name, register) :: session.registers.filter (fun entry => entry.1 ≠ name) })

/-- Gives the names `name.1`, `name.2` and so on to several things. -/
def keepEach (name : String) (items : List Register) : Sessional Unit :=
  items.zipIdx.forM (fun (item, i) => keep (some s!"{name}.{i + 1}") item)

def key (name : String) : Sessional SigningKey := do
  match (← get).lookup? name with
  | some (.key key) => pure key
  | _ => throw (.missing name)

def format (name : String) : Sessional Nat := do
  match (← get).lookup? name with
  | some (.format number) => pure number
  | _ => throw (.missing name)

def wallet (name : String) : Sessional (Container Nat) := do
  match (← get).lookup? name with
  | some (.wallet wallet) => pure wallet
  | _ => throw (.missing name)

def bytes (name : String) : Sessional Bytes := do
  match (← get).lookup? name with
  | some (.bytes data) => pure data
  | _ => throw (.missing name)

/-!
# Working in a session
-/

def given {α : Type} (result : Except Fault α) : Sessional α :=
  ExceptT.mk (pure (result.mapError .fault))

def vaulting {α : Type} (action : Vaulting α) : Sessional α := fun session =>
  let (result, machine) := action session.machine
  (result.mapError .fault, { session with machine })

/-- Works on a format on the shelf, with the random source of the machine. What becomes of the
format stays, also after a failure. -/
def workOn {α : Type} (number : Nat) (action : KeyFormat.Working α) : Sessional α := fun session =>
  let (result, bench) := action ⟨session.formatAt number, session.machine.random⟩
  (result.mapError .fault, { session with
    machine := { session.machine with random := bench.random }
    formats := session.formats.set number bench.format })

end Session
end WalletVault
