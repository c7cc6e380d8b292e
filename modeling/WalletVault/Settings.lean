import WalletVault.PasswordHash

/-!
# Settings

What a vault does unless it is told otherwise. Settings are checked once, when
they are made.
-/

namespace WalletVault

structure Settings where
  passwordHash : String
  preset : String
  exportPreset : String
  iterations : Int
  shareCount : Int
  threshold : Int
  output : String
  /-- Whether written files are readable by their owner only. -/
  ownerOnly : Bool
  passwordVariable : String
  seedWordsVariable : Option String
  deriving DecidableEq, Repr

namespace Settings

def standard : Settings where
  passwordHash := "argon2id"
  preset := "sensitive"
  exportPreset := "moderate"
  iterations := Pbkdf2Params.standardIterations
  shareCount := 5
  threshold := 3
  output := "wallet.key"
  ownerOnly := true
  passwordVariable := "SPLURGE_WALLET_PASSWORD"
  seedWordsVariable := some "SPLURGE_WALLET_SEED_WORDS"

def flaw? (settings : Settings) : Option SettingFlaw :=
  let names := Presets.standard.map Prod.fst
  if settings.passwordHash ≠ "argon2id" ∧ settings.passwordHash ≠ "pbkdf2" then some .passwordHash
  else if !names.contains settings.preset then some (.preset "argon2_preset" names)
  else if !names.contains settings.exportPreset then some (.preset "export_argon2_preset" names)
  else if settings.iterations < 1 then some .iterations
  else if settings.threshold < 1 ∨ settings.shareCount < settings.threshold then some .threshold
  else if settings.shareCount > 255 then some .shareCount
  else if settings.output.isEmpty then some .output
  else none

def check (settings : Settings) : Except Fault Settings :=
  match settings.flaw? with
  | some flaw => .error (.misuse (.setting flaw))
  | none => .ok settings

end Settings
end WalletVault
