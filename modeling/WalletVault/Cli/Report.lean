import WalletVault.Cli.Switch
import WalletVault.Keystore

/-!
# Reports

What a run leaves behind: an exit status, and one JSON object either on the
standard output or on the standard error stream. A successful object names the
command; a failed one has a code, which is coarser than the message. What the run
has logged stands on the error stream in front of the object.
-/

namespace WalletVault
namespace Cli

abbrev Fields := List (String × Json)

inductive Ending where
  | help
  | usage
  | finished (status : Nat) (output : String) (logged : List String) (errors : String)
  deriving DecidableEq, Repr

/-- What stands on the standard error stream. -/
def Ending.errorStream : Ending -> String
  | finished _ _ logged errors => String.join (logged.map (fun line => line ++ "\n")) ++ errors
  | _ => ""

def codeOf : Fault -> String
  | .request _ | .base58 _ => "validation_error"
  | .file _ => "file_error"
  | .malformed _ => "invalid_format"
  | .sealed _ => "decryption_failed"
  | .derivation _ => "key_derivation_failed"
  | .fewShares _ _ => "insufficient_shares"
  | .incongruent => "incongruent_shards"
  | .combination _ => "combination_failed"
  | .wordCount _ | .unknownWord _ | .phraseChecksum | .entropyLength _ => "mnemonic_error"
  | .shortRandom _ _ => "keystore_error"
  | .misuse _ => "unexpected_error"
  | .unabsorbed _ cause => codeOf cause

namespace Report

/-!
# Objects
-/

def success (command : String) (fields : Fields) : Json :=
  .object (("success", .bool true) :: ("command", .text command) :: fields)

def failure (code message : String) : Json :=
  .object [("success", .bool false), ("error_code", .text code), ("message", .text message)]

def ofInfo (info : Info) : Fields := [
  ("address", .object [("solana", .text info.solana), ("helium", .text info.helium)]),
  ("kind", .int info.kind), ("sharded", .bool info.sharded), ("pwhash", .text info.hash),
  ("legacy", .bool info.legacy)] ++
  match info.shares with
  | none => []
  | some (count, threshold, held) => [
    ("key_share_count", .int count), ("recovery_threshold", .int threshold),
    ("key_shares", .int held)]

def ofFiles (files : List String) : Fields :=
  [("files", .array (files.map Json.text))]

/-!
# Endings
-/

def accept (pretty : Bool) (command : String) (fields : Fields) (logged : List String) : Ending :=
  let layout := if pretty then Json.Layout.indented else .line
  .finished 0 (Json.render layout (success command fields) ++ "\n") logged ""

/-- Ends with an object on the standard error stream, which is always laid out. -/
def refuse (code message : String) (logged : List String) : Ending :=
  .finished 1 "" logged (Json.render .indented (failure code message) ++ "\n")

def ofStop : Stop -> Ending
  | .help => .help
  | .brokenHelp flaw => refuse "unexpected_error" flaw.message []
  | .usage => .usage

/-- Ends as the result of a command says. What a fault leaves in the log is logged last. -/
def ofResult (pretty : Bool) (command : String) (logged : List String) :
    Except Fault Fields -> Ending
  | .ok fields => accept pretty command fields logged
  | .error fault =>
    refuse (codeOf fault) fault.message (logged ++ fault.logged?.toList)

end Report
end Cli
end WalletVault
