import WalletVault.Settings
import WalletVault.Text.Template

/-!
# Help texts

The help texts that show settings. Each is a template, in which a place can show
something of the switch that the text belongs to; a percent sign in a setting
starts such a place.
-/

namespace WalletVault
namespace Cli
namespace HelpText

open Text (Parameter Template)

def unset : Parameter := .other "NoneType"

/-- What a place can show of a switch: the name under which its value is kept, how many values it
takes, what stands for a value that is left out, and what holds without the switch. -/
structure Subject where
  name : String
  count : Parameter
  leftOut : Parameter
  standard : Parameter

def ofSubject (subject : Subject) (text : String) : Template where
  text
  parameters := [
    ("option_strings", .other "list"), ("dest", .text subject.name), ("nargs", subject.count),
    ("const", subject.leftOut), ("default", subject.standard), ("type", unset),
    ("choices", unset), ("required", .number), ("help", .text text), ("metavar", unset),
    ("container", .other "_ArgumentGroup"), ("prog", .text "splurge-wallet")]

def common (settings : Settings) : List Template := [
  ofSubject ⟨"files", unset, unset, unset⟩
    ("Wallet file to load; repeat for shards (default: " ++ settings.output ++ ")"),
  ofSubject ⟨"env_password", unset, unset, unset⟩
    ("Environment variable containing the wallet password (default: " ++
      settings.passwordVariable ++ ")")]

def target (settings : Settings) (withKey : Bool) : List Template :=
  ofSubject ⟨"output", unset, unset, .text settings.output⟩
    ("Output file (default: " ++ settings.output ++ ")") ::
  if withKey then [
    ofSubject ⟨"seed", .text "?", .text "", unset⟩
      ("Seed words to restore; without a value they are read from " ++
        settings.seedWordsVariable.getD "nowhere")]
  else []

end HelpText
end Cli
end WalletVault
