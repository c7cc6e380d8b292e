import WalletVault.Base64
import WalletVault.Json.Reader

/-!
# Faults

Every way in which an operation can fail, grouped by what the caller can do
about it. A fault is a cause; `Fault.message` is its only wording.
-/

namespace WalletVault

/-!
# Causes
-/

inductive ByteListFlaw where
  | outOfRange
  | notInteger (typeName : String)
  deriving DecidableEq, Repr

inductive Request where
  | passwordMissing (label : String)
  | passwordEmpty (label : String)
  | passwordKind
  | outputMissing
  | outputEmpty
  | noFiles
  | secretSize
  | thresholdBelowOne
  | countBelowThreshold (count threshold : Int)
  | countAboveField (count : Int)
  | thresholdRange
  | countRange
  | thresholdAboveCount (threshold count : Int)
  | keySize
  | ivSize
  | saltSize (hash : String) (size : Nat)
  | iterations
  | unknownPreset (name : String)
  | unknownHash (name : String)
  | seedSize
  | entropySize
  | shareNumber (shares : Nat)
  | notSharded
  | recordFieldMissing (name : String)
  | recordVersion
  | recordText (name : String)
  | severalKeys
  | twoPasswords
  | noPassword (name : String)
  | noSeedWords (name : Option String)
  | noWalletFormat
  | seedAndSecret
  | noExportPassword
  | messageWithoutSignature
  | secretJson (flaw : Json.Flaw)
  | secretBytes (flaw : ByteListFlaw)
  | signatureText (flaw : Base64.Flaw)
  deriving DecidableEq, Repr

inductive Base58Flaw where
  | missing
  | emptyData
  | emptyText
  | foreignLetter
  | tooShort
  | checksum
  deriving DecidableEq, Repr

inductive Malformed where
  | truncated (needed : Int) (got : Nat)
  | kind (tag : Int)
  | hashKind (tag : Nat)
  | shards (cause : Request)
  | keyNetwork (tag : Int)
  | keyUnsupported (tag : Int)
  | keyType (tag : Int)
  | keypair
  | legacy (tag : Int)
  deriving DecidableEq, Repr

inductive SystemRefusal where
  | notFound
  | taken
  | notDirectory
  | isDirectory
  | nameTooLong
  | notPermitted
  deriving DecidableEq, Repr

inductive SystemFault where
  | refused (refusal : SystemRefusal) (path : String)
  | destinationTaken (path : String)
  deriving DecidableEq, Repr

inductive FileFault where
  | taken (paths : List String)
  | unwritten (path : String) (cause : SystemFault)
  | unread (path : String) (cause : SystemFault)
  deriving DecidableEq, Repr

inductive Sealed where
  | wallet
  | seedVersion
  | seedText
  | seedSalt
  | seedNonce
  | seedBox
  deriving DecidableEq, Repr

inductive HashLimit where
  | iterations
  | iterationsWidth
  | memoryBelow
  | memoryAbove
  | passesBelow
  | passesAbove
  | memoryAtHand
  deriving DecidableEq, Repr

inductive ShareConflict where
  | zeroIndex
  | repeatedIndex
  | differentSplits
  deriving DecidableEq, Repr

inductive Width where
  | u8
  | u16
  | u32
  deriving DecidableEq, Repr

/-- Text without UTF-8 bytes: the first half of a pair that stands alone, its position, and how
many halves stand there side by side. -/
structure EncodingFlaw where
  half : Fin 2048
  position : Nat
  count : Nat
  deriving DecidableEq, Repr

inductive SettingFlaw where
  | passwordHash
  | preset (field : String) (names : List String)
  | iterations
  | threshold
  | shareCount
  | output
  deriving DecidableEq, Repr

inductive ValueUse where
  | path
  | iterations
  | shareNumber
  | secret
  | messageText
  | signatureText
  deriving DecidableEq, Repr

inductive Misuse where
  | setting (flaw : SettingFlaw)
  | shareSize (size : Nat)
  | bufferSize (expected got : Nat)
  | negativeSize
  | sizeWidth
  | sizeAtHand
  | byteList (flaw : ByteListFlaw)
  | emptyName (path : String)
  | nullInPath
  | numberTooLong (digits : Nat)
  | nestedTooDeep (bracket : Json.Bracket)
  | noValue (use : ValueUse)
  | notText
  | unsized (typeName : String)
  | outsideTable
  | divisionByZero
  | width (width : Width)
  | wideNumber
  | encoding (flaw : EncodingFlaw)
  | system (cause : SystemFault)
  deriving DecidableEq, Repr

/-- Every way to fail. A fault with a further wallet file counts as its cause; only the log tells
the file. -/
inductive Fault where
  | request (cause : Request)
  | base58 (cause : Base58Flaw)
  | file (cause : FileFault)
  | malformed (cause : Malformed)
  | sealed (cause : Sealed)
  | derivation (cause : HashLimit)
  | fewShares (present : Nat) (needed : Int)
  | incongruent
  | combination (cause : ShareConflict)
  | wordCount (count : Nat)
  | unknownWord (word : String)
  | phraseChecksum
  | entropyLength (length : Nat)
  | shortRandom (got : Nat) (expected : Int)
  | misuse (cause : Misuse)
  | unabsorbed (input : String) (cause : Fault)
  deriving DecidableEq, Repr

/-!
# Wording
-/

def ByteListFlaw.message : ByteListFlaw -> String
  | outOfRange => "bytes must be in range(0, 256)"
  | notInteger typeName => s!"'{typeName}' object cannot be interpreted as an integer"

def Request.message : Request -> String
  | passwordMissing label => s!"{label} cannot be None"
  | passwordEmpty label => s!"{label} cannot be empty"
  | passwordKind => "Password must be str or bytes"
  | outputMissing => "Output path cannot be None"
  | outputEmpty => "Output path cannot be empty"
  | noFiles => "At least one wallet file expected"
  | secretSize => "Secret must be exactly 32 bytes"
  | thresholdBelowOne => "Recovery threshold must be at least 1"
  | countBelowThreshold count threshold =>
    s!"Share count ({count}) must be >= recovery threshold ({threshold})"
  | countAboveField count => s!"Share count ({count}) exceeds GF(256) limit (255)"
  | thresholdRange => "Recovery threshold must be between 1 and 255"
  | countRange => "Key share count must be between 1 and 255"
  | thresholdAboveCount threshold count =>
    s!"Recovery threshold ({threshold}) cannot exceed key share count ({count})"
  | keySize => "Key must be exactly 32 bytes"
  | ivSize => "IV must be exactly 12 bytes"
  | saltSize hash size => s!"{hash} salt must be exactly {size} bytes"
  | iterations => "PBKDF2 iterations must be at least 1"
  | unknownPreset name => s!"Unknown Argon2id preset: {name}"
  | unknownHash name => s!"Unknown password hash kind: {name}"
  | seedSize => "Ed25519 seed must be exactly 32 bytes"
  | entropySize => "invalid entropy: need at least 32 bytes"
  | shareNumber shares => s!"Invalid number of key shares in shard: {shares}"
  | notSharded => "Wallet not sharded"
  | recordFieldMissing name => s!"Missing encrypted seed field: '{name}'"
  | recordVersion => "Encrypted seed version must be an integer"
  | recordText name => s!"Encrypted seed field {name} must be a string"
  | severalKeys => "Only one of signing_key, seed_words or entropy may be given"
  | twoPasswords => "Cannot specify both password and environment password"
  | noPassword name =>
    s!"Either password (-p/--password) or environment password (-ep/--env-password) is required; {name} is not set"
  | noSeedWords name => "Seed words not given and " ++ name.getD "None" ++ " is not set"
  | noWalletFormat => "Wallet format (basic or sharded) is required"
  | seedAndSecret => "Cannot specify both --seed and --secret"
  | noExportPassword => "Export password (--export-password) is required"
  | messageWithoutSignature => "Both message (-m) and signature (-s) are required"
  | secretJson flaw => s!"Invalid JSON secret: {flaw.message}"
  | secretBytes flaw => s!"Invalid secret byte array: {flaw.message}"
  | signatureText flaw => s!"Invalid base64 signature: {flaw.message}"

def Base58Flaw.message : Base58Flaw -> String
  | missing => "Input cannot be None"
  | emptyData => "Cannot encode empty data"
  | emptyText => "Cannot decode empty string"
  | foreignLetter => "Invalid base-58 string"
  | tooShort => "Base-58 check data too short"
  | checksum => "Invalid base-58 checksum"

def Malformed.message : Malformed -> String
  | truncated needed got =>
    s!"Unexpected end of wallet data: needed {needed} bytes, got {got}"
  | kind tag => s!"Invalid wallet kind {tag}"
  | hashKind tag => s!"Invalid pwhash kind {tag}"
  | shards cause => s!"Invalid shard parameters: {cause.message}"
  | keyNetwork tag => s!"Invalid network in key tag: {tag}"
  | keyUnsupported tag => s!"Unsupported key type: {tag}"
  | keyType tag => s!"Invalid key type in key tag: {tag}"
  | keypair => "invalid keypair data"
  | legacy tag => s!"Wallet kind {tag} cannot be written; upgrade the wallet first"

def SystemRefusal.code : SystemRefusal -> Nat
  | notFound => 2
  | taken => 17
  | notDirectory => 20
  | isDirectory => 21
  | nameTooLong => 36
  | notPermitted => 1

def SystemRefusal.message : SystemRefusal -> String
  | notFound => "No such file or directory"
  | taken => "File exists"
  | notDirectory => "Not a directory"
  | isDirectory => "Is a directory"
  | nameTooLong => "File name too long"
  | notPermitted => "Operation not permitted"

def SystemFault.message : SystemFault -> String
  | refused refusal path => s!"[Errno {refusal.code}] {refusal.message}: {Text.quoted path}"
  | destinationTaken path => s!"Destination path '{path}' already exists"

def FileFault.message : FileFault -> String
  | taken paths => "File already exists: " ++ String.intercalate ", " paths
  | unwritten path cause => s!"Failed to write file {path}: {cause.message}"
  | unread path cause => s!"Failed to read file {path}: {cause.message}"

def Sealed.message : Sealed -> String
  | wallet => "Failed to decrypt wallet"
  | seedVersion => "Incompatible version format"
  | seedText => "Couldn't decode EncryptedSeed"
  | seedSalt => "Failed to decode salt"
  | seedNonce => "Failed to decode nonce"
  | seedBox => "Couldn't decrypt EncryptedSeed"

def HashLimit.message : HashLimit -> String
  | iterations => "PBKDF2 iterations must be at least 1"
  | iterationsWidth => "int too big to convert"
  | memoryBelow => "memlimit must be at least 8192 bytes"
  | memoryAbove => "memlimit must be at most 4398046510080 bytes"
  | passesBelow => "opslimit must be at least 1"
  | passesAbove => "opslimit must be at most 4294967295"
  | memoryAtHand => "Unexpected failure in key derivation"

def ShareConflict.message : ShareConflict -> String
  | zeroIndex => "invalid share index"
  | repeatedIndex => "conflicting share indices"
  | differentSplits => "shares come from different splits"

def Width.message : Width -> String
  | u8 => "ubyte format requires 0 <= number <= 255"
  | u16 => "ushort format requires 0 <= number <= 65535"
  | u32 => "'I' format requires 0 <= number <= 4294967295"

def EncodingFlaw.message (flaw : EncodingFlaw) : String :=
  let code := "\\u" ++ String.ofList (Text.hexDigits 4 (0xd800 + flaw.half))
  if flaw.count = 1 then
    s!"'utf-8' codec can't encode character '{code}' in position {flaw.position}: surrogates not allowed"
  else
    s!"'utf-8' codec can't encode characters in position {flaw.position}-{flaw.position + flaw.count - 1}: surrogates not allowed"

def SettingFlaw.message : SettingFlaw -> String
  | passwordHash => "default_pwhash must be 'argon2id' or 'pbkdf2'"
  | preset field names =>
    field ++ " must be one of [" ++ String.intercalate ", " (names.map Text.quoted) ++ "]"
  | iterations => "pbkdf2_iterations must be at least 1"
  | threshold => "default_recovery_threshold must be between 1 and default_key_share_count"
  | shareCount => "default_key_share_count must be at most 255"
  | output => "default_output cannot be empty"

def ValueUse.message : ValueUse -> String
  | path => "expected str, bytes or os.PathLike object, not list"
  | iterations => "'<' not supported between instances of 'list' and 'int'"
  | shareNumber => "'<=' not supported between instances of 'int' and 'list'"
  | secret => "'list' object has no attribute 'strip'"
  | messageText => "'list' object has no attribute 'encode'"
  | signatureText => "argument should be a bytes-like object or ASCII string, not 'list'"

def Misuse.message : Misuse -> String
  | setting flaw => flaw.message
  | shareSize size => s!"Key share must be exactly 33 bytes, got {size}"
  | bufferSize expected got => s!"Secret length mismatch: expected {expected}, got {got}"
  | negativeSize => "negative count"
  | sizeWidth => "cannot fit 'int' into an index-sized integer"
  | sizeAtHand => ""
  | byteList flaw => flaw.message
  | emptyName path => s!"PosixPath({Text.quoted path}) has an empty name"
  | nullInPath => "embedded null byte"
  | numberTooLong digits => (Json.Refusal.tooLong digits).message
  | nestedTooDeep bracket => (Json.Refusal.tooDeep bracket).message
  | noValue use => use.message
  | notText => "Input must be a string"
  | unsized typeName => s!"object of type '{typeName}' has no len()"
  | outsideTable => "list index out of range"
  | divisionByZero => "Division by zero in GF(256)"
  | width w => w.message
  | wideNumber => "argument out of range"
  | encoding flaw => flaw.message
  | system cause => cause.message

def Fault.message : Fault -> String
  | request cause => cause.message
  | base58 cause => cause.message
  | file cause => cause.message
  | malformed cause => cause.message
  | sealed cause => cause.message
  | derivation cause => s!"Failed to hash password: {cause.message}"
  | fewShares present needed =>
    s!"not enough key shares to recover key: have {present}, need {needed}"
  | incongruent => "Shards are not congruent"
  | combination cause => s!"Failed to combine key shares: {cause.message}"
  | wordCount count => s!"invalid word count: {count}, only 12 or 24 words supported"
  | unknownWord word => s!"no such word: {word}"
  | phraseChecksum => "Checksum failed. Invalid seed phrase"
  | entropyLength length => s!"Incorrect entropy length: {length}"
  | shortRandom got expected => s!"Random source returned {got} bytes, expected {expected}"
  | misuse cause => cause.message
  | unabsorbed _ cause => cause.message

/-!
# Log
-/

def unrestrictedLine (path : String) : String :=
  let cause := (SystemFault.refused .notPermitted path).message
  s!"Could not restrict permissions on {path}: {cause}"

/-- The line that a fault leaves in the log. Nothing that goes wrong while a further file is read
or taken over is logged for itself. -/
def Fault.logged? : Fault -> Option String
  | derivation _ => some "Password hashing failed"
  | combination .differentSplits => some "Key shares do not belong to the same split"
  | unabsorbed input _ => some s!"Failed to absorb shard {input}"
  | _ => none

end WalletVault
