import WalletVault.Hash.Hmac
import WalletVault.Hash.Sha512
import WalletVault.Hash.Argon2id
import WalletVault.Field.Interpolation
import WalletVault.Cipher.Gcm
import WalletVault.Cipher.SecretBox
import WalletVault.Ed25519
import WalletVault.Text.Quoted
import WalletVault.Text.Integer
import WalletVault.Base64
import WalletVault.Json.Reader
import WalletVault.Attempts
import WalletVault.Fault
import WalletVault.Field.Numbered
import WalletVault.Phrase.WordList
import WalletVault.RandomSource
import WalletVault.Base58
import WalletVault.Phrase.Codec
import WalletVault.KeyShare
import WalletVault.PasswordHash
import WalletVault.SigningKey
import WalletVault.SecretBuffer
import WalletVault.Wallet.Codec
import WalletVault.SeedRecord
import WalletVault.Settings
import WalletVault.Files.FileSystem
import WalletVault.Keystore
import WalletVault.Cli.Program
import WalletVault.Session.Run
import WalletVault.Catalogue
import WalletVault.Main
import WalletVault.Proofs.Field.Arithmetic
import WalletVault.Proofs.Field.Polynomial
import WalletVault.Proofs.Computation
import WalletVault.Proofs.Sharing.Splitting
import WalletVault.Proofs.Sharing.Secrecy
import WalletVault.Proofs.Sharing.Recovery
import WalletVault.Proofs.Wire
import WalletVault.Proofs.Wire.Sequences
import WalletVault.Proofs.SecretBuffer
import WalletVault.Proofs.Wallet.Fields
import WalletVault.Proofs.Wallet.Layout
import WalletVault.Proofs.Wallet.Keys
import WalletVault.Proofs.Wallet.Sealing
import WalletVault.Proofs.Wallet.RoundTrip
import WalletVault.Proofs.Wallet.Merging
import WalletVault.Proofs.Wallet.Generations
import WalletVault.Proofs.Files.Entries
import WalletVault.Proofs.Files.Making
import WalletVault.Proofs.Files.Placement
import WalletVault.Proofs.Files.Shards
import WalletVault.Proofs.Files.Paths
import WalletVault.Proofs.Files.Changes
import WalletVault.Proofs.Files.Endings
import WalletVault.Proofs.Keystore.Creation
import WalletVault.Proofs.Keystore.Loading
import WalletVault.Proofs.Keystore.Recovery
import WalletVault.Proofs.Wallet.Grammar
import WalletVault.Proofs.Sharing.Consistency
import WalletVault.Proofs.Sharing.Combining
import WalletVault.Proofs.Wallet.Opening
import WalletVault.Proofs.Keystore.ForeignShards
import WalletVault.Proofs.Keystore.HostileFiles
import WalletVault.Proofs.Files.Numbered
import WalletVault.Proofs.Files.Reported
import WalletVault.Proofs.Files.Interruption
import WalletVault.Proofs.Files.Sparing
import WalletVault.Proofs.Keystore.Calls
import WalletVault.Proofs.Keystore.Upgrade
import WalletVault.Proofs.Digits
import WalletVault.Proofs.Phrase.Words
import WalletVault.Proofs.Phrase.Recovery
import WalletVault.Proofs.Phrase.Canonical
import WalletVault.Proofs.Base64
import WalletVault.Proofs.Keystore.Export
import WalletVault.Proofs.Wallet.Attempts
import WalletVault.Proofs.Session.Shelf
import WalletVault.Proofs.Session.Formats
import WalletVault.Proofs.Session.Steps
import WalletVault.Proofs.Session.Objects
import WalletVault.Proofs.Json.Grammar
import WalletVault.Proofs.Keystore.Refusals
import WalletVault.Proofs.Cli.Outcomes
import WalletVault.Proofs.Files.Contents
import WalletVault.Proofs.Keystore.Copies
import WalletVault.Proofs.Cli.Signatures
import WalletVault.Proofs.Base58.Spelling
import WalletVault.Proofs.Base58.Texts
import WalletVault.Proofs.Base58.Addresses
import WalletVault.Proofs.Phrase.Acceptance
import WalletVault.Proofs.Phrase.Abbreviations
import WalletVault.Proofs.Field.Tables
import WalletVault.Proofs.Field.Exactness
import WalletVault.Proofs.Base64.Acceptance
import WalletVault.Proofs.SeedRecord
import WalletVault.Proofs.Files.Failures
import WalletVault.Proofs.Json.Numbers
import WalletVault.Proofs.Cli.Secrets
