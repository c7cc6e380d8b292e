import WalletVault.Proofs.Session.Shelf
import WalletVault.Proofs.Wallet.Attempts
import WalletVault.Proofs.Wallet.Grammar

/-!
# What a step does to the formats

A format is changed in three ways: by deriving a key from a format that awaits its shares, by
absorbing, and by reading a block into it. Its hash stays, and further shares come behind those that
it holds; its rule stays too, unless a block is read. Each step does this to one format at most and
leaves all others alone.
-/

namespace WalletVault

open WalletVault.Computation

/-!
# Faults about shards
-/

def Fault.OfShards (fault : Fault) : Prop :=
  fault = .incongruent ∨ fault = .request .notSharded

abbrev Computation.SparesShards {α : Type} (result : Except Fault α) : Prop :=
  FailsWith (fun fault => ¬ fault.OfShards) result

theorem Password.sparesShards_toBytes (password : Password) : SparesShards password.toBytes := by
  cases password with
  | text value => exact failsWith_ok _
  | broken value => exact failsWith_error (by simp [Fault.OfShards])
  | bytes value => exact failsWith_ok _
  | absent => exact failsWith_error (by simp [Fault.OfShards])
  | sized length => exact failsWith_error (by simp [Fault.OfShards])
  | unsized typeName => exact failsWith_error (by simp [Fault.OfShards])

theorem Password.sparesShards_validate (label : String) (password : Password) :
    SparesShards (password.validate label) := by
  have hempty : forall c : Prop, [Decidable c] ->
      SparesShards (if c then .error (.request (.passwordEmpty label)) else .ok ()) := by
    intro c _
    split
    · exact failsWith_error (by simp [Fault.OfShards])
    · exact failsWith_ok _
  cases password with
  | absent => exact failsWith_error (by simp [Fault.OfShards])
  | unsized typeName => exact failsWith_error (by simp [Fault.OfShards])
  | text value => exact hempty (value.isEmpty = true)
  | broken value => exact failsWith_ok _
  | bytes value => exact hempty (value.isEmpty = true)
  | sized length => exact hempty (length = 0)

theorem PasswordHash.sparesShards_derive [Suite] (hash : PasswordHash) (password : Password) :
    SparesShards (hash.derive password) := by
  have hpassword := password.sparesShards_toBytes
  unfold derive
  split
  · rename_i fault hfault
    exact failsWith_error (hpassword fault hfault)
  · split
    · split
      · exact failsWith_error (by simp [Fault.OfShards])
      · exact failsWith_ok _
    · split
      · exact failsWith_error (by simp [Fault.OfShards])
      · exact failsWith_ok _

theorem sparesShards_draw (size : Nat) (source : RandomSource) :
    SparesShards (draw size source).1 := by
  unfold draw
  dsimp only
  split
  · exact failsWith_ok _
  · exact failsWith_error (by simp [Fault.OfShards])

theorem Aead.sparesShards_encrypt [Suite] (key iv plaintext aad : Bytes) :
    SparesShards (Aead.encrypt key iv plaintext aad) := by
  unfold Aead.encrypt Aead.checkSizes
  split
  · rename_i fault hfault
    split at hfault
    · cases hfault
      exact failsWith_error (by simp [Fault.OfShards])
    · split at hfault
      · cases hfault
        exact failsWith_error (by simp [Fault.OfShards])
      · cases hfault
  · exact failsWith_ok _

theorem Fault.IsMalformed.not_ofShards {fault : Fault} (h : fault.IsMalformed) :
    ¬ fault.OfShards := by
  rcases h with ⟨cause, hcause⟩
  simp [hcause, Fault.OfShards]

/-!
# How a format grows
-/

namespace KeyFormat

/-- The same hash, with further shares behind those that were there. The rule is the same unless a
block was read. -/
inductive Grown (read : Prop) : KeyFormat -> KeyFormat -> Prop
  | basic (hash : PasswordHash) : Grown read (basic hash) (basic hash)
  | sharded (hash : PasswordHash) (rule : ShareRule) (shares : List KeyShare) (rule' : ShareRule)
      (more : List KeyShare) (hrule : ¬ read -> rule' = rule) :
      Grown read (sharded ⟨hash, rule, shares⟩) (sharded ⟨hash, rule', shares ++ more⟩)

theorem Grown.refl (read : Prop) (format : KeyFormat) : Grown read format format := by
  cases format with
  | basic hash =>
      exact .basic hash
  | sharded format =>
      have h : Grown read (.sharded format)
          (.sharded ⟨format.hash, format.rule, format.shares ++ []⟩) :=
        .sharded format.hash format.rule format.shares format.rule [] (fun _ => rfl)
      rwa [List.append_nil] at h

theorem Grown.mono {read read' : Prop} {format last : KeyFormat} (h : Grown read format last)
    (hread : read -> read') : Grown read' format last := by
  cases h with
  | basic hash =>
      exact .basic hash
  | sharded hash rule shares rule' more hrule =>
      exact .sharded hash rule shares rule' more (fun hnone => hrule (fun h => hnone (hread h)))

theorem Grown.trans {read read' : Prop} {format middle last : KeyFormat}
    (h : Grown read format middle) (h' : Grown read' middle last) :
    Grown (read ∨ read') format last := by
  cases h with
  | basic hash =>
      cases h'
      exact .basic hash
  | sharded hash rule shares rule' more hrule =>
      cases h' with
      | sharded _ _ _ rule'' more' hrule' =>
          rw [List.append_assoc]
          refine .sharded hash rule shares rule'' (more ++ more') ?_
          intro hnone
          rw [hrule' (fun hread => hnone (Or.inr hread)), hrule (fun hread => hnone (Or.inl hread))]

/-- A sharded format without shares, which makes them when it first derives a key. -/
def Awaiting (format : KeyFormat) : Prop :=
  exists hash rule, format = sharded ⟨hash, rule, []⟩

theorem Dealt.grown {hash : PasswordHash} {rule : ShareRule} {format : KeyFormat}
    (h : Dealt hash rule format) (read : Prop) : Grown read (sharded ⟨hash, rule, []⟩) format := by
  cases h with
  | none =>
      exact .refl read _
  | all randomness hsecret =>
      exact .sharded hash rule [] rule _ (fun _ => rfl)

section Deriving

variable [Suite]

/-- Deriving a key changes a format only if it awaits its shares and may make them. -/
theorem format_deriveKey_eq {format : KeyFormat} {create : Bool}
    (h : ¬ (create = true ∧ format.Awaiting)) (password : Password) (random : RandomSource) :
    (deriveKey password create ⟨format, random⟩).2.format = format := by
  cases format with
  | basic hash =>
      rw [deriveKey_basic]
  | sharded format =>
      by_cases hheld : format.shares = []
      · rcases format with ⟨hash, rule, shares⟩
        cases hheld
        cases create with
        | false =>
            rfl
        | true =>
            exact absurd ⟨rfl, hash, rule, rfl⟩ h
      · exact format_deriveKey_held hheld password create random

theorem grown_deriveKey (format : KeyFormat) (password : Password) (create : Bool)
    (random : RandomSource) (read : Prop) :
    Grown read format (deriveKey password create ⟨format, random⟩).2.format := by
  by_cases hchange : create = true ∧ format.Awaiting
  · rcases hchange with ⟨_, hash, rule, hformat⟩
    rw [hformat]
    exact (Dealt.none.deriveKey password create random).grown read
  · rw [format_deriveKey_eq hchange]
    exact .refl read format

theorem sparesShards_deriveKey {format : KeyFormat} (h : format.Awaiting) (password : Password)
    (random : RandomSource) :
    SparesShards (deriveKey password true ⟨format, random⟩).1 := by
  rcases h with ⟨hash, rule, hformat⟩
  rw [hformat]
  rcases hdraw : draw 32 random with ⟨outcome, withSecret⟩
  have hspares := sparesShards_draw 32 random
  rw [hdraw] at hspares
  cases outcome with
  | error fault =>
      rw [deriveKey_of_short password hdraw]
      exact hspares
  | ok secret =>
      rw [deriveKey_of_secret password (draw_eq_ok hdraw).1 hdraw]
      have hspares' := sparesShards_draw (32 * (rule.threshold - 1)) withSecret
      rcases hsplit : draw (32 * (rule.threshold - 1)) withSecret with
        ⟨fault | randomness, withShares⟩
      · rw [hsplit] at hspares'
        exact failsWith_error (hspares' fault rfl)
      · exact failsWith_map _ (hash.sparesShards_derive password)

theorem sparesShards_encrypt {format : KeyFormat} (h : format.Awaiting) (key : SigningKey)
    (password : Password) (random : RandomSource) :
    SparesShards (Wallet.encrypt key password ⟨format, random⟩).1 := by
  unfold Wallet.encrypt
  refine failsWith_bind_apply (sparesShards_deriveKey h password random) ?_
  intro secret withKey _
  refine failsWith_bind_apply (sparesShards_draw 12 withKey.random) ?_
  intro iv withNonce _
  refine failsWith_bind_apply (Aead.sparesShards_encrypt _ _ _ _) ?_
  intro sealing withSealing _
  exact failsWith_ok _

/-- The most that an action does to the format it works on is to make the shares that it awaits. -/
structure Deals {α : Type} (action : Working α) : Prop where
  grown : forall format random read, Grown read format (action ⟨format, random⟩).2.format
  format_eq : forall format random, ¬ format.Awaiting ->
    (action ⟨format, random⟩).2.format = format
  sparesShards : forall format random, format.Awaiting ->
    SparesShards (action ⟨format, random⟩).1

theorem deals_deriveKey (password : Password) : Deals (deriveKey password true) where
  grown format random read := grown_deriveKey format password true random read
  format_eq _ random h := format_deriveKey_eq (fun hcreate => h hcreate.2) password random
  sparesShards _ random h := sparesShards_deriveKey h password random

theorem deals_encrypt (key : SigningKey) (password : Password) :
    Deals (Wallet.encrypt key password) where
  grown format random read := by
    rw [format_encrypt]
    exact (deals_deriveKey password).grown format random read
  format_eq format random h := by
    rw [format_encrypt]
    exact (deals_deriveKey password).format_eq format random h
  sparesShards _ random h := sparesShards_encrypt h key password random

theorem deals_encryptChecked (key : SigningKey) (password : Password) :
    Deals (Keystore.encrypt key password) := by
  have hencrypt := deals_encrypt key password
  have hspares := Password.sparesShards_validate "Password" password
  rcases hvalid : password.validate "Password" with fault | _
  · have hrun : forall bench, Keystore.encrypt key password bench = (.error fault, bench) := by
      intro bench
      rw [Keystore.encrypt, bind_apply, mk_apply, hvalid]
    constructor
    · intro format random read
      rw [hrun]
      exact .refl read format
    · intro format random _
      rw [hrun]
    · intro format random _
      rw [hrun]
      exact failsWith_error (hspares fault hvalid)
  · have hrun : forall bench, Keystore.encrypt key password bench =
        Wallet.encrypt key password bench := by
      intro bench
      exact bind_of_ok (by rw [mk_apply, hvalid])
    constructor
    · intro format random read
      rw [hrun]
      exact hencrypt.grown format random read
    · intro format random h
      rw [hrun]
      exact hencrypt.format_eq format random h
    · intro format random h
      rw [hrun]
      exact hencrypt.sparesShards format random h

end Deriving

/-!
# Reading and absorbing
-/

theorem format_reading {α : Type} (action : Wire.Reader α) (intake : Intake) :
    (reading action intake).2.format = intake.format := rfl

theorem grown_readInto (format : KeyFormat) (data : Bytes) :
    Grown True format (readInto ⟨format, data⟩).2.format := by
  rw [readInto, bind_of_ok (get_apply _)]
  cases format with
  | basic hash =>
      exact .basic hash
  | sharded format =>
      have hgrown : forall rule more, Grown True (sharded format)
          (sharded { format with rule, shares := format.shares ++ more }) :=
        fun rule more => .sharded format.hash format.rule format.shares rule more
          (fun hnone => absurd trivial hnone)
      dsimp only
      rw [bind_apply]
      rcases hrule : reading ShareRule.read ⟨sharded format, data⟩ with ⟨fault | rule, withRule⟩
      · have hformat := congrArg (fun run => run.2.format) hrule
        rw [format_reading] at hformat
        rw [← hformat]
        exact .refl True _
      · dsimp only
        rw [bind_of_ok (modify_apply _ _), bind_apply]
        rcases hshare : reading KeyShare.read
          { withRule with format := sharded { format with rule } } with ⟨fault | share, withShare⟩
        · have hformat := congrArg (fun run => run.2.format) hshare
          rw [format_reading] at hformat
          rw [← hformat]
          have hempty := hgrown rule []
          rwa [List.append_nil] at hempty
        · exact hgrown rule [share]

theorem grown_absorb {format other merged : ShardedFormat}
    (h : format.absorb other = .ok merged) (read : Prop) :
    Grown read (sharded format) (sharded merged) := by
  rw [(ShardedFormat.absorb_eq_ok.mp h).2]
  exact .sharded format.hash format.rule format.shares format.rule other.shares (fun _ => rfl)

end KeyFormat

end WalletVault
