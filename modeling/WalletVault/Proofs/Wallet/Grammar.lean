import WalletVault.Proofs.Wallet.Layout

/-!
# The grammar of wallet files

A wallet file is a sequence of parts, and the kind alone decides which forms a part may have. The
productions say so without a reader or a writer. The reader accepts exactly the files that they
derive, gives the wallet that they derive with it, and refuses all other byte strings as malformed.
-/

namespace WalletVault

/-!
# Productions
-/

namespace Grammar

/-- The number of a kind, least significant byte first. -/
inductive KindCode : Bytes -> WalletKind -> Prop where
  | basicFirst : KindCode [0x01, 0x00] ⟨false, .first⟩
  | basicSecond : KindCode [0x02, 0x00] ⟨false, .second⟩
  | basicThird : KindCode [0x03, 0x00] ⟨false, .third⟩
  | shardedFirst : KindCode [0x01, 0x01] ⟨true, .first⟩
  | shardedSecond : KindCode [0x02, 0x01] ⟨true, .second⟩
  | shardedThird : KindCode [0x03, 0x01] ⟨true, .third⟩

/-- The byte that selects a password hash. The first generation has none and means PBKDF2. -/
inductive Selector : Generation -> Bytes -> PasswordHash -> Prop where
  | unnamed (params : Pbkdf2Params) : Selector .first [] (.pbkdf2 params)
  | pbkdf2 {generation : Generation} (h : generation ≠ .first) (params : Pbkdf2Params) :
      Selector generation [0x00] (.pbkdf2 params)
  | argon2id {generation : Generation} (h : generation ≠ .first) (params : Argon2idParams) :
      Selector generation [0x01] (.argon2id params)

/-- A count, a threshold and one share. The file of a basic wallet has no such block. -/
inductive ShareBlock : Bool -> Bytes -> PasswordHash -> KeyFormat -> Prop where
  | basic (hash : PasswordHash) : ShareBlock false [] hash (.basic hash)
  | sharded (hash : PasswordHash) {n k : UInt8} {share : Bytes} (hone : 1 <= k.toNat)
      (hle : k.toNat <= n.toNat) (hshare : share.length = 33) :
      ShareBlock true (n :: k :: share) hash
        (.sharded ⟨hash, ⟨n.toNat, k.toNat, hone, hle, Nat.le_of_lt_succ n.toNat_lt⟩,
          [⟨share, hshare⟩]⟩)

/-- The tag byte before the public key: Ed25519 on the main network or on the test network. The
third generation has none. -/
inductive KeyTagByte : Generation -> Bytes -> Prop where
  | untagged : KeyTagByte .third []
  | mainNetwork {generation : Generation} (h : generation ≠ .third) :
      KeyTagByte generation [0x01]
  | testNetwork {generation : Generation} (h : generation ≠ .third) :
      KeyTagByte generation [0x11]

/-- A salt and the work factors: twelve bytes for PBKDF2, twenty-four for Argon2id. -/
inductive Parameters : Bytes -> PasswordHash -> Prop where
  | pbkdf2 {salt iterations : Bytes} (hsalt : salt.length = 8)
      (hiterations : iterations.length = 4) :
      Parameters (salt ++ iterations) (.pbkdf2 ⟨salt, Bytes.toNatLE iterations, hsalt⟩)
  | argon2id {salt memory passes : Bytes} (hsalt : salt.length = 16)
      (hmemory : memory.length = 4) (hpasses : passes.length = 4) :
      Parameters (salt ++ memory ++ passes)
        (.argon2id ⟨salt, Bytes.toNatLE memory, Bytes.toNatLE passes, hsalt⟩)

/-- A whole file and the wallet whose fields are its parts. -/
inductive File : Bytes -> Wallet -> Prop where
  | parts {kind : WalletKind} {hash : PasswordHash} {format : KeyFormat}
      {code selector block keyTag publicKey iv parameters tag encrypted : Bytes}
      (hcode : KindCode code kind)
      (hselector : Selector kind.generation selector hash)
      (hblock : ShareBlock kind.sharded block hash format)
      (hkeyTag : KeyTagByte kind.generation keyTag)
      (hpublicKey : publicKey.length = 32)
      (hiv : iv.length = 12)
      (hparameters : Parameters parameters hash)
      (htag : tag.length = 16) :
      File
        (code ++ selector ++ block ++ keyTag ++ publicKey ++ iv ++ parameters ++ tag ++ encrypted)
        { publicKey, iv, tag, encrypted, format, kind := Bytes.toNatLE code }

/-!
# Parts of a file

Each production derives the bytes that the layout of files has in its place, under the conditions
that make a wallet fit its kind.
-/

theorem kindCode_iff {code : Bytes} {kind : WalletKind} :
    KindCode code kind <-> code = Bytes.ofNatLE 2 kind.tag := by
  constructor
  · intro h
    cases h <;> rfl
  · intro h
    rw [h]
    rcases kind with ⟨sharded, generation⟩
    cases sharded <;> cases generation <;> constructor

theorem toNatLE_of_kindCode {code : Bytes} {kind : WalletKind} (h : KindCode code kind) :
    Bytes.toNatLE code = kind.tag := by
  cases h <;> rfl

theorem selector_iff {kind : WalletKind} {selector : Bytes} {hash : PasswordHash} :
    Selector kind.generation selector hash <->
      (kind.hasSelector = false -> hash.selector = 0) ∧
        selector = if kind.hasSelector then [UInt8.ofNat hash.selector] else [] := by
  rcases kind with ⟨sharded, generation⟩
  constructor
  · intro h
    cases h with
    | unnamed params =>
        exact ⟨fun _ => rfl, rfl⟩
    | pbkdf2 hnamed params =>
        simp [WalletKind.hasSelector, hnamed, PasswordHash.selector]
    | argon2id hnamed params =>
        simp [WalletKind.hasSelector, hnamed, PasswordHash.selector]
  · intro h
    rcases h with ⟨hzero, hbytes⟩
    rw [hbytes]
    by_cases hfirst : generation = .first
    · subst hfirst
      cases hash with
      | pbkdf2 params =>
          exact Selector.unnamed params
      | argon2id params =>
          cases hzero rfl
    · have hnamed : WalletKind.hasSelector ⟨sharded, generation⟩ = true := by
        simp [WalletKind.hasSelector, hfirst]
      rw [if_pos hnamed]
      cases hash with
      | pbkdf2 params =>
          exact Selector.pbkdf2 hfirst params
      | argon2id params =>
          exact Selector.argon2id hfirst params

theorem shareBlock_iff {sharded : Bool} {block : Bytes} {hash : PasswordHash}
    {format : KeyFormat} :
    ShareBlock sharded block hash format <->
      (format.isSharded = sharded ∧ format.hash = hash ∧ format.Single) ∧
        block = format.block := by
  constructor
  · intro h
    cases h with
    | basic =>
        exact ⟨⟨rfl, rfl, trivial⟩, rfl⟩
    | sharded _ hone hle hshare =>
        refine ⟨⟨rfl, rfl, rfl⟩, ?_⟩
        simp [KeyFormat.block, ShareRule.block]
  · intro h
    rcases h with ⟨⟨hsharded, hhash, hsingle⟩, hblock⟩
    cases format with
    | basic hash' =>
        cases hsharded
        cases hhash
        rw [hblock]
        exact ShareBlock.basic _
    | sharded format =>
        rcases format with ⟨hash', rule, shares⟩
        rcases List.length_eq_one_iff.mp hsingle with ⟨share, hshares⟩
        cases hshares
        cases hsharded
        cases hhash
        rcases rule with ⟨count, threshold, hone, hle, hcount⟩
        have hcountByte : (UInt8.ofNat count).toNat = count := by
          rw [UInt8.toNat_ofNat']
          exact Nat.mod_eq_of_lt (by omega)
        have hthresholdByte : (UInt8.ofNat threshold).toNat = threshold := by
          rw [UInt8.toNat_ofNat']
          exact Nat.mod_eq_of_lt (by omega)
        have hderived := ShareBlock.sharded hash' (n := UInt8.ofNat count)
          (k := UInt8.ofNat threshold) (by omega) (by omega) share.length_data
        simp only [hcountByte, hthresholdByte] at hderived
        have hbytes : block = UInt8.ofNat count :: UInt8.ofNat threshold :: share.data := by
          rw [hblock]
          simp [KeyFormat.block, ShareRule.block]
        rw [hbytes]
        exact hderived

theorem known_iff {keyTag : UInt8} : KeyTag.Known keyTag <-> keyTag = 0x01 ∨ keyTag = 0x11 := by
  have hsmall := keyTag.toNat_lt
  have hmain : keyTag = 0x01 <-> keyTag.toNat = 1 := UInt8.toNat_inj.symm
  have htest : keyTag = 0x11 <-> keyTag.toNat = 17 := UInt8.toNat_inj.symm
  rw [hmain, htest]
  constructor
  · intro h
    rcases h with ⟨type, htype⟩
    unfold KeyTag.keyType at htype
    dsimp only at htype
    split at htype
    · cases htype
    · split at htype
      · omega
      · split at htype <;> cases htype
  · intro h
    rcases h with hmain | htest
    · exact ⟨1, by rw [hmain]; rfl⟩
    · exact ⟨1, by rw [htest]; rfl⟩

theorem keyTagByte_iff {kind : WalletKind} {bytes : Bytes} :
    KeyTagByte kind.generation bytes <->
      exists keyTag, (kind.taggedKey = true -> KeyTag.Known keyTag) ∧
        bytes = if kind.taggedKey then [keyTag] else [] := by
  rcases kind with ⟨sharded, generation⟩
  constructor
  · intro h
    cases h with
    | untagged =>
        exact ⟨KeyTag.current, fun _ => known_iff.mpr (Or.inl rfl), rfl⟩
    | mainNetwork htagged =>
        refine ⟨0x01, fun _ => known_iff.mpr (Or.inl rfl), ?_⟩
        simp [WalletKind.taggedKey, htagged]
    | testNetwork htagged =>
        refine ⟨0x11, fun _ => known_iff.mpr (Or.inr rfl), ?_⟩
        simp [WalletKind.taggedKey, htagged]
  · intro h
    rcases h with ⟨keyTag, hknown, hbytes⟩
    rw [hbytes]
    by_cases hthird : generation = .third
    · subst hthird
      exact KeyTagByte.untagged
    · have htagged : WalletKind.taggedKey ⟨sharded, generation⟩ = true := by
        simp [WalletKind.taggedKey, hthird]
      rw [if_pos htagged]
      rcases known_iff.mp (hknown htagged) with hmain | htest
      · rw [hmain]
        exact KeyTagByte.mainNetwork hthird
      · rw [htest]
        exact KeyTagByte.testNetwork hthird

theorem ofNatLE_toNatLE_four {field : Bytes} (h : field.length = 4) :
    Bytes.ofNatLE 4 (Bytes.toNatLE field) = field ∧ Bytes.toNatLE field < 2 ^ 32 := by
  have hlt := Bytes.toNatLE_lt field
  have hsame := Bytes.ofNatLE_toNatLE field
  rw [h] at hlt hsame
  exact ⟨hsame, hlt⟩

theorem toNatLE_ofNatLE_four {n : Int} (hnonneg : 0 <= n) (hlt : n < 2 ^ 32) :
    (Bytes.toNatLE (Bytes.ofNatLE 4 n.toNat) : Int) = n := by
  rw [Bytes.toNatLE_ofNatLE, Nat.mod_eq_of_lt (by omega)]
  exact Int.toNat_of_nonneg hnonneg

theorem parameters_iff {parameters : Bytes} {hash : PasswordHash} :
    Parameters parameters hash <-> hash.Fits ∧ parameters = hash.block := by
  constructor
  · intro h
    cases h with
    | pbkdf2 hsalt hiterations =>
        rcases ofNatLE_toNatLE_four hiterations with ⟨hsame, hlt⟩
        refine ⟨⟨by simp, by simpa using hlt⟩, ?_⟩
        rw [PasswordHash.block, Int.toNat_natCast, hsame]
    | argon2id hsalt hmemory hpasses =>
        rcases ofNatLE_toNatLE_four hmemory with ⟨hsameMemory, hltMemory⟩
        rcases ofNatLE_toNatLE_four hpasses with ⟨hsamePasses, hltPasses⟩
        refine ⟨⟨⟨by simp, by simpa using hltMemory⟩, ⟨by simp, by simpa using hltPasses⟩⟩, ?_⟩
        rw [PasswordHash.block, Int.toNat_natCast, Int.toNat_natCast, hsameMemory, hsamePasses]
  · intro h
    rcases h with ⟨hfits, hparameters⟩
    rw [hparameters]
    cases hash with
    | pbkdf2 params =>
        have hderived := Parameters.pbkdf2 params.length_salt
          (Bytes.length_ofNatLE 4 params.iterations.toNat)
        simp only [toNatLE_ofNatLE_four hfits.1 hfits.2] at hderived
        exact hderived
    | argon2id params =>
        have hderived := Parameters.argon2id params.length_salt
          (Bytes.length_ofNatLE 4 params.memory.toNat) (Bytes.length_ofNatLE 4 params.passes.toNat)
        simp only [toNatLE_ofNatLE_four hfits.1.1 hfits.1.2,
          toNatLE_ofNatLE_four hfits.2.1 hfits.2.2] at hderived
        exact hderived

/-- The grammar derives a file just in case it is laid out from the fields of the wallet. -/
theorem file_iff {data : Bytes} {wallet : Wallet} :
    File data wallet <->
      exists kind keyTag, Wallet.Fits kind wallet ∧
        (kind.taggedKey = true -> KeyTag.Known keyTag) ∧
          Wallet.layout kind keyTag wallet = .ok data := by
  constructor
  · intro h
    cases h with
    | @parts kind hash format code selector block keyTagBytes publicKey iv parameters tag encrypted
        hcode hselector hblock hkeyTag hpublicKey hiv hparameters htag =>
        rcases selector_iff.mp hselector with ⟨hzero, hselectorBytes⟩
        rcases shareBlock_iff.mp hblock with ⟨⟨hsharded, hhash, hsingle⟩, hblockBytes⟩
        rcases keyTagByte_iff.mp hkeyTag with ⟨keyTag, hknown, hkeyTagBytes⟩
        rcases parameters_iff.mp hparameters with ⟨hfits, hparameterBytes⟩
        subst hhash
        refine ⟨kind, keyTag, ?_, hknown, ?_⟩
        · constructor
          · exact congrArg Int.ofNat (toNatLE_of_kindCode hcode)
          · exact hsharded
          · exact hsingle
          · exact hfits
          · exact hzero
          · exact hpublicKey
          · exact hiv
          · exact htag
        · apply Wallet.layout_eq_ok.mpr
          refine ⟨⟨hsingle, hfits⟩, ?_⟩
          rw [kindCode_iff.mp hcode, hselectorBytes, hblockBytes, hkeyTagBytes, hparameterBytes]
          rfl
  · intro h
    rcases h with ⟨kind, keyTag, hfits, hknown, hlayout⟩
    rcases Wallet.layout_eq_ok.mp hlayout with ⟨_, hdata⟩
    rcases wallet with ⟨publicKey, iv, tag, encrypted, format, number⟩
    have hcode : KindCode (Bytes.ofNatLE 2 kind.tag) kind := kindCode_iff.mpr rfl
    have hnumber : number = Bytes.toNatLE (Bytes.ofNatLE 2 kind.tag) := by
      rw [toNatLE_of_kindCode hcode]
      exact hfits.kind_eq
    rw [hdata, hnumber]
    exact File.parts hcode (selector_iff.mpr ⟨hfits.selector_eq, rfl⟩)
      (shareBlock_iff.mpr ⟨⟨hfits.isSharded_eq, rfl, hfits.single⟩, rfl⟩)
      (keyTagByte_iff.mpr ⟨keyTag, hknown, rfl⟩) hfits.length_publicKey hfits.length_iv
      (parameters_iff.mpr ⟨hfits.hash_fits, rfl⟩) hfits.length_tag

end Grammar

/-!
# Refusals

Every reader of a part refuses a byte string as malformed or not at all. The checks of the size of
a salt or a share come after exactly as many bytes were read.
-/

def Fault.IsMalformed (fault : Fault) : Prop :=
  exists cause, fault = .malformed cause

namespace Wire

open WalletVault.Computation

theorem exact_refuses {size : Int} (hsize : Bytes.isSize size = true) (input : Bytes) :
    FailsWith Fault.IsMalformed (exact size input).1 := by
  rcases exists_gets size input with ⟨result, piece, rest, hexact, _, hgets⟩
  rw [hexact]
  cases hgets with
  | enough =>
      exact failsWith_ok _
  | short =>
      exact failsWith_error ⟨_, rfl⟩
  | refused _ hnone =>
      exact absurd (hsize.symm.trans hnone) Bool.noConfusion

theorem number_refuses {width : Nat} (hwidth : Bytes.isSize width = true) (input : Bytes) :
    FailsWith Fault.IsMalformed (number width input).1 :=
  failsWith_bind_apply (exact_refuses hwidth input) (fun _ _ _ => failsWith_ok _)

end Wire

open WalletVault.Computation

theorem WalletKind.ofTag_refuses (tag : Int) : FailsWith Fault.IsMalformed (ofTag tag) := by
  unfold ofTag
  split
  · exact failsWith_ok _
  · exact failsWith_error ⟨_, rfl⟩

theorem KeyTag.keyType_refuses (tag : Int) : FailsWith Fault.IsMalformed (keyType tag) := by
  unfold keyType
  dsimp only
  split
  · exact failsWith_error ⟨_, rfl⟩
  · split
    · exact failsWith_ok _
    · split <;> exact failsWith_error ⟨_, rfl⟩

namespace PasswordHash

theorem ofSelector_refuses (tag : Nat) : FailsWith Fault.IsMalformed (ofSelector tag) := by
  unfold ofSelector
  split
  · exact failsWith_ok _
  · exact failsWith_ok _
  · exact failsWith_error ⟨_, rfl⟩

theorem readSelector_refuses (input : Bytes) :
    FailsWith Fault.IsMalformed (readSelector input).1 :=
  failsWith_bind_apply (Wire.number_refuses (by decide) input)
    (fun tag _ _ => ofSelector_refuses tag)

theorem read_refuses (selected : PasswordHash) (input : Bytes) :
    FailsWith Fault.IsMalformed (read selected input).1 := by
  cases selected with
  | pbkdf2 params =>
      refine failsWith_bind_apply (Wire.exact_refuses (by decide) input) ?_
      intro salt afterSalt hsalt
      refine failsWith_bind_apply (Wire.number_refuses (by decide) afterSalt) ?_
      intro iterations rest _
      refine failsWith_bind_apply ?_ (fun _ _ _ => failsWith_ok _)
      have hlength : salt.length = 8 := by
        exact_mod_cast ((Wire.exact_eq_ok (by decide)).mp hsalt).2
      rw [mk_apply, Pbkdf2Params.make, dif_pos hlength]
      exact failsWith_ok _
  | argon2id params =>
      refine failsWith_bind_apply (Wire.exact_refuses (by decide) input) ?_
      intro salt afterSalt hsalt
      refine failsWith_bind_apply (Wire.number_refuses (by decide) afterSalt) ?_
      intro memory afterMemory _
      refine failsWith_bind_apply (Wire.number_refuses (by decide) afterMemory) ?_
      intro passes rest _
      refine failsWith_bind_apply ?_ (fun _ _ _ => failsWith_ok _)
      have hlength : salt.length = 16 := by
        exact_mod_cast ((Wire.exact_eq_ok (by decide)).mp hsalt).2
      rw [mk_apply, Argon2idParams.make, dif_pos hlength]
      exact failsWith_ok _

end PasswordHash

theorem ShareRule.read_refuses (input : Bytes) : FailsWith Fault.IsMalformed (read input).1 := by
  refine failsWith_bind_apply (Wire.number_refuses (by decide) input) ?_
  intro count afterCount _
  refine failsWith_bind_apply (Wire.number_refuses (by decide) afterCount) ?_
  intro threshold rest _
  rcases make count threshold with cause | rule
  · exact failsWith_error ⟨.shards cause, rfl⟩
  · exact failsWith_ok rule

theorem KeyShare.read_refuses (input : Bytes) :
    FailsWith Fault.IsMalformed (KeyShare.read input).1 := by
  refine failsWith_bind_apply (Wire.exact_refuses (by decide) input) ?_
  intro data rest hdata
  have hlength : data.length = 33 := by
    exact_mod_cast ((Wire.exact_eq_ok (by decide)).mp hdata).2
  rw [mk_apply, KeyShare.ofBytes, dif_pos hlength]
  exact failsWith_ok _

namespace KeyFormat

theorem reading_refuses {α : Type} {sort : Fault -> Prop} {action : Wire.Reader α}
    {intake : Intake} (h : FailsWith sort (action intake.rest).1) :
    FailsWith sort (reading action intake).1 := by
  have hresult : (reading action intake).1 = (action intake.rest).1 := by
    unfold reading
    rcases action intake.rest with ⟨result, rest⟩
    rfl
  rw [hresult]
  exact h

theorem readInto_refuses (intake : Intake) :
    FailsWith Fault.IsMalformed (readInto intake).1 := by
  refine failsWith_bind_apply (failsWith_ok intake) ?_
  intro _ _ hget
  cases hget
  rcases intake with ⟨format, input⟩
  cases format with
  | basic hash =>
      exact failsWith_ok ()
  | sharded format =>
      refine failsWith_bind_apply (reading_refuses (ShareRule.read_refuses input)) ?_
      intro rule withRule _
      refine failsWith_bind_apply (failsWith_ok PUnit.unit) ?_
      intro _ filled _
      refine failsWith_bind_apply (reading_refuses (KeyShare.read_refuses filled.rest)) ?_
      intro share withShare _
      exact failsWith_ok PUnit.unit

theorem read_refuses (format : KeyFormat) (input : Bytes) :
    FailsWith Fault.IsMalformed (read format input).1 :=
  failsWith_map (fun _ => (readInto ⟨format, input⟩).2.format) (readInto_refuses ⟨format, input⟩)

end KeyFormat

namespace Wallet

theorem readKind_refuses (input : Bytes) : FailsWith Fault.IsMalformed (readKind input).1 :=
  failsWith_bind_apply (Wire.number_refuses (by decide) input)
    (fun tag _ _ => WalletKind.ofTag_refuses tag)

theorem readSelected_refuses (kind : WalletKind) (input : Bytes) :
    FailsWith Fault.IsMalformed (readSelected kind input).1 := by
  unfold readSelected
  split
  · exact PasswordHash.readSelector_refuses input
  · exact failsWith_ok _

theorem skipKeyTag_refuses (kind : WalletKind) (input : Bytes) :
    FailsWith Fault.IsMalformed (skipKeyTag kind input).1 := by
  unfold skipKeyTag
  split
  · refine failsWith_bind_apply (Wire.number_refuses (by decide) input) ?_
    intro tag rest _
    exact failsWith_bind_apply (KeyTag.keyType_refuses tag) (fun _ _ _ => failsWith_ok _)
  · exact failsWith_ok ()

theorem read_refuses (data : Bytes) : FailsWith Fault.IsMalformed (read data) := by
  unfold read
  rw [reader_eq]
  refine failsWith_bind_apply (readKind_refuses data) ?_
  intro kind afterKind _
  refine failsWith_bind_apply (readSelected_refuses kind afterKind) ?_
  intro hash afterSelector _
  refine failsWith_bind_apply (KeyFormat.read_refuses _ afterSelector) ?_
  intro format afterBlock _
  refine failsWith_bind_apply (skipKeyTag_refuses kind afterBlock) ?_
  intro _ afterKeyTag _
  refine failsWith_bind_apply (Wire.exact_refuses (by decide) afterKeyTag) ?_
  intro publicKey afterPublicKey _
  refine failsWith_bind_apply (Wire.exact_refuses (by decide) afterPublicKey) ?_
  intro iv afterIv _
  refine failsWith_bind_apply (PasswordHash.read_refuses hash afterIv) ?_
  intro params afterParams _
  refine failsWith_bind_apply (Wire.exact_refuses (by decide) afterParams) ?_
  intro tag afterTag _
  exact failsWith_bind_apply (failsWith_ok afterTag) (fun _ _ _ => failsWith_ok _)

/-- A byte string is read to exactly the wallet that the grammar derives with it, and refused as
malformed if there is none. -/
theorem read_accepts_grammar (data : Bytes) :
    (forall wallet, read data = .ok wallet <-> Grammar.File data wallet) ∧
      ((exists wallet, read data = .ok wallet) ∨
        exists cause, read data = .error (.malformed cause)) := by
  constructor
  · intro wallet
    rw [read_eq_ok, Grammar.file_iff]
  · rcases hread : read data with fault | wallet
    · rcases read_refuses data fault hread with ⟨cause, hcause⟩
      exact Or.inr ⟨cause, by rw [hcause]⟩
    · exact Or.inl ⟨wallet, rfl⟩

end Wallet
end WalletVault
