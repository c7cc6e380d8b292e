import WalletVault.Proofs.Wallet.Fields
import WalletVault.Wallet.Codec

/-!
# Layout of wallet files

The reader of all generations accepts exactly the byte strings that are laid
out from a wallet whose fields fit its kind. So a file of the current
generation is written back byte for byte.
-/

namespace WalletVault

theorem WalletKind.ofTag_eq_ok {tag : Int} {kind : WalletKind} :
    ofTag tag = .ok kind <-> tag = kind.tag := by
  constructor
  · intro h
    unfold ofTag at h
    split at h
    · rename_i found hfound
      cases h
      have htag := List.find?_some hfound
      exact (of_decide_eq_true htag).symm
    · cases h
  · intro h
    rw [h]
    rcases kind with ⟨sharded, generation⟩
    cases sharded <;> cases generation <;> rfl

/-- The tag of a key that is accepted before a public key. -/
def KeyTag.Known (keyTag : UInt8) : Prop :=
  exists type, keyType keyTag.toNat = .ok type

namespace Wallet

/-- A file of the given kind has a place for every field of the wallet. -/
structure Fits (kind : WalletKind) (wallet : Wallet) : Prop where
  kind_eq : wallet.kind = kind.tag
  isSharded_eq : wallet.format.isSharded = kind.sharded
  single : wallet.format.Single
  hash_fits : wallet.format.hash.Fits
  selector_eq : kind.hasSelector = false -> wallet.format.hash.selector = 0
  length_publicKey : wallet.publicKey.length = 32
  length_iv : wallet.iv.length = 12
  length_tag : wallet.tag.length = 16

/-!
# Writing
-/

def fields (kind : WalletKind) (keyTag : UInt8) (wallet : Wallet) : Bytes :=
  Bytes.ofNatLE 2 kind.tag ++
    (if kind.hasSelector then [UInt8.ofNat wallet.format.hash.selector] else []) ++
    wallet.format.block ++ (if kind.taggedKey then [keyTag] else []) ++
    wallet.publicKey ++ wallet.iv ++ wallet.format.hash.block ++ wallet.tag ++ wallet.encrypted

theorem layout_eq_ok {kind : WalletKind} {keyTag : UInt8} {wallet : Wallet} {data : Bytes} :
    layout kind keyTag wallet = .ok data <->
      (wallet.format.Single ∧ wallet.format.hash.Fits) ∧ data = fields kind keyTag wallet := by
  unfold layout
  rw [Computation.except_bind_eq_ok]
  constructor
  · intro h
    rcases h with ⟨block, hblock, hnext⟩
    rcases Computation.except_bind_eq_ok.mp hnext with ⟨params, hparams, hdata⟩
    rcases KeyFormat.write_eq_ok.mp hblock with ⟨hsingle, hblock'⟩
    rcases PasswordHash.write_eq_ok.mp hparams with ⟨hfits, hparams'⟩
    cases hdata
    rw [hblock', hparams']
    exact ⟨⟨hsingle, hfits⟩, rfl⟩
  · intro h
    rcases h with ⟨⟨hsingle, hfits⟩, hdata⟩
    rw [hdata]
    refine ⟨_, KeyFormat.write_eq_ok.mpr ⟨hsingle, rfl⟩, ?_⟩
    apply Computation.except_bind_eq_ok.mpr
    exact ⟨_, PasswordHash.write_eq_ok.mpr ⟨hfits, rfl⟩, rfl⟩

theorem layout_of_fits {kind : WalletKind} {wallet : Wallet} (h : Fits kind wallet)
    (keyTag : UInt8) : layout kind keyTag wallet = .ok (fields kind keyTag wallet) :=
  layout_eq_ok.mpr ⟨⟨h.single, h.hash_fits⟩, rfl⟩

/-!
# Reading

The reader is a sequence of fields; the three that depend on the kind are
readers of their own.
-/

def readKind : Wire.Reader WalletKind := do
  ExceptT.mk (pure (WalletKind.ofTag (← Wire.u16)))

def readSelected (kind : WalletKind) : Wire.Reader PasswordHash :=
  if kind.hasSelector then PasswordHash.readSelector
  else pure (.pbkdf2 PasswordHash.blankPbkdf2)

def skipKeyTag (kind : WalletKind) : Wire.Reader Unit :=
  if kind.taggedKey then do
    let _ ← ExceptT.mk (pure (KeyTag.keyType (← Wire.u8)))
  else pure ()

theorem reader_eq : reader = (do
    let kind ← readKind
    let hash ← readSelected kind
    let format ← KeyFormat.read
      (if kind.sharded then .sharded ⟨hash, .standard, []⟩ else .basic hash)
    let _ ← skipKeyTag kind
    let publicKey ← Wire.exact 32
    let iv ← Wire.exact 12
    let hash ← PasswordHash.read hash
    let tag ← Wire.exact 16
    let encrypted ← Wire.toEnd
    pure { publicKey, iv, tag, encrypted, format := format.withHash hash, kind := kind.tag }) := by
  unfold reader readKind readSelected skipKeyTag
  simp only [bind_assoc]
  refine bind_congr (fun tag => ?_)
  refine bind_congr (fun kind => ?_)
  by_cases hselector : kind.hasSelector = true <;>
    by_cases htagged : kind.taggedKey = true <;>
      simp only [hselector, htagged, if_true, if_false, bind_assoc, pure_bind,
        Bool.false_eq_true]

theorem readKind_eq_ok {kind : WalletKind} {input rest : Bytes} :
    readKind input = (.ok kind, rest) <-> input = Bytes.ofNatLE 2 kind.tag ++ rest := by
  rw [readKind, Computation.bind_eq_ok]
  constructor
  · intro h
    rcases h with ⟨tag, _, htag, hkind⟩
    rcases (Wire.number_eq_ok (by decide)).mp htag with ⟨hinput, _⟩
    rcases Prod.mk.inj hkind with ⟨hok, hrest⟩
    have hsame : tag = kind.tag := by exact_mod_cast WalletKind.ofTag_eq_ok.mp hok
    rw [hinput, hsame, hrest]
  · intro hinput
    have hbound : kind.tag < 256 ^ 2 := by
      rcases kind with ⟨sharded, generation⟩
      cases sharded <;> cases generation <;> decide
    refine ⟨kind.tag, rest, (Wire.number_eq_ok (by decide)).mpr ⟨hinput, hbound⟩, ?_⟩
    rw [Computation.mk_apply, WalletKind.ofTag_eq_ok.mpr rfl]

theorem readSelected_eq_ok {kind : WalletKind} {selected : PasswordHash} {input rest : Bytes} :
    readSelected kind input = (.ok selected, rest) <->
      ((kind.hasSelector = false -> selected.selector = 0) ∧
        PasswordHash.ofSelector selected.selector = .ok selected) ∧
        input = (if kind.hasSelector then [UInt8.ofNat selected.selector] else []) ++ rest := by
  unfold readSelected
  by_cases hselector : kind.hasSelector = true
  · simp only [hselector, if_true, Bool.true_eq_false, false_implies, true_and]
    rw [PasswordHash.readSelector_eq_ok, and_comm]
    rfl
  · simp only [hselector, Bool.not_eq_true] at hselector ⊢
    constructor
    · intro h
      cases h
      exact ⟨⟨fun _ => rfl, rfl⟩, rfl⟩
    · intro h
      rcases h with ⟨⟨hzero, hselected⟩, hinput⟩
      rw [hzero hselector] at hselected
      cases hselected
      rw [hinput]
      rfl

theorem skipKeyTag_eq_ok {kind : WalletKind} {input rest : Bytes} :
    skipKeyTag kind input = (.ok (), rest) <->
      exists keyTag, (kind.taggedKey = true -> KeyTag.Known keyTag) ∧
        input = (if kind.taggedKey then [keyTag] else []) ++ rest := by
  unfold skipKeyTag
  by_cases htagged : kind.taggedKey = true
  · simp only [htagged, if_true, true_implies]
    rw [Computation.bind_eq_ok]
    constructor
    · intro h
      rcases h with ⟨tag, _, htag, hnext⟩
      rcases Computation.bind_eq_ok.mp hnext with ⟨type, _, htype, hlast⟩
      cases hlast
      rcases Wire.u8_eq_ok.mp htag with ⟨hinput, hbound⟩
      rcases Prod.mk.inj htype with ⟨hknown, hrest⟩
      refine ⟨UInt8.ofNat tag, ⟨type, ?_⟩, by rw [hinput, hrest]; rfl⟩
      rw [UInt8.toNat_ofNat', Nat.mod_eq_of_lt hbound]
      exact hknown
    · intro h
      rcases h with ⟨keyTag, ⟨type, htype⟩, hinput⟩
      refine ⟨keyTag.toNat, rest, ?_, ?_⟩
      · apply Wire.u8_eq_ok.mpr
        exact ⟨by rw [UInt8.ofNat_toNat, hinput]; rfl, keyTag.toNat_lt⟩
      · apply Computation.bind_eq_ok.mpr
        exact ⟨type, rest, by rw [Computation.mk_apply, htype], rfl⟩
  · simp only [htagged]
    constructor
    · intro h
      cases h
      exact ⟨KeyTag.current, by simp, rfl⟩
    · intro h
      rcases h with ⟨_, _, hinput⟩
      rw [hinput]
      rfl

/-- The format whose block is read: what it holds besides its hash comes from the block. -/
def blankFormat (kind : WalletKind) (selected : PasswordHash) : KeyFormat :=
  if kind.sharded then .sharded ⟨selected, .standard, []⟩ else .basic selected

@[simp] theorem isSharded_blankFormat (kind : WalletKind) (selected : PasswordHash) :
    (blankFormat kind selected).isSharded = kind.sharded := by
  unfold blankFormat
  by_cases h : kind.sharded = true <;> simp [h, KeyFormat.isSharded]

@[simp] theorem hash_blankFormat (kind : WalletKind) (selected : PasswordHash) :
    (blankFormat kind selected).hash = selected := by
  unfold blankFormat
  by_cases h : kind.sharded = true <;> simp [h, KeyFormat.hash]

@[simp] theorem shares_blankFormat (kind : WalletKind) (selected : PasswordHash) :
    (blankFormat kind selected).shares = [] := by
  unfold blankFormat
  by_cases h : kind.sharded = true <;> simp [h, KeyFormat.shares]

theorem fits_of_reader {data rest : Bytes} {wallet : Wallet}
    (h : reader data = (.ok wallet, rest)) :
    exists kind keyTag, Fits kind wallet ∧ (kind.taggedKey = true -> KeyTag.Known keyTag) ∧
      layout kind keyTag wallet = .ok data := by
  rw [reader_eq] at h
  rcases Computation.bind_eq_ok.mp h with ⟨kind, _, hkind, h⟩
  rcases Computation.bind_eq_ok.mp h with ⟨selected, _, hselected, h⟩
  rcases Computation.bind_eq_ok.mp h with ⟨format, _, hformat, h⟩
  rcases Computation.bind_eq_ok.mp h with ⟨_, _, hkeyTag, h⟩
  rcases Computation.bind_eq_ok.mp h with ⟨publicKey, _, hpublicKey, h⟩
  rcases Computation.bind_eq_ok.mp h with ⟨iv, _, hiv, h⟩
  rcases Computation.bind_eq_ok.mp h with ⟨hash, _, hhash, h⟩
  rcases Computation.bind_eq_ok.mp h with ⟨tag, _, htag, h⟩
  rcases Computation.bind_eq_ok.mp h with ⟨encrypted, _, hencrypted, h⟩
  cases hencrypted
  cases h
  have hdata := readKind_eq_ok.mp hkind
  rcases readSelected_eq_ok.mp hselected with ⟨⟨hzero, _⟩, hafterKind⟩
  have hblank : (blankFormat kind selected).shares = [] := shares_blankFormat kind selected
  rcases (KeyFormat.read_eq_ok hblank).mp hformat with
    ⟨⟨hsharded, hformatHash, hsingle⟩, hafterSelector⟩
  rcases skipKeyTag_eq_ok.mp hkeyTag with ⟨keyTag, hknown, hafterBlock⟩
  rcases (Wire.exact_eq_ok (by decide)).mp hpublicKey with ⟨hafterKeyTag, hlengthPublicKey⟩
  rcases (Wire.exact_eq_ok (by decide)).mp hiv with ⟨hafterPublicKey, hlengthIv⟩
  rcases PasswordHash.read_eq_ok.mp hhash with ⟨hselector, hfits, hafterIv⟩
  rcases (Wire.exact_eq_ok (by decide)).mp htag with ⟨hafterHash, hlengthTag⟩
  rw [isSharded_blankFormat] at hsharded
  refine ⟨kind, keyTag, ?_, hknown, ?_⟩
  · constructor
    · rfl
    · simpa using hsharded
    · simpa using hsingle
    · simpa using hfits
    · intro hfirst
      simpa [hselector] using hzero hfirst
    · exact_mod_cast hlengthPublicKey
    · exact_mod_cast hlengthIv
    · exact_mod_cast hlengthTag
  · apply layout_eq_ok.mpr
    refine ⟨⟨by simpa using hsingle, by simpa using hfits⟩, ?_⟩
    rw [hdata, hafterKind, hafterSelector, hafterBlock, hafterKeyTag, hafterPublicKey, hafterIv,
      hafterHash]
    simp [fields, hselector]

theorem reader_of_fits {kind : WalletKind} {keyTag : UInt8} {wallet : Wallet} {data : Bytes}
    (hfits : Fits kind wallet) (hknown : kind.taggedKey = true -> KeyTag.Known keyTag)
    (hlayout : layout kind keyTag wallet = .ok data) :
    reader data = (.ok wallet, []) := by
  rcases layout_eq_ok.mp hlayout with ⟨_, hdata⟩
  rcases wallet.format.hash.ofSelector_selector with ⟨selected, hselected, hselector⟩
  simp only [fields, List.append_assoc] at hdata
  rw [← hselector, ← KeyFormat.block_withHash selected wallet.format] at hdata
  have hchosen : (kind.hasSelector = false -> selected.selector = 0) ∧
      PasswordHash.ofSelector selected.selector = .ok selected := by
    rw [hselector]
    exact ⟨hfits.selector_eq, hselected⟩
  have hblank : (blankFormat kind selected).shares = [] := shares_blankFormat kind selected
  have hfilled : (wallet.format.withHash selected).isSharded =
        (blankFormat kind selected).isSharded ∧
      (wallet.format.withHash selected).hash = (blankFormat kind selected).hash ∧
      (wallet.format.withHash selected).Single := by
    simp [hfits.isSharded_eq, hfits.single]
  rw [reader_eq]
  apply Computation.bind_eq_ok.mpr
  refine ⟨kind, _, readKind_eq_ok.mpr hdata, ?_⟩
  apply Computation.bind_eq_ok.mpr
  refine ⟨selected, _, readSelected_eq_ok.mpr ⟨hchosen, rfl⟩, ?_⟩
  apply Computation.bind_eq_ok.mpr
  refine ⟨wallet.format.withHash selected, _,
    (KeyFormat.read_eq_ok hblank).mpr ⟨hfilled, rfl⟩, ?_⟩
  apply Computation.bind_eq_ok.mpr
  refine ⟨(), _, skipKeyTag_eq_ok.mpr ⟨keyTag, hknown, rfl⟩, ?_⟩
  apply Computation.bind_eq_ok.mpr
  refine ⟨wallet.publicKey, _, (Wire.exact_eq_ok (by decide)).mpr ⟨rfl, ?_⟩, ?_⟩
  · exact_mod_cast hfits.length_publicKey
  apply Computation.bind_eq_ok.mpr
  refine ⟨wallet.iv, _, (Wire.exact_eq_ok (by decide)).mpr ⟨rfl, ?_⟩, ?_⟩
  · exact_mod_cast hfits.length_iv
  apply Computation.bind_eq_ok.mpr
  refine ⟨wallet.format.hash, _, PasswordHash.read_eq_ok.mpr ⟨hselector.symm, hfits.hash_fits, rfl⟩,
    ?_⟩
  apply Computation.bind_eq_ok.mpr
  refine ⟨wallet.tag, _, (Wire.exact_eq_ok (by decide)).mpr ⟨rfl, ?_⟩, ?_⟩
  · exact_mod_cast hfits.length_tag
  apply Computation.bind_eq_ok.mpr
  refine ⟨wallet.encrypted, [], rfl, ?_⟩
  rw [Computation.pure_apply, KeyFormat.withHash_withHash, KeyFormat.withHash_hash,
    ← hfits.kind_eq]

/-- A file is read to a wallet just in case it is laid out from the fields of the wallet. -/
theorem read_eq_ok {data : Bytes} {wallet : Wallet} :
    read data = .ok wallet <->
      exists kind keyTag, Fits kind wallet ∧ (kind.taggedKey = true -> KeyTag.Known keyTag) ∧
        layout kind keyTag wallet = .ok data := by
  constructor
  · intro h
    exact fits_of_reader (Prod.ext h rfl)
  · intro h
    rcases h with ⟨kind, keyTag, hfits, hknown, hlayout⟩
    rw [read, reader_of_fits hfits hknown hlayout]

end Wallet
end WalletVault
