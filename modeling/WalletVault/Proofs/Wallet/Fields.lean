import WalletVault.KeyFormat
import WalletVault.Proofs.Wire

/-!
# Blocks of a wallet file

The password hash stands in a wallet file as a selector byte and a block of
parameters, the format as a rule and one share. Each reader is characterised by
what it consumes: it succeeds exactly on the bytes that its writer gives.
-/

namespace WalletVault

namespace Wire

theorem u8_eq_ok {n : Nat} {input rest : Bytes} :
    u8 input = (.ok n, rest) <-> input = UInt8.ofNat n :: rest ∧ n < 256 := by
  rw [u8, number_eq_ok (by decide), pow_one]
  constructor
  · intro h
    rcases h with ⟨hinput, hn⟩
    rw [hinput, Bytes.ofNatLE, Bytes.ofNatLE, Nat.mod_eq_of_lt hn]
    exact ⟨rfl, hn⟩
  · intro h
    rcases h with ⟨hinput, hn⟩
    rw [hinput, Bytes.ofNatLE, Bytes.ofNatLE, Nat.mod_eq_of_lt hn]
    exact ⟨rfl, hn⟩

end Wire

/-!
# Password hashes
-/

namespace PasswordHash

def Fits : PasswordHash -> Prop
  | pbkdf2 params => 0 <= params.iterations ∧ params.iterations < 2 ^ 32
  | argon2id params =>
      (0 <= params.memory ∧ params.memory < 2 ^ 32) ∧
        (0 <= params.passes ∧ params.passes < 2 ^ 32)

instance (hash : PasswordHash) : Decidable hash.Fits := by
  cases hash <;> unfold Fits <;> infer_instance

/-- The salt, then the work factors in fields of four bytes. -/
def block : PasswordHash -> Bytes
  | pbkdf2 params => params.salt ++ Bytes.ofNatLE 4 params.iterations.toNat
  | argon2id params =>
      params.salt ++ Bytes.ofNatLE 4 params.memory.toNat ++
        Bytes.ofNatLE 4 params.passes.toNat

theorem write_eq_ok {hash : PasswordHash} {data : Bytes} :
    hash.write = .ok data <-> hash.Fits ∧ data = hash.block := by
  cases hash with
  | pbkdf2 params =>
      rw [write, Computation.except_bind_eq_ok]
      constructor
      · intro h
        rcases h with ⟨iterations, hput, hdata⟩
        cases hdata
        rcases Wire.put_u32_eq_ok.mp hput with ⟨hfits, hiterations⟩
        rw [hiterations]
        exact ⟨hfits, rfl⟩
      · intro h
        rcases h with ⟨hfits, hdata⟩
        rw [hdata]
        exact ⟨_, Wire.put_u32_eq_ok.mpr ⟨hfits, rfl⟩, rfl⟩
  | argon2id params =>
      rw [write, Computation.except_bind_eq_ok]
      constructor
      · intro h
        rcases h with ⟨memory, hputMemory, hnext⟩
        rcases Computation.except_bind_eq_ok.mp hnext with ⟨passes, hputPasses, hdata⟩
        cases hdata
        rcases Wire.put_u32_eq_ok.mp hputMemory with ⟨hfitsMemory, hmemory⟩
        rcases Wire.put_u32_eq_ok.mp hputPasses with ⟨hfitsPasses, hpasses⟩
        rw [hmemory, hpasses]
        exact ⟨⟨hfitsMemory, hfitsPasses⟩, rfl⟩
      · intro h
        rcases h with ⟨⟨hfitsMemory, hfitsPasses⟩, hdata⟩
        rw [hdata]
        refine ⟨_, Wire.put_u32_eq_ok.mpr ⟨hfitsMemory, rfl⟩, ?_⟩
        exact Computation.except_bind_eq_ok.mpr
          ⟨_, Wire.put_u32_eq_ok.mpr ⟨hfitsPasses, rfl⟩, rfl⟩

theorem ofSelector_selector (hash : PasswordHash) :
    exists blank, ofSelector hash.selector = .ok blank ∧ blank.selector = hash.selector := by
  cases hash with
  | pbkdf2 params =>
      exact ⟨pbkdf2 blankPbkdf2, rfl, rfl⟩
  | argon2id params =>
      exact ⟨argon2id blankArgon2id, rfl, rfl⟩

theorem selector_of_ofSelector {tag : Nat} {hash : PasswordHash}
    (h : ofSelector tag = .ok hash) : hash.selector = tag := by
  unfold ofSelector at h
  split at h <;> cases h <;> rfl

theorem selector_lt (hash : PasswordHash) : hash.selector < 256 := by
  cases hash with
  | pbkdf2 params =>
      exact Nat.zero_lt_succ 255
  | argon2id params =>
      exact Nat.one_lt_two.trans_le (Nat.le_add_left 2 254)

theorem readSelector_eq_ok {selected : PasswordHash} {input rest : Bytes} :
    readSelector input = (.ok selected, rest) <->
      input = UInt8.ofNat selected.selector :: rest ∧
        ofSelector selected.selector = .ok selected := by
  rw [readSelector, Computation.bind_eq_ok]
  constructor
  · intro h
    rcases h with ⟨tag, middle, htag, hselected⟩
    rcases Wire.u8_eq_ok.mp htag with ⟨hinput, _⟩
    rw [Computation.mk_apply] at hselected
    rcases Prod.mk.inj hselected with ⟨hhash, hrest⟩
    rw [selector_of_ofSelector hhash, hinput, hrest]
    exact ⟨rfl, hhash⟩
  · intro h
    rcases h with ⟨hinput, hselected⟩
    refine ⟨selected.selector, rest, ?_, ?_⟩
    · exact Wire.u8_eq_ok.mpr ⟨hinput, selected.selector_lt⟩
    · rw [Computation.mk_apply, hselected]

theorem readPbkdf2_eq_ok {selected params : Pbkdf2Params} {input rest : Bytes} :
    read (pbkdf2 selected) input = (.ok (pbkdf2 params), rest) <->
      (pbkdf2 params).Fits ∧ input = (pbkdf2 params).block ++ rest := by
  rw [read, Computation.bind_eq_ok]
  constructor
  · intro h
    rcases h with ⟨salt, _, hsalt, hnext⟩
    rcases Computation.bind_eq_ok.mp hnext with ⟨iterations, _, hiterations, hlast⟩
    rcases Computation.bind_eq_ok.mp hlast with ⟨made, _, hmade, hresult⟩
    rcases (Wire.exact_eq_ok (by decide)).mp hsalt with ⟨hinput, hlength⟩
    rcases (Wire.number_eq_ok (by decide)).mp hiterations with ⟨hmiddle, hbound⟩
    have hlength' : salt.length = 8 := by exact_mod_cast hlength
    simp only [Pbkdf2Params.make, hlength', dif_pos] at hmade
    cases hmade
    cases hresult
    refine ⟨⟨by simp, by simpa using hbound⟩, ?_⟩
    rw [hinput, hmiddle, block, Int.toNat_natCast, List.append_assoc]
  · intro h
    rcases h with ⟨⟨hnonneg, hbound⟩, hinput⟩
    have hcast : (params.iterations.toNat : Int) = params.iterations := Int.toNat_of_nonneg hnonneg
    refine ⟨params.salt, Bytes.ofNatLE 4 params.iterations.toNat ++ rest, ?_, ?_⟩
    · apply (Wire.exact_eq_ok (by decide)).mpr
      refine ⟨?_, by rw [params.length_salt]; rfl⟩
      rw [hinput, block, List.append_assoc]
    apply Computation.bind_eq_ok.mpr
    refine ⟨params.iterations.toNat, rest, ?_, ?_⟩
    · apply (Wire.number_eq_ok (by decide)).mpr
      exact ⟨rfl, by omega⟩
    apply Computation.bind_eq_ok.mpr
    refine ⟨params, rest, ?_, rfl⟩
    simp [Pbkdf2Params.make, params.length_salt, hcast]

theorem readArgon2id_eq_ok {selected params : Argon2idParams} {input rest : Bytes} :
    read (argon2id selected) input = (.ok (argon2id params), rest) <->
      (argon2id params).Fits ∧ input = (argon2id params).block ++ rest := by
  rw [read, Computation.bind_eq_ok]
  constructor
  · intro h
    rcases h with ⟨salt, _, hsalt, hnext⟩
    rcases Computation.bind_eq_ok.mp hnext with ⟨memory, _, hmemory, hnext⟩
    rcases Computation.bind_eq_ok.mp hnext with ⟨passes, _, hpasses, hlast⟩
    rcases Computation.bind_eq_ok.mp hlast with ⟨made, _, hmade, hresult⟩
    rcases (Wire.exact_eq_ok (by decide)).mp hsalt with ⟨hinput, hlength⟩
    rcases (Wire.number_eq_ok (by decide)).mp hmemory with ⟨hmiddle, hboundMemory⟩
    rcases (Wire.number_eq_ok (by decide)).mp hpasses with ⟨hmiddle', hboundPasses⟩
    have hlength' : salt.length = 16 := by exact_mod_cast hlength
    simp only [Argon2idParams.make, hlength', dif_pos] at hmade
    cases hmade
    cases hresult
    refine ⟨⟨⟨by simp, by simpa using hboundMemory⟩, ⟨by simp, by simpa using hboundPasses⟩⟩, ?_⟩
    rw [hinput, hmiddle, hmiddle', block, Int.toNat_natCast, Int.toNat_natCast,
      List.append_assoc, List.append_assoc]
  · intro h
    rcases h with ⟨⟨⟨hnonnegMemory, hboundMemory⟩, hnonnegPasses, hboundPasses⟩, hinput⟩
    have hcastMemory : (params.memory.toNat : Int) = params.memory :=
      Int.toNat_of_nonneg hnonnegMemory
    have hcastPasses : (params.passes.toNat : Int) = params.passes :=
      Int.toNat_of_nonneg hnonnegPasses
    refine ⟨params.salt, Bytes.ofNatLE 4 params.memory.toNat ++
      (Bytes.ofNatLE 4 params.passes.toNat ++ rest), ?_, ?_⟩
    · apply (Wire.exact_eq_ok (by decide)).mpr
      refine ⟨?_, by rw [params.length_salt]; rfl⟩
      rw [hinput, block, List.append_assoc, List.append_assoc]
    apply Computation.bind_eq_ok.mpr
    refine ⟨params.memory.toNat, Bytes.ofNatLE 4 params.passes.toNat ++ rest, ?_, ?_⟩
    · apply (Wire.number_eq_ok (by decide)).mpr
      exact ⟨rfl, by omega⟩
    apply Computation.bind_eq_ok.mpr
    refine ⟨params.passes.toNat, rest, ?_, ?_⟩
    · apply (Wire.number_eq_ok (by decide)).mpr
      exact ⟨rfl, by omega⟩
    apply Computation.bind_eq_ok.mpr
    refine ⟨params, rest, ?_, rfl⟩
    simp [Argon2idParams.make, params.length_salt, hcastMemory, hcastPasses]

theorem selector_of_read {selected hash : PasswordHash} {input rest : Bytes}
    (h : read selected input = (.ok hash, rest)) : hash.selector = selected.selector := by
  cases selected with
  | pbkdf2 params =>
      rcases Computation.bind_eq_ok.mp h with ⟨_, _, _, hnext⟩
      rcases Computation.bind_eq_ok.mp hnext with ⟨_, _, _, hlast⟩
      rcases Computation.bind_eq_ok.mp hlast with ⟨_, _, _, hresult⟩
      cases hresult
      rfl
  | argon2id params =>
      rcases Computation.bind_eq_ok.mp h with ⟨_, _, _, hnext⟩
      rcases Computation.bind_eq_ok.mp hnext with ⟨_, _, _, hnext⟩
      rcases Computation.bind_eq_ok.mp hnext with ⟨_, _, _, hlast⟩
      rcases Computation.bind_eq_ok.mp hlast with ⟨_, _, _, hresult⟩
      cases hresult
      rfl

/-- The parameter block is read for the selected kind of hash; what the selection holds of its own
makes no difference. -/
theorem read_eq_ok {selected hash : PasswordHash} {input rest : Bytes} :
    read selected input = (.ok hash, rest) <->
      hash.selector = selected.selector ∧ hash.Fits ∧ input = hash.block ++ rest := by
  constructor
  · intro h
    have hselector := selector_of_read h
    cases selected <;> cases hash <;> try cases hselector
    · exact ⟨rfl, readPbkdf2_eq_ok.mp h⟩
    · exact ⟨rfl, readArgon2id_eq_ok.mp h⟩
  · intro h
    rcases h with ⟨hselector, h⟩
    cases selected <;> cases hash <;> try cases hselector
    · exact readPbkdf2_eq_ok.mpr h
    · exact readArgon2id_eq_ok.mpr h

end PasswordHash

/-!
# Rules and shares
-/

namespace ShareRule

theorem make_eq_ok {count threshold : Int} {rule : ShareRule} :
    make count threshold = .ok rule <->
      count = rule.count ∧ threshold = rule.threshold := by
  constructor
  · intro h
    unfold make at h
    split at h
    · split at h
      · split at h
        · cases h
          simp only [Int.ofNat_toNat]
          omega
        · cases h
      · cases h
    · cases h
  · intro h
    rcases h with ⟨hcount, hthreshold⟩
    have hone := rule.one_le_threshold
    have hle := rule.threshold_le_count
    have hfield := rule.count_le
    unfold make
    rw [dif_pos (by omega), dif_pos (by omega), dif_pos (by omega)]
    simp [hcount, hthreshold]

def block (rule : ShareRule) : Bytes :=
  [UInt8.ofNat rule.count, UInt8.ofNat rule.threshold]

theorem read_eq_ok {rule : ShareRule} {input rest : Bytes} :
    read input = (.ok rule, rest) <-> input = rule.block ++ rest := by
  rw [read, Computation.bind_eq_ok]
  constructor
  · intro h
    rcases h with ⟨count, _, hcount, hnext⟩
    rcases Computation.bind_eq_ok.mp hnext with ⟨threshold, _, hthreshold, hlast⟩
    rcases Wire.u8_eq_ok.mp hcount with ⟨hinput, _⟩
    rcases Wire.u8_eq_ok.mp hthreshold with ⟨hmiddle, _⟩
    rcases hmake : make count threshold with cause | made
    · rw [hmake] at hlast
      cases hlast
    · rw [hmake] at hlast
      cases hlast
      rcases make_eq_ok.mp hmake with ⟨hcount', hthreshold'⟩
      rw [hinput, hmiddle, Int.ofNat_inj.mp hcount', Int.ofNat_inj.mp hthreshold']
      rfl
  · intro hinput
    have hle := rule.threshold_le_count
    have hfield := rule.count_le
    refine ⟨rule.count, _, Wire.u8_eq_ok.mpr ⟨hinput, by omega⟩, ?_⟩
    apply Computation.bind_eq_ok.mpr
    refine ⟨rule.threshold, rest, Wire.u8_eq_ok.mpr ⟨rfl, by omega⟩, ?_⟩
    rw [make_eq_ok.mpr ⟨rfl, rfl⟩]
    rfl

end ShareRule

theorem KeyShare.read_eq_ok {share : KeyShare} {input rest : Bytes} :
    KeyShare.read input = (.ok share, rest) <-> input = share.data ++ rest := by
  rw [KeyShare.read, Computation.bind_eq_ok]
  constructor
  · intro h
    rcases h with ⟨data, _, hdata, hshare⟩
    rcases (Wire.exact_eq_ok (by decide)).mp hdata with ⟨hinput, hlength⟩
    have hlength' : data.length = 33 := by exact_mod_cast hlength
    simp only [KeyShare.ofBytes, hlength', dif_pos] at hshare
    cases hshare
    exact hinput
  · intro hinput
    refine ⟨share.data, rest, ?_, ?_⟩
    · exact (Wire.exact_eq_ok (by decide)).mpr ⟨hinput, by rw [share.length_data]; rfl⟩
    · simp [KeyShare.ofBytes, share.length_data]

/-!
# Formats
-/

namespace KeyFormat

/-- One file can hold the format: if it is sharded, it has exactly one share. -/
def Single : KeyFormat -> Prop
  | basic _ => True
  | sharded format => format.shares.length = 1

def block : KeyFormat -> Bytes
  | basic _ => []
  | sharded format => format.rule.block ++ format.shares.flatMap KeyShare.data

@[simp] theorem hash_withHash (hash : PasswordHash) (format : KeyFormat) :
    (format.withHash hash).hash = hash := by
  cases format <;> rfl

@[simp] theorem isSharded_withHash (hash : PasswordHash) (format : KeyFormat) :
    (format.withHash hash).isSharded = format.isSharded := by
  cases format <;> rfl

@[simp] theorem single_withHash (hash : PasswordHash) (format : KeyFormat) :
    (format.withHash hash).Single <-> format.Single := by
  cases format <;> rfl

@[simp] theorem block_withHash (hash : PasswordHash) (format : KeyFormat) :
    (format.withHash hash).block = format.block := by
  cases format <;> rfl

@[simp] theorem withHash_withHash (hash hash' : PasswordHash) (format : KeyFormat) :
    (format.withHash hash').withHash hash = format.withHash hash := by
  cases format <;> rfl

@[simp] theorem withHash_hash (format : KeyFormat) : format.withHash format.hash = format := by
  cases format <;> rfl

theorem write_eq_ok {format : KeyFormat} {data : Bytes} :
    format.write = .ok data <-> format.Single ∧ data = format.block := by
  cases format with
  | basic hash =>
      simp [write, Single, block, eq_comm]
  | sharded format =>
      rcases format with ⟨hash, rule, shares⟩
      cases shares with
      | nil =>
          simp [write, ShardedFormat.write, Single]
      | cons share rest =>
          cases rest with
          | nil =>
              simp [write, ShardedFormat.write, Single, block, ShareRule.block, eq_comm]
          | cons second rest =>
              simp [write, ShardedFormat.write, Single]

theorem reading_eq_ok {α : Type} {action : Wire.Reader α} {intake intake' : Intake} {a : α} :
    reading action intake = (.ok a, intake') <->
      action intake.rest = (.ok a, intake'.rest) ∧ intake'.format = intake.format := by
  rcases intake' with ⟨format, rest⟩
  unfold reading
  rcases action intake.rest with ⟨result, rest'⟩
  constructor
  · intro h
    cases h
    exact ⟨rfl, rfl⟩
  · intro h
    rcases h with ⟨hresult, hformat⟩
    cases hresult
    cases hformat
    rfl

theorem readInto_sharded_eq_ok {start : ShardedFormat} {intake : Intake} {input : Bytes} :
    readInto ⟨sharded start, input⟩ = (.ok (), intake) <->
      exists rule share, input = ShareRule.block rule ++ (KeyShare.data share ++ intake.rest) ∧
        intake.format = sharded { start with rule, shares := start.shares ++ [share] } := by
  rw [readInto, Computation.bind_eq_ok]
  constructor
  · intro h
    rcases h with ⟨_, _, hget, hnext⟩
    cases hget
    rcases Computation.bind_eq_ok.mp hnext with ⟨rule, withRule, hrule, hnext⟩
    rcases Computation.bind_eq_ok.mp hnext with ⟨_, _, hmodify, hnext⟩
    cases hmodify
    rcases Computation.bind_eq_ok.mp hnext with ⟨share, withShare, hshare, hlast⟩
    cases hlast
    rcases reading_eq_ok.mp hrule with ⟨hruleRead, _⟩
    rcases reading_eq_ok.mp hshare with ⟨hshareRead, _⟩
    have hinput := ShareRule.read_eq_ok.mp hruleRead
    have hmiddle := KeyShare.read_eq_ok.mp hshareRead
    exact ⟨rule, share, hinput.trans (congrArg _ hmiddle), rfl⟩
  · intro h
    rcases h with ⟨rule, share, hinput, hformat⟩
    refine ⟨_, _, rfl, ?_⟩
    apply Computation.bind_eq_ok.mpr
    refine ⟨rule, ⟨sharded start, KeyShare.data share ++ intake.rest⟩, ?_, ?_⟩
    · exact reading_eq_ok.mpr ⟨ShareRule.read_eq_ok.mpr hinput, rfl⟩
    apply Computation.bind_eq_ok.mpr
    refine ⟨_, _, rfl, ?_⟩
    apply Computation.bind_eq_ok.mpr
    refine ⟨share, ⟨sharded { start with rule }, intake.rest⟩, ?_, ?_⟩
    · exact reading_eq_ok.mpr ⟨KeyShare.read_eq_ok.mpr rfl, rfl⟩
    · rw [Computation.modify_apply, ← hformat]

theorem read_eq_ok_iff {start format : KeyFormat} {input rest : Bytes} :
    read start input = (.ok format, rest) <->
      readInto ⟨start, input⟩ = (.ok (), ⟨format, rest⟩) := by
  unfold read
  rcases readInto ⟨start, input⟩ with ⟨result, intake⟩
  cases result with
  | ok _ =>
      constructor
      · intro h
        cases h
        rfl
      · intro h
        cases h
        rfl
  | error fault =>
      constructor
      · intro h
        cases h
      · intro h
        cases h

theorem read_eq_ok {start format : KeyFormat} (hstart : start.shares = [])
    {input rest : Bytes} :
    read start input = (.ok format, rest) <->
      (format.isSharded = start.isSharded ∧ format.hash = start.hash ∧ format.Single) ∧
        input = format.block ++ rest := by
  rw [read_eq_ok_iff]
  cases start with
  | basic hash =>
      constructor
      · intro h
        cases h
        exact ⟨⟨rfl, rfl, trivial⟩, rfl⟩
      · intro h
        rcases h with ⟨⟨hsharded, hhash, _⟩, hinput⟩
        cases format with
        | basic hash' =>
            cases hhash
            cases hinput
            rfl
        | sharded format =>
            cases hsharded
  | sharded start =>
      rcases start with ⟨hash, rule, shares⟩
      cases hstart
      rw [readInto_sharded_eq_ok]
      constructor
      · intro h
        rcases h with ⟨rule', share, hinput, hformat⟩
        cases hformat
        refine ⟨⟨rfl, rfl, rfl⟩, ?_⟩
        simp [block, hinput]
      · intro h
        rcases h with ⟨⟨hsharded, hhash, hsingle⟩, hinput⟩
        cases format with
        | basic hash' =>
            cases hsharded
        | sharded format =>
            rcases format with ⟨hash', rule', shares'⟩
            rcases List.length_eq_one_iff.mp hsingle with ⟨share, hshares⟩
            cases hshares
            cases hhash
            refine ⟨rule', share, ?_, rfl⟩
            simp [block, hinput]

end KeyFormat
end WalletVault
