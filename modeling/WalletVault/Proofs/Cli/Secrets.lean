import WalletVault.Proofs.Base58.Texts
import WalletVault.Proofs.Cli.Signatures
import WalletVault.Proofs.Json.Numbers
import WalletVault.Proofs.Phrase.Words
import WalletVault.Proofs.Wallet.Opening

/-!
# Exported keypairs are imported

A keypair is accepted just in case its public half belongs to its seed. The
same key comes back from each form in which a keypair is handed on: its bytes,
its base-58 text, its list of numbers, and what the program prints of it.
-/

namespace WalletVault

/-!
# Texts with blanks around them
-/

namespace Text

/-- A text with blanks around it. -/
def Padded (core padded : String) : Prop :=
  exists left right, Blank left ∧ Blank right ∧ padded.toList = left ++ core.toList ++ right

theorem Padded.trim_eq {core padded : String} (h : Padded core padded)
    (hfirst : forall c, core.toList.head? = some c -> isBlank c = false)
    (hlast : forall c, core.toList.getLast? = some c -> isBlank c = false) :
    trim padded.toList = core.toList := by
  rcases h with ⟨left, right, hleft, hright, hpadded⟩
  rw [hpadded, trim_of_ends hleft hright hfirst hlast]

theorem padded_self (text : String) : Padded text text :=
  ⟨[], [], List.forall_mem_nil _, List.forall_mem_nil _, (List.append_nil _).symm⟩

end Text

namespace Base58

theorem letter_of_mem_alphabet :
    forall c, c ∈ alphabet -> Text.isBlank c = false ∧ c ≠ '[' := by
  have hall : alphabet.all (fun c => !Text.isBlank c && c != '[') = true := by
    decide
  simpa using List.all_eq_true.mp hall

theorem mem_alphabet_of_encode {data : Bytes} {text : String} (h : encode data = .ok text) :
    forall c, c ∈ text.toList -> c ∈ alphabet := by
  rcases decode_eq_ok.mp (decode_eq_ok_iff_encode_eq_ok.mpr h) with ⟨_, values, hlt, hletters, _⟩
  exact exists_mapM_value?.mp ⟨values, mapM_value?_eq_some.mpr ⟨hlt, hletters⟩⟩

theorem trim_of_encode {data : Bytes} {text padded : String} (h : encode data = .ok text)
    (hpadded : Text.Padded text padded) : Text.trim padded.toList = text.toList := by
  have hletters := mem_alphabet_of_encode h
  apply hpadded.trim_eq
  · intro c hc
    exact (letter_of_mem_alphabet c (hletters c (List.mem_of_head? hc))).1
  · intro c hc
    exact (letter_of_mem_alphabet c (hletters c (List.mem_of_getLast? hc))).1

end Base58

/-!
# Lists of bytes
-/

theorem Bytes.ofInts_toNat (data : Bytes) :
    Bytes.ofInts (data.map (fun b => (b.toNat : Int))) = .ok data := by
  have hrange : (data.map (fun b => (b.toNat : Int))).all (fun n => 0 <= n && n < 256) = true := by
    simpa using fun b (_ : b ∈ data) => b.toNat_lt
  have hback := Base58.map_ofNat_map_toNat data
  rw [List.map_map] at hback
  unfold Bytes.ofInts
  rw [if_pos hrange, List.map_map]
  exact congrArg Except.ok hback

theorem Cli.byteOf_toNat (b : UInt8) : byteOf (.int b.toNat) = .ok b := by
  have hb := b.toNat_lt
  unfold byteOf
  dsimp only
  rw [if_pos (by omega), Int.toNat_natCast, UInt8.ofNat_toNat]

def Json.ofBytes (data : Bytes) : Json :=
  .array (data.map (fun b => .int b.toNat))

theorem Json.ofBytes_eq_ofNats (data : Bytes) : ofBytes data = ofNats (data.map UInt8.toNat) := by
  rw [ofBytes, ofNats, List.map_map]
  rfl

theorem Json.read_write_ofBytes (layout : Layout) (depth : Nat) (data : Bytes) :
    exists text, (write layout depth (ofBytes data)).toList = '[' :: text ++ [']'] ∧
      read (String.ofList ('[' :: text ++ [']'])) = .ok (ofBytes data) := by
  rw [ofBytes_eq_ofNats]
  apply read_write_ofNats
  intro n hn
  rcases List.mem_map.mp hn with ⟨b, _, rfl⟩
  have hthree : (Nat.toDigits 10 b.toNat).length <= 3 :=
    (Nat.length_toDigits_le_iff (by decide) (by decide)).mpr (Nat.lt_trans b.toNat_lt (by decide))
  exact Nat.le_trans hthree (by decide)

/-!
# Keypairs
-/

variable [Suite]

namespace SigningKey

/-- A string of bytes is a keypair: a seed and the public key of this seed. -/
def IsKeypair (data : Bytes) : Prop :=
  data.length = 64 ∧ data.drop 32 = Suite.publicKey (data.take 32)

theorem exists_ofBytes {data : Bytes} (h : IsKeypair data) :
    exists key, ofBytes data = .ok key ∧ key.toBytes = data := by
  rcases h with ⟨hlength, hpublic⟩
  have hseed : (data.take 32).length = 32 := by
    rw [List.length_take, hlength]
    rfl
  have hdata : (⟨data.take 32, hseed⟩ : SigningKey).toBytes = data := by
    rw [toBytes, publicKey, ← hpublic, List.take_append_drop]
  exact ⟨_, ofBytes_eq_ok.mpr hdata.symm, hdata⟩

theorem isKeypair_toBytes (key : SigningKey) : IsKeypair key.toBytes := by
  refine ⟨key.length_toBytes, ?_⟩
  rw [toBytes, ← key.length_seed, List.drop_left, List.take_left, publicKey]

theorem ofBytes_of_not_isKeypair {data : Bytes} (h : ¬ IsKeypair data) :
    ofBytes data = .error (.malformed .keypair) := by
  unfold ofBytes
  split
  · rename_i hlength
    dsimp only
    rw [if_neg (fun hpublic => h ⟨hlength, hpublic.symm⟩)]
  · rfl

theorem ofSecret_text {key : SigningKey} {text padded : String}
    (h : Base58.encode key.toBytes = .ok text) (hpadded : Text.Padded text padded) :
    ofSecret (.text padded) = .ok key := by
  rw [ofSecret, Base58.trim_of_encode h hpadded, String.ofList_toList,
    Base58.decode_eq_ok_iff_encode_eq_ok.mpr h]
  exact key.ofBytes_toBytes

theorem ofSecret_numbers (key : SigningKey) :
    ofSecret (.numbers (key.toBytes.map (fun b => (b.toNat : Int)))) = .ok key := by
  rw [ofSecret, Bytes.ofInts_toNat]
  exact key.ofBytes_toBytes

end SigningKey

namespace Cli

/-!
# Secrets on the command line
-/

theorem readSecret_filled (padded : String) :
    readSecret (.filled padded) =
      if (Text.trim padded.toList).head? = some '[' then
        readNumbers (String.ofList (Text.trim padded.toList))
      else SigningKey.ofSecret (.text (String.ofList (Text.trim padded.toList))) := by
  unfold readSecret Slot.need
  rfl

theorem readSecret_text {key : SigningKey} {text padded : String}
    (h : Base58.encode key.toBytes = .ok text) (hpadded : Text.Padded text padded) :
    readSecret (.filled padded) = .ok key := by
  have hletter : text.toList.head? ≠ some '[' := by
    intro hbracket
    have hmem := Base58.mem_alphabet_of_encode h _ (List.mem_of_head? hbracket)
    exact (Base58.letter_of_mem_alphabet _ hmem).2 rfl
  rw [readSecret_filled, Base58.trim_of_encode h hpadded, if_neg hletter, String.ofList_toList]
  exact SigningKey.ofSecret_text h (Text.padded_self text)

omit [Suite] in
theorem mapM_byteOf (data : Bytes) :
    (data.map (fun b => Json.int b.toNat)).mapM byteOf = .ok data := by
  have hitems : data.mapM (fun b => byteOf (.int b.toNat)) = .ok (data.map id) :=
    Computation.mapM_eq_ok_map (fun b _ => byteOf_toNat b)
  rw [List.map_id] at hitems
  rwa [List.mapM_map, Function.comp_def]

theorem readNumbers_ofBytes {key : SigningKey} {text : String}
    (h : Json.read text = .ok (Json.ofBytes key.toBytes)) : readNumbers text = .ok key := by
  unfold readNumbers
  rw [h, Json.ofBytes]
  dsimp only
  rw [mapM_byteOf]
  exact key.ofBytes_toBytes

theorem readSecret_write {key : SigningKey} {padded : String} (layout : Json.Layout) (depth : Nat)
    (hpadded : Text.Padded (Json.write layout depth (Json.ofBytes key.toBytes)) padded) :
    readSecret (.filled padded) = .ok key := by
  rcases Json.read_write_ofBytes layout depth key.toBytes with ⟨text, htext, hread⟩
  have htrim : Text.trim padded.toList = '[' :: text ++ [']'] := by
    rw [← htext]
    apply hpadded.trim_eq
    · intro c hc
      rw [htext] at hc
      cases hc
      rfl
    · intro c hc
      rw [htext, List.getLast?_append] at hc
      cases hc
      rfl
  rw [readSecret_filled, htrim]
  exact readNumbers_ofBytes hread

/-!
# What is printed
-/

namespace Setting

variable {setting : Setting} {machine after : Machine} {key : SigningKey}

def Opens (setting : Setting) (machine : Machine) (key : SigningKey) : Prop :=
  exists password inputs, setting.password = .ok password ∧
    setting.inputs machine = (.ok inputs, machine) ∧
    Keystore.loadSigningKey machine.files inputs password = .ok key

def exported (key : SigningKey) : Fields :=
  [("address", .text key.address), ("key", Json.ofBytes key.toBytes)]

omit [Suite] in
theorem machine_of_inputs {inputs : Option (List (Option String))}
    (h : setting.inputs machine = (.ok inputs, after)) : after = machine := by
  unfold Setting.inputs at h
  dsimp only at h
  split at h
  · cases h
    rfl
  · rcases bind_given_eq_ok.mp h with ⟨_, _, h⟩
    split at h
    · rcases Computation.bind_eq_ok.mp h with ⟨_, _, _, h⟩
      rcases bind_given_eq_ok.mp h with ⟨_, _, h⟩
      cases h
    · cases h

theorem opens_of_faithful {rule : Option ShareRule} {password : Password} {paths chosen : List Path}
    {written : FileSystem} (h : Keystore.Faithful key rule password paths written)
    (hpassword : setting.password = .ok password) (henough : Keystore.Enough paths chosen rule)
    (hcopies : setting.LoadsCopies written machine.files chosen) : setting.Opens machine key := by
  rcases hcopies with ⟨names, hfiles, hcopies⟩
  rcases h.loads chosen names machine.files henough.together hcopies with
    ⟨wallet, hload, _, _, _, hopen⟩
  refine ⟨password, _, hpassword, inputs_of_files hfiles machine, ?_⟩
  rw [Keystore.loadSigningKey_of_load h.valid hload, hopen henough]

theorem exportKey_eq_ok {fields : Fields} :
    setting.exportKey .keypair machine = (.ok fields, after) <->
      exists key, setting.Opens machine key ∧ after = machine ∧ exported key = fields := by
  constructor
  · intro h
    rcases bind_given_eq_ok.mp h with ⟨password, hpassword, h⟩
    rcases Computation.bind_eq_ok.mp h with ⟨inputs, middle, hinputs, h⟩
    cases machine_of_inputs hinputs
    rcases Computation.bind_eq_ok.mp h with ⟨_, _, hget, h⟩
    cases hget
    rcases bind_given_eq_ok.mp h with ⟨key, hload, h⟩
    cases h
    exact ⟨key, ⟨password, inputs, hpassword, hinputs, hload⟩, rfl, rfl⟩
  · intro h
    rcases h with ⟨key, ⟨password, inputs, hpassword, hinputs, hload⟩, rfl, rfl⟩
    unfold exportKey
    rw [hpassword, Computation.bind_of_ok (rfl : given (.ok password) _ = _)]
    dsimp only
    rw [Computation.bind_of_ok hinputs, Computation.bind_of_ok (Computation.get_apply _), hload]
    rfl

end Setting

def Prints (output : String) (layout : Json.Layout) (data : Bytes) : Prop :=
  ("\"key\": " ++ Json.write layout 1 (Json.ofBytes data)).toList <:+: output.toList

theorem prints_render (layout : Json.Layout) (command : String) (key : SigningKey) :
    Prints (Json.render layout (Report.success command (Setting.exported key)) ++ "\n") layout
      key.toBytes := by
  have hfield : ("key", Json.ofBytes key.toBytes) ∈ ("success", .bool true) ::
      ("command", .text command) :: Setting.exported key := by
    simp [Setting.exported]
  have hname : Json.quote "key" ++ ": " = "\"key\": " := by
    decide
  have hinfix := Json.infix_write layout 0 hfield
  rw [hname] at hinfix
  unfold Prints
  rw [String.toList_append (t := "\n")]
  exact hinfix.trans (List.prefix_append _ _).isInfix

section Runs

variable {setting : Setting} {machine after : Machine}

/-- If the wallet opens, a run that shows its keypair prints the list of its bytes. -/
theorem Ran.exists_prints {ending : Ending} {key : SigningKey}
    (h : Ran setting (.exportKey .keypair) machine ending after)
    (hopens : setting.Opens machine key) :
    exists layout output, ending = .finished 0 output [] "" ∧ Prints output layout key.toBytes := by
  have hperform := Setting.exportKey_eq_ok.mpr ⟨key, hopens, rfl, rfl⟩
  rw [h.ending_of_ok hperform]
  exact ⟨_, _, rfl, prints_render _ _ key⟩

theorem Ran.exists_opens {output errors : String} {logged : List String}
    (h : Ran setting (.exportKey .keypair) machine (.finished 0 output logged errors) after) :
    exists key, setting.Opens machine key := by
  rcases h.ok_of_finished with ⟨fields, hperform⟩
  rcases Setting.exportKey_eq_ok.mp hperform with ⟨key, hopens, _⟩
  exact ⟨key, hopens⟩

end Runs

/-!
# Imports
-/

/-- All forms in which a keypair is handed on give its key back. Its text and the lists that are
written for it may have blanks around them; one of these lists is what the program prints of a
wallet that opens to the key. -/
structure Imported (key : SigningKey) (text : String) : Prop where
  fromBytes : SigningKey.ofBytes key.toBytes = .ok key
  fromText : forall padded, Text.Padded text padded -> SigningKey.ofSecret (.text padded) = .ok key
  fromNumbers :
    SigningKey.ofSecret (.numbers (key.toBytes.map (fun b => (b.toNat : Int)))) = .ok key
  typedText : forall padded, Text.Padded text padded -> readSecret (.filled padded) = .ok key
  typedList : forall layout depth padded,
    Text.Padded (Json.write layout depth (Json.ofBytes key.toBytes)) padded ->
      readSecret (.filled padded) = .ok key
  printed : forall setting machine ending after, setting.Opens machine key ->
    Ran setting (.exportKey .keypair) machine ending after ->
      exists layout output, ending = .finished 0 output [] "" ∧ Prints output layout key.toBytes

theorem imported_of_encode {key : SigningKey} {text : String}
    (h : Base58.encode key.toBytes = .ok text) : Imported key text where
  fromBytes := key.ofBytes_toBytes
  fromText := fun _ hpadded => SigningKey.ofSecret_text h hpadded
  fromNumbers := key.ofSecret_numbers
  typedText := fun _ hpadded => readSecret_text h hpadded
  typedList := fun layout depth _ hpadded => readSecret_write layout depth hpadded
  printed := fun _ _ _ _ hopens hran => hran.exists_prints hopens

/-- Keypairs and keys correspond one to one, and no other bytes are accepted. Every key is imported
from each form of its keypair, and what the program prints is the keypair of such a key. -/
theorem exported_keypairs_imported :
    (forall data : Bytes,
      data.length = 64 -> data.drop 32 = Suite.publicKey (data.take 32) ->
        exists key, SigningKey.ofBytes data = .ok key ∧ key.toBytes = data) ∧
    (forall data : Bytes,
      ¬ (data.length = 64 ∧ data.drop 32 = Suite.publicKey (data.take 32)) ->
        SigningKey.ofBytes data = .error (.malformed .keypair)) ∧
    (forall key : SigningKey,
      exists text, Base58.encode key.toBytes = .ok text ∧ Imported key text) ∧
    (forall setting machine output logged errors after,
      Ran setting (.exportKey .keypair) machine (.finished 0 output logged errors) after ->
        exists key, setting.Opens machine key) := by
  refine ⟨?_, ?_, ?_, ?_⟩
  · intro data hlength hpublic
    exact SigningKey.exists_ofBytes ⟨hlength, hpublic⟩
  · intro data hother
    exact SigningKey.ofBytes_of_not_isKeypair hother
  · intro key
    have hsome : key.toBytes ≠ [] := by
      apply List.ne_nil_of_length_pos
      rw [key.length_toBytes]
      decide
    rcases Base58.exists_encode hsome with ⟨text, htext⟩
    exact ⟨text, htext, imported_of_encode htext⟩
  · intro setting machine output logged errors after hran
    exact hran.exists_opens

omit [Suite] in
/-- The seed of zeros, whose text has a one for each of them, and a new wallet. -/
theorem exported_keypairs_imported_zero_seed :
    letI : Suite := Suite.standard
    let key : SigningKey := ⟨Bytes.zeros 32, rfl⟩
    let text := "111111111111111111111111111111114zvwRjXUKGfvwnParsHAS3HuSVzV5cA4McphgmoCtajS"
    let keystore : Keystore := ⟨.standard, .standard⟩
    SigningKey.ofBytes (Bytes.zeros 63) = .error (.malformed .keypair) ∧
      SigningKey.ofBytes (Bytes.zeros 64) = .error (.malformed .keypair) ∧
      (exists found, SigningKey.ofBytes key.toBytes = .ok found ∧ found.toBytes = key.toBytes) ∧
      readSecret (.filled (" " ++ text ++ "\n")) = .ok key ∧
      exists written output layout found,
        (run keystore [] ["-p", "secret", "-f", "w", "export", "--output", "key"] written).1 =
            .finished 0 output [] "" ∧
          Prints output layout found.toBytes ∧
          readSecret (.filled (Json.write layout 1 (Json.ofBytes found.toBytes))) = .ok found ∧
          exists opened, Setting.Opens
            ⟨keystore, [], ⟨[.filled "w"], "secret", "", false⟩⟩ written opened := by
  let _ : Suite := Suite.standard
  intro key text keystore
  rcases exported_keypairs_imported with ⟨haccepts, hrefuses, himports, hopened⟩
  have hpublic : key.publicKey = [0x3b, 0x6a, 0x27, 0xbc, 0xce, 0xb6, 0xa4, 0x2d, 0x62, 0xa3, 0xa8,
      0xd0, 0x2a, 0x6f, 0x0d, 0x73, 0x65, 0x32, 0x15, 0x77, 0x1d, 0xe2, 0x43, 0xa6, 0x3a, 0xc0,
      0x48, 0xa1, 0x8b, 0x59, 0xda, 0x29] := by
    decide +kernel
  have hdecode : Base58.decode text = .ok key.toBytes := by
    rw [SigningKey.toBytes, hpublic]
    decide +kernel
  have hother : ¬ ((Bytes.zeros 64).length = 64 ∧
      (Bytes.zeros 64).drop 32 = Suite.publicKey ((Bytes.zeros 64).take 32)) := by
    intro h
    have hzeros : (Bytes.zeros 64).take 32 = key.seed := rfl
    rw [hzeros] at h
    cases (h.2.trans hpublic)
  rcases himports key with ⟨found, hfound, himported⟩
  cases (Base58.decode_eq_ok_iff_encode_eq_ok.mp hdecode).symm.trans hfound
  refine ⟨hrefuses _ (by decide), hrefuses _ hother,
    haccepts _ key.length_toBytes key.isKeypair_toBytes.2,
    himported.typedText _ ⟨[' '], ['\n'], by decide, by decide, by simp [String.toList_append]⟩, ?_⟩
  rcases createBasic_of_zeros with ⟨wallet, written, data, hcreated, hfiles⟩
  rcases Keystore.faithful_of_createBasic hcreated with ⟨opened, hfaithful⟩
  let user : Setting := ⟨keystore, [], ⟨[.filled "w"], "secret", "", false⟩⟩
  have hcopies : user.LoadsCopies written.files written.files [Path.ofString "w"] := by
    refine ⟨["w"], rfl, .cons ⟨rfl, data, ?_⟩ .nil⟩
    rw [hfiles]
    exact ⟨rfl, rfl⟩
  have hopens : user.Opens written opened :=
    Setting.opens_of_faithful hfaithful rfl rfl hcopies
  rcases himports opened with ⟨_, _, hforms⟩
  have hran : Ran user (.exportKey .keypair) written _ _ :=
    ⟨["-p", "secret", "-f", "w", "export", "--output", "key"], rfl, rfl⟩
  rcases hforms.printed user written _ _ hopens hran with ⟨layout, output, hending, hprints⟩
  have hfinished := hran
  rw [hending] at hfinished
  exact ⟨written, output, layout, opened, hending, hprints,
    hforms.typedList layout 1 _ (Text.padded_self _),
    hopened user written output [] "" _ hfinished⟩

end Cli
end WalletVault
