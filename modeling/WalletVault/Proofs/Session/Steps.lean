import WalletVault.Proofs.Session.Formats

/-!
# The law of a step

Every step of a session keeps to what it is told: it gives a meaning only to the names that it was
given, and it changes at most one format that was there before. What changed has grown. A step that
ends with a fault about shards changed nothing.
-/

namespace WalletVault

open WalletVault.Computation

/-!
# What a step may name and change
-/

/-- The names `name.1`, `name.2` and so on. -/
def Numbered (name other : String) : Prop :=
  exists i : Nat, other = s!"{name}.{i + 1}"

def FormatStep.Names (other : String) : FormatStep -> Prop
  | .makeKey _ name | .make _ name | .copy _ name => other = name
  | .shards _ name => Numbered name other
  | _ => False

def WalletStep.Names (other : String) : WalletStep -> Prop
  | .encrypt _ _ _ name | .encryptChecked _ _ _ name | .make _ _ _ _ _ _ name | .set name _ =>
      other = name
  | .read _ name | .write _ name | .decrypt _ _ name => name = some other
  | .shards _ name => Numbered name other
  | _ => False

def FileStep.Names (other : String) : FileStep -> Prop
  | .readWallet _ name | .loadWallet _ name => name = some other
  | _ => False

def VaultStep.Names (other : String) : VaultStep -> Prop
  | .createBasic _ _ _ name | .createSharded _ _ _ _ _ name | .load _ name
  | .upgrade _ _ _ _ _ name => name = some other
  | _ => False

def Step.Names (step : Step) (other : String) : Prop :=
  match step with
  | .format step => step.Names other
  | .wallet step => step.Names other
  | .file step => step.Names other
  | .vault step => step.Names other

namespace Session

/-- The format that a step may change: one that awaits its shares and gets them, or one that
absorbs. -/
inductive Alters (session : Session) : Step -> Nat -> Prop
  | derive {name : String} {number : Nat} (password : Password)
      (hname : session.lookup? name = some (.format number))
      (hawaiting : (session.formatAt number).Awaiting) :
      Alters session (.format (.derive name password true)) number
  | encrypt {formatName : String} {number : Nat} (key : String) (password : Password)
      (name : String) (hname : session.lookup? formatName = some (.format number))
      (hawaiting : (session.formatAt number).Awaiting) :
      Alters session (.wallet (.encrypt key password formatName name)) number
  | encryptChecked {formatName : String} {number : Nat} (key : String) (password : Password)
      (name : String) (hname : session.lookup? formatName = some (.format number))
      (hawaiting : (session.formatAt number).Awaiting) :
      Alters session (.wallet (.encryptChecked key password formatName name)) number
  | absorb {name : String} {number : Nat} (other : String)
      (hname : session.lookup? name = some (.format number)) :
      Alters session (.format (.absorb name other)) number
  | absorbShard {name : String} {receiver : Container Nat} (shard : String)
      (hname : session.lookup? name = some (.wallet receiver)) :
      Alters session (.wallet (.absorb name shard)) receiver.format

inductive Fills (session : Session) : Step -> Nat -> Prop
  | read {name : String} {number : Nat} (data : Bytes)
      (hname : session.lookup? name = some (.format number)) :
      Fills session (.format (.read name data)) number

structure Develops (session : Session) (step : Step)
    (outcome : Except Trouble Reply × Session) : Prop where
  sound : outcome.2.Sound
  length_le : session.formats.length <= outcome.2.formats.length
  lookup?_eq : forall name, ¬ step.Names name -> outcome.2.lookup? name = session.lookup? name
  formatAt_eq : forall number, number < session.formats.length ->
    ¬ session.Alters step number -> ¬ session.Fills step number ->
    outcome.2.formatAt number = session.formatAt number
  grown : forall number, number < session.formats.length ->
    (session.formatAt number).Grown (session.Fills step number) (outcome.2.formatAt number)
  refused : forall fault, Fault.OfShards fault -> outcome.1 = .error (.fault fault) ->
    forall number, number < session.formats.length ->
      outcome.2.formatAt number = session.formatAt number

section Law

variable {session : Session} {step : Step}

theorem develops_of_adds {outcome : Except Trouble Reply} {after : Session}
    (h : Adds step.Names session after) : Develops session step (outcome, after) where
  sound := h.sound
  length_le := h.length_le
  lookup?_eq := h.lookup?_eq
  formatAt_eq _ hnumber _ _ := h.formatAt_eq hnumber
  grown number hnumber := by
    rw [h.formatAt_eq hnumber]
    exact .refl _ _
  refused _ _ _ _ hnumber := h.formatAt_eq hnumber

theorem Adding.develops {α : Type} {result : Session -> α -> Prop} {action : Sessional α}
    {next : α -> Sessional Reply} (h : Adding step.Names result action session)
    (hnext : forall a after, Adds step.Names session after -> result after a ->
      Adding step.Names (fun _ _ => True) (next a) after) :
    Develops session step ((action >>= next) session) :=
  develops_of_adds (h.bind hnext).adds

theorem Reads.develops {α : Type} {result : α -> Prop} {action : Sessional α}
    {next : α -> Sessional Reply} (h : Reads result action session) (hsound : session.Sound)
    (hnext : forall a, result a -> Develops session step (next a session)) :
    Develops session step ((action >>= next) session) := by
  cases h with
  | ok a ha happly =>
      rw [bind_of_ok happly]
      exact hnext a ha
  | error trouble happly =>
      have hrun : (action >>= next) session = (.error trouble, session) := by
        rw [bind_apply, happly]
      rw [hrun]
      exact develops_of_adds (.refl hsound)

/-!
# One format changed
-/

def withFormat (session : Session) (machine : Machine) (number : Nat) (format : KeyFormat) :
    Session :=
  { session with machine, formats := session.formats.set number format }

theorem formatAt_withFormat (machine : Machine) {number other : Nat} (format : KeyFormat)
    (hother : other < session.formats.length) :
    (session.withFormat machine number format).formatAt other =
      if other = number then format else session.formatAt other := by
  unfold formatAt withFormat
  simp only [List.getD_eq_getElem?_getD]
  by_cases hsame : other = number
  · rw [if_pos hsame, ← hsame, List.getElem?_set_self hother, Option.getD_some]
  · rw [if_neg hsame, List.getElem?_set_ne (Ne.symm hsame)]

theorem sound_withFormat (hsound : session.Sound) (machine : Machine) (number : Nat)
    (format : KeyFormat) : (session.withFormat machine number format).Sound := by
  intro name register hlookup
  have hregister := hsound name register hlookup
  unfold withFormat
  rwa [List.length_set]

/-- A step that replaces one format by what has grown from it, and only adds afterwards. -/
theorem develops_of_withFormat {machine : Machine} {number : Nat} {format : KeyFormat}
    {outcome : Except Trouble Reply} {after : Session}
    (hafter : Adds step.Names (session.withFormat machine number format) after)
    (hgrown : (session.formatAt number).Grown (session.Fills step number) format)
    (hchange : format ≠ session.formatAt number ->
      (session.Alters step number ∨ session.Fills step number) ∧
        forall fault, Fault.OfShards fault -> outcome ≠ .error (.fault fault)) :
    Develops session step (outcome, after) := by
  have hlength :
      session.formats.length = (session.withFormat machine number format).formats.length :=
    (List.length_set ..).symm
  have hformatAt : forall other, other < session.formats.length -> after.formatAt other =
      if other = number then format else session.formatAt other := by
    intro other hother
    rw [hafter.formatAt_eq (hlength ▸ hother), formatAt_withFormat machine format hother]
  -- Where the format at a number is another one, the step was one that may change it.
  have hchanged : forall other, other < session.formats.length ->
      after.formatAt other ≠ session.formatAt other ->
      (session.Alters step other ∨ session.Fills step other) ∧
        forall fault, Fault.OfShards fault -> outcome ≠ .error (.fault fault) := by
    intro other hother hne
    rw [hformatAt other hother] at hne
    by_cases hsame : other = number
    · rw [if_pos hsame, hsame] at hne
      rw [hsame]
      exact hchange hne
    · rw [if_neg hsame] at hne
      exact absurd rfl hne
  refine ⟨hafter.sound, hlength ▸ hafter.length_le, hafter.lookup?_eq, ?_, ?_, ?_⟩
  · intro other hother halters hfills
    by_contra hne
    exact ((hchanged other hother hne).1).elim halters hfills
  · intro other hother
    rw [hformatAt other hother]
    by_cases hsame : other = number
    · rw [if_pos hsame, hsame]
      exact hgrown
    · rw [if_neg hsame]
      exact .refl _ _
  · intro fault hfault houtcome other hother
    by_contra hne
    exact (hchanged other hother hne).2 fault hfault houtcome

theorem develops_workOn {α : Type} {number : Nat} {action : KeyFormat.Working α}
    {next : α -> Sessional Reply} (hsound : session.Sound)
    (hnext : forall a after, after.Sound -> after.formats.length = session.formats.length ->
      exists reply last, next a after = (.ok reply, last) ∧ Adds step.Names after last)
    (hgrown : (session.formatAt number).Grown (session.Fills step number)
      (action ⟨session.formatAt number, session.machine.random⟩).2.format)
    (hchange : (action ⟨session.formatAt number, session.machine.random⟩).2.format ≠
        session.formatAt number ->
      (session.Alters step number ∨ session.Fills step number) ∧
        SparesShards (action ⟨session.formatAt number, session.machine.random⟩).1) :
    Develops session step ((workOn number action >>= next) session) := by
  have hwork : workOn number action session =
      (((action ⟨session.formatAt number, session.machine.random⟩).1.mapError .fault),
        session.withFormat
          { session.machine with
            random := (action ⟨session.formatAt number, session.machine.random⟩).2.random }
          number (action ⟨session.formatAt number, session.machine.random⟩).2.format) := rfl
  rcases hrun : action ⟨session.formatAt number, session.machine.random⟩ with ⟨result, bench⟩
  rw [hrun] at hgrown hchange hwork
  have hmiddle := sound_withFormat hsound { session.machine with random := bench.random } number
    bench.format
  cases result with
  | ok a =>
      rcases hnext a _ hmiddle List.length_set with ⟨reply, last, hlast, hadds⟩
      rw [bind_of_ok hwork, hlast]
      refine develops_of_withFormat hadds hgrown ?_
      intro hne
      refine ⟨(hchange hne).1, ?_⟩
      intro fault _ h
      cases h
  | error cause =>
      rw [bind_apply, hwork]
      refine develops_of_withFormat (.refl hmiddle) hgrown ?_
      intro hne
      refine ⟨(hchange hne).1, ?_⟩
      intro fault hfault h
      cases h
      exact (hchange hne).2 cause rfl hfault

end Law

/-!
# Steps on keys and formats
-/

section Steps

variable [Suite] {session : Session}

theorem develops_derive (hsound : session.Sound) (name : String) (password : Password)
    (create : Bool) :
    Develops session (.format (.derive name password create))
      (stepFormat (.derive name password create) session) := by
  refine (reads_format name session).develops hsound ?_
  intro number hname
  refine develops_workOn hsound ?_ (KeyFormat.grown_deriveKey _ _ _ _ _) ?_
  · intro key after hafter _
    exact ⟨_, after, rfl, .refl hafter⟩
  · intro hne
    by_cases hdeals : create = true ∧ (session.formatAt number).Awaiting
    · rcases hdeals with ⟨hcreate, hawaiting⟩
      rw [hcreate]
      exact ⟨Or.inl (.derive password hname hawaiting),
        KeyFormat.sparesShards_deriveKey hawaiting password _⟩
    · exact absurd (KeyFormat.format_deriveKey_eq hdeals password _) hne

theorem develops_absorb (hsound : session.Sound) (name other : String) :
    Develops session (.format (.absorb name other))
      (stepFormat (.absorb name other) session) := by
  refine (reads_format name session).develops hsound ?_
  intro number hname
  refine (reads_format other session).develops hsound ?_
  intro giverNumber _
  refine (reads_get session).develops hsound ?_
  rintro _ rfl
  refine (reads_given _ session).develops hsound ?_
  intro receiver hreceiver
  refine (reads_get session).develops hsound ?_
  rintro _ rfl
  refine (reads_given _ session).develops hsound ?_
  intro giver _
  refine (reads_given _ session).develops hsound ?_
  intro merged hmerged
  have hformat := KeyFormat.toSharded_eq_ok.mp hreceiver
  refine develops_of_withFormat (.refl (sound_withFormat hsound session.machine number _)) ?_ ?_
  · rw [hformat]
    exact KeyFormat.grown_absorb hmerged _
  · intro _
    refine ⟨Or.inl (.absorb other hname), ?_⟩
    intro fault _ h
    cases h

theorem develops_read (hsound : session.Sound) (name : String) (data : Bytes) :
    Develops session (.format (.read name data)) (stepFormat (.read name data) session) := by
  refine (reads_format name session).develops hsound ?_
  intro number hname
  refine (reads_get session).develops hsound ?_
  rintro _ rfl
  have hfills : session.Fills (.format (.read name data)) number := .read data hname
  have hgrown := KeyFormat.grown_readInto (session.formatAt number) data
  have hrefuses := KeyFormat.readInto_refuses ⟨session.formatAt number, data⟩
  rcases hrun : KeyFormat.readInto ⟨session.formatAt number, data⟩ with ⟨result, intake⟩
  rw [hrun] at hgrown hrefuses
  have hafter := sound_withFormat hsound session.machine number intake.format
  cases result with
  | ok _ =>
      refine develops_of_withFormat (.refl hafter) (hgrown.mono (fun _ => hfills)) ?_
      intro _
      refine ⟨Or.inr hfills, ?_⟩
      intro fault _ h
      cases h
  | error cause =>
      refine develops_of_withFormat (.refl hafter) (hgrown.mono (fun _ => hfills)) ?_
      intro _
      refine ⟨Or.inr hfills, ?_⟩
      rintro fault hfault ⟨⟩
      exact (hrefuses cause rfl).not_ofShards hfault

theorem develops_stepFormat (hsound : session.Sound) (step : FormatStep) :
    Develops session (.format step) (stepFormat step session) := by
  cases step with
  | makeKey origin name =>
      refine (adding_vaulting hsound _).develops ?_
      intro key after hadds _
      refine adding_named hadds.sound ?_ ?_ _
      · trivial
      · rintro other ⟨⟩
        rfl
  | sign name message =>
      refine (reads_key name session).develops hsound ?_
      intro key _
      exact develops_of_adds (.refl hsound)
  | make description name =>
      refine (reads_given _ session).develops hsound ?_
      intro format _
      refine (adding_shelve hsound format).develops ?_
      intro number after hadds hnumber
      refine adding_named hadds.sound ?_ ?_ _
      · exact hnumber
      · rintro other ⟨⟩
        rfl
  | describe name =>
      refine (reads_format name session).develops hsound ?_
      intro number _
      exact develops_of_adds (.refl hsound)
  | copy source name =>
      refine (reads_format source session).develops hsound ?_
      intro number _
      refine (reads_get session).develops hsound ?_
      rintro _ rfl
      refine (adding_shelve hsound _).develops ?_
      intro fresh after hadds hfresh
      refine adding_named hadds.sound ?_ ?_ _
      · exact hfresh
      · rintro other ⟨⟩
        rfl
  | derive name password create =>
      exact develops_derive hsound name password create
  | shards source name =>
      refine (reads_format source session).develops hsound ?_
      intro number _
      refine (reads_get session).develops hsound ?_
      rintro _ rfl
      refine (reads_given _ session).develops hsound ?_
      intro sharded _
      refine (adding_shelveEach hsound _).develops ?_
      intro numbers after hadds hnumbers
      refine Adding.bind (adding_keepEach hadds.sound ?_ (fun i => ⟨i, rfl⟩)) ?_
      · intro register hregister
        rcases List.mem_map.mp hregister with ⟨number, hnumber, hsame⟩
        rw [← hsame]
        exact hnumbers number hnumber
      · intro _ last hlast _
        exact adding_pure hlast.sound trivial
  | absorb name other =>
      exact develops_absorb hsound name other
  | write name =>
      refine (reads_format name session).develops hsound ?_
      intro number _
      refine (reads_get session).develops hsound ?_
      rintro _ rfl
      refine (reads_given _ session).develops hsound ?_
      intro data _
      exact develops_of_adds (.refl hsound)
  | read name data =>
      exact develops_read hsound name data

/-!
# Steps on wallets
-/

omit [Suite] in
theorem develops_encryptUnder {step : Step} (hsound : session.Sound)
    {action : SigningKey -> Password -> KeyFormat.Working Wallet}
    (hdeals : forall key password, KeyFormat.Deals (action key password)) (keyName : String)
    (password : Password) {formatName name : String} (hname : step.Names name)
    (halters : forall number, session.lookup? formatName = some (.format number) ->
      (session.formatAt number).Awaiting -> session.Alters step number) :
    Develops session step (encryptUnder action keyName password formatName name session) := by
  refine (reads_key keyName session).develops hsound ?_
  intro key _
  refine (reads_format formatName session).develops hsound ?_
  intro number hnumber
  refine develops_workOn hsound ?_ ((hdeals key password).grown _ _ _) ?_
  · intro wallet after hafter hlength
    have hshelf : number < after.formats.length := by
      rw [hlength]
      exact hsound formatName _ hnumber
    refine ⟨.wallet wallet, (keep (some name) (.wallet (wallet.withFormat number)) after).2, rfl,
      (adding_keep hafter ?_ ?_).adds⟩
    · exact hshelf
    · rintro other ⟨⟩
      exact hname
  · intro hne
    have hawaiting : (session.formatAt number).Awaiting := by
      by_contra hnot
      exact hne ((hdeals key password).format_eq _ _ hnot)
    exact ⟨Or.inl (halters number hnumber hawaiting),
      (hdeals key password).sparesShards _ _ hawaiting⟩

theorem develops_absorbShard (hsound : session.Sound) (name shard : String) :
    Develops session (.wallet (.absorb name shard)) (stepWallet (.absorb name shard) session) := by
  refine (reads_wallet name session).develops hsound ?_
  intro receiver hreceiver
  refine (reads_wallet shard session).develops hsound ?_
  intro giver _
  refine (reads_get session).develops hsound ?_
  rintro _ rfl
  refine (reads_given _ session).develops hsound ?_
  intro merged hmerged
  rcases Wallet.absorb_eq_ok.mp hmerged with ⟨format, other, hformat, _, _, hsame⟩
  have hbefore : session.formatAt receiver.format = .sharded format := hformat
  have hmergedFormat : merged.format =
      .sharded ⟨format.hash, format.rule, format.shares ++ other.shares⟩ := by
    rw [hsame]
    rfl
  refine develops_of_withFormat (.refl (sound_withFormat hsound session.machine _ _)) ?_ ?_
  · rw [hbefore, hmergedFormat]
    exact .sharded _ _ _ _ _ (fun _ => rfl)
  · intro _
    refine ⟨Or.inl (.absorbShard shard hreceiver), ?_⟩
    intro fault _ h
    cases h

theorem develops_stepWallet (hsound : session.Sound) (step : WalletStep) :
    Develops session (.wallet step) (stepWallet step session) := by
  cases step with
  | encrypt key password formatName name =>
      exact develops_encryptUnder hsound KeyFormat.deals_encrypt key password rfl
        (fun number hnumber hawaiting => .encrypt key password name hnumber hawaiting)
  | encryptChecked key password formatName name =>
      exact develops_encryptUnder hsound KeyFormat.deals_encryptChecked key password rfl
        (fun number hnumber hawaiting => .encryptChecked key password name hnumber hawaiting)
  | make publicKey iv tag encrypted formatName kind name =>
      refine (reads_format formatName session).develops hsound ?_
      intro number hnumber
      refine (reads_get session).develops hsound ?_
      rintro _ rfl
      have hshelf : number < session.formats.length := hsound formatName _ hnumber
      refine (adding_keep hsound ?_ ?_).develops ?_
      · exact hshelf
      · rintro other ⟨⟩
        rfl
      · intro _ after hadds _
        exact ((reads_get after).adding hadds.sound).bind
          (fun _ _ hlast _ => adding_pure hlast.sound trivial)
  | read source name =>
      refine (reads_bytesOf source session).develops hsound ?_
      intro data _
      refine (reads_given _ session).develops hsound ?_
      intro wallet _
      exact develops_of_adds (adding_fresh hsound (fun _ h => h) wallet _).adds
  | write source name =>
      refine (reads_wallet source session).develops hsound ?_
      intro held _
      refine (reads_get session).develops hsound ?_
      rintro _ rfl
      refine (reads_given _ session).develops hsound ?_
      intro data _
      refine develops_of_adds (adding_named hsound ?_ (fun _ h => h) _).adds
      trivial
  | decrypt source password name =>
      refine (reads_wallet source session).develops hsound ?_
      intro held _
      refine (reads_get session).develops hsound ?_
      rintro _ rfl
      refine (reads_given _ session).develops hsound ?_
      intro key _
      refine develops_of_adds (adding_named hsound ?_ (fun _ h => h) _).adds
      trivial
  | shards source name =>
      refine (reads_wallet source session).develops hsound ?_
      intro held _
      refine (reads_get session).develops hsound ?_
      rintro _ rfl
      refine (reads_given _ session).develops hsound ?_
      intro shards _
      refine (adding_shelveWallets hsound _).develops ?_
      intro shelved after hadds hshelved
      refine Adding.bind (adding_keepEach hadds.sound ?_ (fun i => ⟨i, rfl⟩)) ?_
      · intro register hregister
        rcases List.mem_map.mp hregister with ⟨wallet, hwallet, hsame⟩
        rw [← hsame]
        exact hshelved wallet hwallet
      · intro _ last hlast _
        exact adding_pure hlast.sound trivial
  | absorb name shard =>
      exact develops_absorbShard hsound name shard
  | set name value =>
      refine (reads_wallet name session).develops hsound ?_
      intro old hold
      refine (adding_keep hsound ?_ ?_).develops ?_
      · have hformat := hsound name _ hold
        cases value <;> exact hformat
      · rintro other ⟨⟩
        rfl
      · intro _ after hadds _
        exact adding_pure hadds.sound trivial
  | describe name =>
      refine (reads_wallet name session).develops hsound ?_
      intro held _
      exact develops_of_adds (.refl hsound)
  | info name =>
      refine (reads_wallet name session).develops hsound ?_
      intro held _
      refine (reads_get session).develops hsound ?_
      rintro _ rfl
      refine (reads_given _ session).develops hsound ?_
      intro info _
      exact develops_of_adds (.refl hsound)
  | properties name =>
      refine (reads_wallet name session).develops hsound ?_
      intro held _
      exact develops_of_adds (.refl hsound)

/-!
# Steps on files
-/

omit [Suite] in
theorem develops_filing {step : Step} (hsound : session.Sound) (path : String)
    (action : FileSystem -> Path -> Except FileSystem.Stop FileSystem) :
    Develops session step (filing path action session) := by
  refine (reads_get session).develops hsound ?_
  rintro _ rfl
  dsimp only
  split
  · exact develops_of_adds (.refl hsound)
  · rcases action session.machine.files (Path.ofString path) with (cause | _) | files
    · cases cause <;> exact develops_of_adds (.refl hsound)
    · exact develops_of_adds (.refl hsound)
    · exact develops_of_adds (adds_machine hsound _)

theorem develops_stepFile (hsound : session.Sound) (step : FileStep) :
    Develops session (.file step) (stepFile step session) := by
  cases step with
  | put path source =>
      refine (reads_bytesOf source session).develops hsound ?_
      intro data _
      exact develops_filing hsound path _
  | makeDirectory path =>
      rw [stepFile]
      exact develops_filing hsound path _
  | remove path =>
      rw [stepFile]
      exact develops_filing hsound path _
  | list =>
      exact develops_of_adds (.refl hsound)
  | writeWallet path name force =>
      refine (reads_wallet name session).develops hsound ?_
      intro held _
      refine (reads_get session).develops hsound ?_
      rintro _ rfl
      refine (adding_vaulting hsound _).develops ?_
      intro written after hadds _
      exact adding_pure hadds.sound trivial
  | writeShards path name force =>
      refine (reads_wallet name session).develops hsound ?_
      intro held _
      refine (reads_get session).develops hsound ?_
      rintro _ rfl
      refine (adding_vaulting hsound _).develops ?_
      intro written after hadds _
      exact adding_pure hadds.sound trivial
  | readWallet path name =>
      refine (reads_get session).develops hsound ?_
      rintro _ rfl
      refine (reads_given _ session).develops hsound ?_
      intro wallet _
      exact develops_of_adds (adding_fresh hsound (fun _ h => h) wallet _).adds
  | loadWallet paths name =>
      refine (reads_get session).develops hsound ?_
      rintro _ rfl
      refine (reads_given _ session).develops hsound ?_
      intro wallet _
      exact develops_of_adds (adding_fresh hsound (fun _ h => h) wallet _).adds

/-!
# Steps of the keystore
-/

omit [Suite] in
theorem reads_choice (request : HashRequest) (session : Session) :
    Reads (fun _ => True) (choice request) session := by
  cases request with
  | standard =>
      exact .ok _ trivial rfl
  | named name =>
      exact .ok _ trivial rfl
  | described hash =>
      refine (reads_given hash.make session).bind ?_
      intro made _
      exact .ok _ trivial rfl

omit [Suite] in
theorem reads_prepare (request : WalletRequest) (session : Session) :
    Reads (fun _ => True) (prepare request) session := by
  have hkey : Reads (fun _ => True) (request.key.mapM key) session := by
    rcases request.key with _ | name
    · exact .ok none trivial rfl
    · refine (reads_key name session).bind ?_
      intro held _
      exact .ok (some held) trivial rfl
  refine hkey.bind ?_
  intro held _
  refine (reads_choice request.hash session).bind ?_
  intro hash _
  exact .ok _ trivial rfl

theorem develops_stepVault (hsound : session.Sound) (step : VaultStep) :
    Develops session (.vault step) (stepVault step session) := by
  cases step with
  | buildHash request iterations =>
      refine (reads_choice request session).develops hsound ?_
      intro hash _
      refine (reads_get session).develops hsound ?_
      rintro _ rfl
      refine (adding_vaulting hsound _).develops ?_
      intro built after hadds _
      exact adding_pure hadds.sound trivial
  | createBasic output password request name =>
      refine (reads_prepare request session).develops hsound ?_
      rintro ⟨source, options⟩ _
      refine (reads_get session).develops hsound ?_
      rintro _ rfl
      refine (adding_vaulting hsound _).develops ?_
      intro wallet after hadds _
      exact adding_fresh hadds.sound (fun _ h => h) wallet _
  | createSharded output password count threshold request name =>
      refine (reads_prepare request session).develops hsound ?_
      rintro ⟨source, options⟩ _
      refine (reads_get session).develops hsound ?_
      rintro _ rfl
      refine (adding_vaulting hsound _).develops ?_
      rintro ⟨wallet, paths⟩ after hadds _
      exact adding_fresh hadds.sound (fun _ h => h) wallet _
  | load inputs name =>
      refine (reads_get session).develops hsound ?_
      rintro _ rfl
      refine (reads_given _ session).develops hsound ?_
      intro wallet _
      exact develops_of_adds (adding_fresh hsound (fun _ h => h) wallet _).adds
  | loadSigningKey inputs password =>
      refine (reads_get session).develops hsound ?_
      rintro _ rfl
      refine (reads_given _ session).develops hsound ?_
      intro key _
      exact develops_of_adds (.refl hsound)
  | upgrade inputs password output form request name =>
      refine (reads_prepare request session).develops hsound ?_
      rintro ⟨source, options⟩ _
      refine (reads_get session).develops hsound ?_
      rintro _ rfl
      refine (adding_vaulting hsound _).develops ?_
      rintro ⟨wallet, paths⟩ after hadds _
      exact adding_fresh hadds.sound (fun _ h => h) wallet _
  | exportSeed inputs password exportPassword =>
      refine (reads_get session).develops hsound ?_
      rintro _ rfl
      refine (adding_vaulting hsound _).develops ?_
      rintro ⟨address, record⟩ after hadds _
      exact adding_pure hadds.sound trivial
  | run arguments environment =>
      exact develops_of_adds (adds_machine hsound _)

/-- The law of a step. -/
theorem develops_step (hsound : session.Sound) (step : Step) :
    Develops session step (Session.step step session) := by
  cases step with
  | format step =>
      exact develops_stepFormat hsound step
  | wallet step =>
      exact develops_stepWallet hsound step
  | file step =>
      exact develops_stepFile hsound step
  | vault step =>
      exact develops_stepVault hsound step

end Steps

end Session
end WalletVault
