import WalletVault.Proofs.Session.Steps

/-!
# Formats over whole sessions

Formats are held by number, and several wallets may share one. Over any run of steps a sharded
format keeps its hash and its rule, and its list of shares only gets longer at the end. Copies and
shards stand at numbers of their own, so that what becomes of them does not show in the original.
-/

namespace WalletVault

open WalletVault.Computation

namespace Session

variable [Suite] {session : Session}

/-!
# Runs
-/

def Happens (event : Session -> Step -> Prop) (session : Session) : List Step -> Prop
  | [] => False
  | step :: rest => event session step ∨ Happens event (Session.step step session).2 rest

def FilledIn (number : Nat) (session : Session) (run : List Step) : Prop :=
  Happens (fun session step => session.Fills step number) session run

def TouchedIn (number : Nat) (session : Session) (run : List Step) : Prop :=
  Happens (fun session step => session.Alters step number ∨ session.Fills step number) session run

theorem steps_cons (session : Session) (step : Step) (rest : List Step) :
    (session.steps (step :: rest)).2 = ((Session.step step session).2.steps rest).2 := rfl

theorem sound_steps (hsound : session.Sound) (run : List Step) : (session.steps run).2.Sound := by
  induction run generalizing session with
  | nil =>
      exact hsound
  | cons step rest ih =>
      exact ih (develops_step hsound step).sound

theorem grown_steps (hsound : session.Sound) {number : Nat}
    (hnumber : number < session.formats.length) (run : List Step) :
    (session.formatAt number).Grown (FilledIn number session run)
      ((session.steps run).2.formatAt number) := by
  induction run generalizing session with
  | nil =>
      exact .refl _ _
  | cons step rest ih =>
      have hstep := develops_step hsound step
      exact (hstep.grown number hnumber).trans
        (ih hstep.sound (Nat.lt_of_lt_of_le hnumber hstep.length_le))

theorem formatAt_steps_eq (hsound : session.Sound) {number : Nat}
    (hnumber : number < session.formats.length) {run : List Step}
    (huntouched : ¬ TouchedIn number session run) :
    (session.steps run).2.formatAt number = session.formatAt number := by
  induction run generalizing session with
  | nil =>
      rfl
  | cons step rest ih =>
      have hstep := develops_step hsound step
      have hfirst := hstep.formatAt_eq number hnumber
        (fun h => huntouched (Or.inl (Or.inl h))) (fun h => huntouched (Or.inl (Or.inr h)))
      rw [steps_cons, ih hstep.sound (Nat.lt_of_lt_of_le hnumber hstep.length_le)
        (fun h => huntouched (Or.inr h)), hfirst]

/-!
# One format at a time
-/

/-- The format that a step works on by name, if it is one of those that can change it. -/
def subject? (session : Session) : Step -> Option Nat
  | .format (.derive name _ _) | .format (.absorb name _) | .format (.read name _)
  | .wallet (.encrypt _ _ name _) | .wallet (.encryptChecked _ _ name _) =>
    match session.lookup? name with
    | some (.format number) => some number
    | _ => none
  | .wallet (.absorb name _) =>
    match session.lookup? name with
    | some (.wallet receiver) => some receiver.format
    | _ => none
  | _ => none

omit [Suite] in
theorem subject?_eq {step : Step} {number : Nat}
    (h : session.Alters step number ∨ session.Fills step number) :
    session.subject? step = some number := by
  rcases h with h | h
  · cases h with
    | derive password hname hawaiting => simp [subject?, hname]
    | encrypt key password name hname hawaiting => simp [subject?, hname]
    | encryptChecked key password name hname hawaiting => simp [subject?, hname]
    | absorb other hname => simp [subject?, hname]
    | absorbShard shard hname => simp [subject?, hname]
  · cases h with
    | read data hname => simp [subject?, hname]

/-- A step that changes one format leaves all others as they are. -/
theorem formatAt_eq_of_ne (hsound : session.Sound) {step : Step} {number other : Nat}
    (hnumber : number < session.formats.length) (hother : other < session.formats.length)
    (hne : number ≠ other)
    (hchanged : (Session.step step session).2.formatAt other ≠ session.formatAt other) :
    (Session.step step session).2.formatAt number = session.formatAt number := by
  have hstep := develops_step hsound step
  have hsubject : session.subject? step = some other := by
    apply subject?_eq
    by_contra hnone
    rw [not_or] at hnone
    exact hchanged (hstep.formatAt_eq other hother hnone.1 hnone.2)
  apply hstep.formatAt_eq number hnumber
  · intro halters
    rw [subject?_eq (Or.inl halters)] at hsubject
    exact hne (Option.some.inj hsubject)
  · intro hfills
    rw [subject?_eq (Or.inr hfills)] at hsubject
    exact hne (Option.some.inj hsubject)

/-!
# Copies and shards
-/

omit [Suite] in
theorem formatAt_shelved (session : Session) {formats : List KeyFormat} {i : Nat}
    {format : KeyFormat} (h : formats[i]? = some format) {after : Session}
    (hafter : after.formats = session.formats ++ formats) :
    after.formatAt (session.formats.length + i) = format := by
  unfold formatAt
  rw [hafter, List.getD_eq_getElem?_getD, List.getElem?_append_right (Nat.le_add_right _ _),
    Nat.add_sub_cancel_left, h, Option.getD_some]

theorem copy_fresh {source : String} {number : Nat}
    (hsource : session.lookup? source = some (.format number)) (name : String) :
    (Session.step (.format (.copy source name)) session).2.lookup? name =
        some (.format session.formats.length) ∧
      (Session.step (.format (.copy source name)) session).2.formatAt session.formats.length =
        session.formatAt number := by
  have hrun : (Session.step (.format (.copy source name)) session).2 =
      (keep (some name) (.format session.formats.length)
        { session with formats := session.formats ++ [session.formatAt number] }).2 := by
    change ((format source >>= _) session).2 = _
    rw [bind_of_ok (format_of_lookup hsource)]
    rfl
  rw [hrun, lookup?_keep, if_pos rfl]
  exact ⟨rfl, formatAt_shelved session (i := 0) rfl rfl⟩

omit [Suite] in
theorem keepEach_shelved (session : Session) (name : String) {formats : List KeyFormat}
    {items : List Register} {i : Nat} {format : KeyFormat} {register : Register}
    (hformat : formats[i]? = some format) (hitem : items[i]? = some register) :
    (keepEach name items { session with formats := session.formats ++ formats }).2.lookup?
        s!"{name}.{i + 1}" = some register ∧
      (keepEach name items { session with formats := session.formats ++ formats }).2.formatAt
        (session.formats.length + i) = format := by
  rcases keepFrom_apply 0 name items { session with formats := session.formats ++ formats } with
    ⟨hformats, _, hnumbered⟩
  have hlookup := hnumbered i register hitem
  rw [Nat.zero_add] at hlookup
  exact ⟨hlookup, formatAt_shelved session hformat hformats⟩

theorem shards_fresh {source : String} {number : Nat} {format : ShardedFormat}
    (hsource : session.lookup? source = some (.format number))
    (hformat : session.formatAt number = .sharded format) (name : String) {i : Nat}
    {share : KeyShare} (hshare : format.shares[i]? = some share) :
    (Session.step (.format (.shards source name)) session).2.lookup? s!"{name}.{i + 1}" =
        some (.format (session.formats.length + i)) ∧
      (Session.step (.format (.shards source name)) session).2.formatAt
          (session.formats.length + i) = .sharded { format with shares := [share] } := by
  have hrun : (Session.step (.format (.shards source name)) session).2 =
      (keepEach name ((List.range' session.formats.length format.shares.length).map .format)
        { session with
          formats := session.formats ++ format.shards.map KeyFormat.sharded }).2 := by
    change ((Session.format source >>= _) session).2 = _
    rw [bind_of_ok (format_of_lookup hsource), bind_of_ok (get_apply session), hformat]
    change (((format.shards.map KeyFormat.sharded).mapM shelve >>= _) session).2 = _
    rw [bind_of_ok (mapM_shelve_apply _ session), List.length_map, ShardedFormat.shards,
      List.length_map]
    exact view_bind id (fun _ _ => rfl)
  have hi := (List.getElem?_eq_some_iff.mp hshare).1
  rw [hrun]
  apply keepEach_shelved
  · simp [ShardedFormat.shards, hshare]
  · simp [hi]

theorem walletShards_fresh {source : String} {held : Container Nat} {format : ShardedFormat}
    (hsource : session.lookup? source = some (.wallet held))
    (hformat : session.formatAt held.format = .sharded format) (name : String) {i : Nat}
    {share : KeyShare} (hshare : format.shares[i]? = some share) :
    (Session.step (.wallet (.shards source name)) session).2.lookup? s!"{name}.{i + 1}" =
        some (.wallet (held.withFormat (session.formats.length + i))) ∧
      (Session.step (.wallet (.shards source name)) session).2.formatAt
          (session.formats.length + i) = .sharded { format with shares := [share] } := by
  let shards : List Wallet := format.shards.map (fun shard => held.withFormat (.sharded shard))
  have hshards : (session.resolve held).shards = .ok shards := by
    unfold Wallet.shards resolve
    rw [hformat]
    rfl
  have hrun : (Session.step (.wallet (.shards source name)) session).2 =
      (keepEach name
        (((shards.zipIdx session.formats.length).map
          (fun entry => entry.1.withFormat entry.2)).map .wallet)
        { session with formats := session.formats ++ shards.map Container.format }).2 := by
    change ((wallet source >>= _) session).2 = _
    rw [bind_of_ok (wallet_of_lookup hsource), bind_of_ok (get_apply session), hshards]
    change ((shards.mapM shelveWallet >>= _) session).2 = _
    rw [bind_of_ok (mapM_shelveWallet_apply shards session)]
    exact view_bind id (fun _ _ => rfl)
  rw [hrun]
  apply keepEach_shelved
  · simp [shards, ShardedFormat.shards, hshare, Container.withFormat]
  · simp [shards, ShardedFormat.shards, hshare, Container.withFormat]

/-!
# The law of formats
-/

/-- What holds of the formats at some point of a session, and from then on. -/
structure FormatLaw (session : Session) : Prop where
  /-- Every name leads to formats that are there. -/
  sound : session.Sound
  /-- A sharded format has a proper rule and keeps it together with its hash, and every later list
  of its shares starts with the one it has now. Only a block that is read into it brings another
  rule. -/
  keeps : forall number format, number < session.formats.length ->
    session.formatAt number = .sharded format ->
      (1 <= format.rule.threshold ∧ format.rule.threshold <= format.rule.count ∧
        format.rule.count <= 255) ∧
      forall later, exists rule more,
        (session.steps later).2.formatAt number =
            .sharded ⟨format.hash, rule, format.shares ++ more⟩ ∧
          (¬ FilledIn number session later -> rule = format.rule)
  /-- A step changes only the format that it deals shares, lets absorb or reads a block into; it
  changes none if it fails because of shards that do not fit or are not there. -/
  changes : forall step number, number < session.formats.length ->
    (Session.step step session).2.formatAt number ≠ session.formatAt number ->
      (session.Alters step number ∨ session.Fills step number) ∧
      (Session.step step session).1 ≠ .error (.fault .incongruent) ∧
      (Session.step step session).1 ≠ .error (.fault (.request .notSharded)) ∧
      forall other, other < session.formats.length -> other ≠ number ->
        (Session.step step session).2.formatAt other = session.formatAt other
  /-- Whatever a name stands for, it stands for it until a step is told to use the name. -/
  names : forall step name, ¬ step.Names name ->
    (Session.step step session).2.lookup? name = session.lookup? name
  /-- A format on which no step of a run works is the same afterwards. -/
  stays : forall number later, number < session.formats.length ->
    ¬ TouchedIn number session later ->
      (session.steps later).2.formatAt number = session.formatAt number
  /-- A copy equals the original and stands at a number that nothing else has. -/
  copies : forall source name number, session.lookup? source = some (.format number) ->
    (Session.step (.format (.copy source name)) session).2.lookup? name =
        some (.format session.formats.length) ∧
      (Session.step (.format (.copy source name)) session).2.formatAt session.formats.length =
        session.formatAt number
  /-- So do the shards of a format, with one share each. -/
  shards : forall source name number format, session.lookup? source = some (.format number) ->
    session.formatAt number = .sharded format -> forall i share, format.shares[i]? = some share ->
      (Session.step (.format (.shards source name)) session).2.lookup? s!"{name}.{i + 1}" =
          some (.format (session.formats.length + i)) ∧
        (Session.step (.format (.shards source name)) session).2.formatAt
            (session.formats.length + i) = .sharded { format with shares := [share] }
  /-- So do the formats of the shards of a wallet. -/
  walletShards : forall source name held format, session.lookup? source = some (.wallet held) ->
    session.formatAt held.format = .sharded format ->
    forall i share, format.shares[i]? = some share ->
      (Session.step (.wallet (.shards source name)) session).2.lookup? s!"{name}.{i + 1}" =
          some (.wallet (held.withFormat (session.formats.length + i))) ∧
        (Session.step (.wallet (.shards source name)) session).2.formatAt
            (session.formats.length + i) = .sharded { format with shares := [share] }

theorem Sound.keeps (hsound : session.Sound) {number : Nat} {format : ShardedFormat}
    (hnumber : number < session.formats.length)
    (hformat : session.formatAt number = .sharded format) (later : List Step) :
    exists rule more,
      (session.steps later).2.formatAt number =
          .sharded ⟨format.hash, rule, format.shares ++ more⟩ ∧
        (¬ FilledIn number session later -> rule = format.rule) := by
  have hgrown := grown_steps hsound hnumber later
  rw [hformat] at hgrown
  generalize (session.steps later).2.formatAt number = last at hgrown
  cases hgrown with
  | sharded hash rule shares rule' more hrule =>
      exact ⟨rule', more, rfl, hrule⟩

theorem Sound.changes (hsound : session.Sound) {step : Step} {number : Nat}
    (hnumber : number < session.formats.length)
    (hchanged : (Session.step step session).2.formatAt number ≠ session.formatAt number) :
    (session.Alters step number ∨ session.Fills step number) ∧
      (Session.step step session).1 ≠ .error (.fault .incongruent) ∧
      (Session.step step session).1 ≠ .error (.fault (.request .notSharded)) ∧
      forall other, other < session.formats.length -> other ≠ number ->
        (Session.step step session).2.formatAt other = session.formatAt other := by
  have hstep := develops_step hsound step
  refine ⟨?_, ?_, ?_, ?_⟩
  · by_contra hnone
    rw [not_or] at hnone
    exact hchanged (hstep.formatAt_eq number hnumber hnone.1 hnone.2)
  · intro hfault
    exact hchanged (hstep.refused _ (Or.inl rfl) hfault number hnumber)
  · intro hfault
    exact hchanged (hstep.refused _ (Or.inr rfl) hfault number hnumber)
  · intro other hother hne
    exact formatAt_eq_of_ne hsound hother hnumber hne hchanged

/-- At every point of every session the law of formats holds. -/
theorem formats_only_grow (keystore : Keystore) (random : RandomSource) (earlier : List Step) :
    FormatLaw ((start keystore random).steps earlier).2 := by
  have hsound := sound_steps (sound_start keystore random) earlier
  constructor
  case sound =>
    exact hsound
  case keeps =>
    intro number format hnumber hformat
    exact ⟨⟨format.rule.one_le_threshold, format.rule.threshold_le_count, format.rule.count_le⟩,
      hsound.keeps hnumber hformat⟩
  case changes =>
    intro step number hnumber hchanged
    exact hsound.changes hnumber hchanged
  case names =>
    intro step name hname
    exact (develops_step hsound step).lookup?_eq name hname
  case stays =>
    intro number later hnumber huntouched
    exact formatAt_steps_eq hsound hnumber huntouched
  case copies =>
    intro source name number hsource
    exact copy_fresh hsource name
  case shards =>
    intro source name number format hsource hformat i share hshare
    exact shards_fresh hsource hformat name hshare
  case walletShards =>
    intro source name held format hsource hformat i share hshare
    exact walletShards_fresh hsource hformat name hshare

omit [Suite] in
/-- A copied format absorbs the original; the original keeps its one share. -/
theorem formats_only_grow_of_copy :
    letI : Suite := Suite.standard
    let share : KeyShare := ⟨1 :: Bytes.zeros 32, rfl⟩
    let described : FormatDescription :=
      .sharded (.pbkdf2 none none) (some 2) (some 1) [share.data]
    let session := ((start ⟨.standard, .standard⟩ (.ofPattern [1])).steps
      [.format (.make described "original"), .format (.copy "original" "copied")]).2
    let later := [Step.format (.absorb "copied" "original")]
    session.formats.length = 2 ∧
      (session.steps later).2.formatAt 0 = session.formatAt 0 ∧
      ((session.steps later).2.formatAt 0).shares = [share] ∧
      ((session.steps later).2.formatAt 1).shares = [share, share] := by
  let _ : Suite := Suite.standard
  intro share described session later
  have hlaw : FormatLaw session := formats_only_grow _ _ _
  have hcopied : session.lookup? "copied" = some (.format 1) := rfl
  have huntouched : ¬ TouchedIn 0 session later := by
    rintro (h | h)
    · have hsubject := subject?_eq h
      rw [subject?, hcopied] at hsubject
      exact absurd (Option.some.inj hsubject) (by decide)
    · exact h
  exact ⟨rfl, hlaw.stays 0 later (by decide) huntouched, rfl, rfl⟩

end Session
end WalletVault
