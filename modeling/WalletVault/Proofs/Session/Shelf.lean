import WalletVault.Proofs.Computation
import WalletVault.Proofs.Files.Entries
import WalletVault.Session.Run

/-!
# The shelf of a session

Most of what a session does leaves the formats on its shelf as they are: it reads them, puts further
ones behind them, and gives names to what it made. Every name leads to a format that stands on the
shelf, so that a format which is put there is one that no name led to before.
-/

namespace WalletVault

open WalletVault.Computation

/-- The format behind a register, if there is one, has a number below the size of the shelf. -/
def Register.OnShelf (size : Nat) : Register -> Prop
  | .format number => number < size
  | .wallet held => held.format < size
  | .key _ => True
  | .bytes _ => True

theorem Register.OnShelf.mono {size more : Nat} {register : Register}
    (h : register.OnShelf size) (hsize : size <= more) : register.OnShelf more := by
  cases register with
  | key key =>
      trivial
  | format number =>
      exact Nat.lt_of_lt_of_le h hsize
  | wallet held =>
      exact Nat.lt_of_lt_of_le h hsize
  | bytes data =>
      trivial

namespace Session

def Sound (session : Session) : Prop :=
  forall name register, session.lookup? name = some register ->
    register.OnShelf session.formats.length

theorem sound_start (keystore : Keystore) (random : RandomSource) :
    (start keystore random).Sound := by
  intro name register h
  cases h

/-- What a computation leaves that only adds to a session: all formats stay as they are, and only
the given names may mean something else. -/
structure Adds (names : String -> Prop) (before after : Session) : Prop where
  sound : after.Sound
  formats : before.formats <+: after.formats
  lookup?_eq : forall name, ¬ names name -> after.lookup? name = before.lookup? name

section Relation

variable {names : String -> Prop} {before middle after : Session}

theorem Adds.refl (h : before.Sound) : Adds names before before where
  sound := h
  formats := List.prefix_refl _
  lookup?_eq _ _ := rfl

theorem Adds.trans (h : Adds names before middle) (h' : Adds names middle after) :
    Adds names before after where
  sound := h'.sound
  formats := h.formats.trans h'.formats
  lookup?_eq name hname := (h'.lookup?_eq name hname).trans (h.lookup?_eq name hname)

theorem Adds.length_le (h : Adds names before after) :
    before.formats.length <= after.formats.length :=
  h.formats.length_le

theorem Adds.formatAt_eq (h : Adds names before after) {number : Nat}
    (hnumber : number < before.formats.length) :
    after.formatAt number = before.formatAt number := by
  rcases h.formats with ⟨more, hmore⟩
  unfold formatAt
  rw [← hmore, List.getD_eq_getElem?_getD, List.getD_eq_getElem?_getD,
    List.getElem?_append_left hnumber]

end Relation

/-!
# Computations that only add
-/

/-- From a session the computation only adds, and its result is as told. -/
structure Adding {α : Type} (names : String -> Prop) (result : Session -> α -> Prop)
    (action : Sessional α) (session : Session) : Prop where
  adds : Adds names session (action session).2
  result : forall a, (action session).1 = .ok a -> result (action session).2 a

section Computations

variable {α β : Type} {names : String -> Prop} {session : Session}
  {result : Session -> α -> Prop}

theorem Adding.of_apply {action : Sessional α} {outcome : Except Trouble α} {after : Session}
    (happly : action session = (outcome, after)) (hadds : Adds names session after)
    (hresult : forall a, outcome = .ok a -> result after a) :
    Adding names result action session := by
  constructor
  · rw [happly]
    exact hadds
  · rw [happly]
    exact hresult

theorem Adding.bind {action : Sessional α} {next : α -> Sessional β}
    {result' : Session -> β -> Prop} (h : Adding names result action session)
    (hnext : forall a after, Adds names session after -> result after a ->
      Adding names result' (next a) after) :
    Adding names result' (action >>= next) session := by
  have hadds := h.adds
  have hresult := h.result
  rcases haction : action session with ⟨outcome, after⟩
  rw [haction] at hadds hresult
  cases outcome with
  | ok a =>
      have hrest := hnext a after hadds (hresult a rfl)
      exact .of_apply (bind_of_ok haction) (hadds.trans hrest.adds) hrest.result
  | error trouble =>
      have hrun : (action >>= next) session = (.error trouble, after) := by
        rw [bind_apply, haction]
      refine .of_apply hrun hadds ?_
      intro b hb
      cases hb

theorem adding_pure (hsound : session.Sound) {a : α} (h : result session a) :
    Adding names result (pure a) session := by
  refine ⟨.refl hsound, ?_⟩
  intro b hb
  cases hb
  exact h

theorem adds_machine (hsound : session.Sound) (machine : Machine) :
    Adds names session { session with machine } where
  sound := hsound
  formats := List.prefix_refl _
  lookup?_eq _ _ := rfl

theorem adding_vaulting (hsound : session.Sound) (action : Vaulting α) :
    Adding names (fun _ _ => True) (vaulting action) session :=
  ⟨adds_machine hsound _, fun _ _ => trivial⟩

end Computations

/-!
# Computations that only read
-/

/-- The computation leaves the session as it is, and its result is as told. -/
inductive Reads {α : Type} (result : α -> Prop) (action : Sessional α) (session : Session) : Prop
  | ok (a : α) (h : result a) (happly : action session = (.ok a, session))
  | error (trouble : Trouble) (happly : action session = (.error trouble, session))

section Reading

variable {α : Type} {names : String -> Prop} {session : Session}

theorem Reads.adding {result : α -> Prop} {action : Sessional α}
    (h : Reads result action session) (hsound : session.Sound) :
    Adding names (fun after a => after = session ∧ result a) action session := by
  cases h with
  | ok a h happly =>
      refine .of_apply happly (.refl hsound) ?_
      rintro _ ⟨⟩
      exact ⟨rfl, h⟩
  | error trouble happly =>
      refine .of_apply happly (.refl hsound) ?_
      intro a ha
      cases ha

theorem reads_get (session : Session) : Reads (fun current => session = current) get session :=
  .ok session rfl rfl

theorem Reads.bind {β : Type} {result : α -> Prop} {result' : β -> Prop} {action : Sessional α}
    {next : α -> Sessional β} (h : Reads result action session)
    (hnext : forall a, result a -> Reads result' (next a) session) :
    Reads result' (action >>= next) session := by
  cases h with
  | ok a ha happly =>
      cases hnext a ha with
      | ok b hb hlast =>
          exact .ok b hb ((bind_of_ok happly).trans hlast)
      | error trouble hlast =>
          exact .error trouble ((bind_of_ok happly).trans hlast)
  | error trouble happly =>
      apply Reads.error trouble
      rw [bind_apply, happly]

theorem reads_given (outcome : Except Fault α) (session : Session) :
    Reads (fun a => outcome = .ok a) (given outcome) session := by
  cases outcome with
  | ok a =>
      exact .ok a rfl rfl
  | error fault =>
      exact .error (.fault fault) rfl

theorem reads_format (name : String) (session : Session) :
    Reads (fun number => session.lookup? name = some (.format number)) (format name) session := by
  refine (reads_get session).bind ?_
  rintro _ rfl
  split
  · rename_i number hlookup
    exact .ok number hlookup rfl
  · exact .error _ rfl

theorem format_of_lookup {name : String} {number : Nat}
    (h : session.lookup? name = some (.format number)) :
    format name session = (.ok number, session) := by
  rw [format, bind_of_ok (get_apply session), h]
  rfl

theorem wallet_of_lookup {name : String} {held : Container Nat}
    (h : session.lookup? name = some (.wallet held)) :
    wallet name session = (.ok held, session) := by
  rw [wallet, bind_of_ok (get_apply session), h]
  rfl

theorem reads_key (name : String) (session : Session) :
    Reads (fun key => session.lookup? name = some (.key key)) (key name) session := by
  refine (reads_get session).bind ?_
  rintro _ rfl
  split
  · rename_i key hlookup
    exact .ok key hlookup rfl
  · exact .error _ rfl

theorem reads_wallet (name : String) (session : Session) :
    Reads (fun held => session.lookup? name = some (.wallet held)) (wallet name) session := by
  refine (reads_get session).bind ?_
  rintro _ rfl
  split
  · rename_i held hlookup
    exact .ok held hlookup rfl
  · exact .error _ rfl

theorem reads_bytes (name : String) (session : Session) :
    Reads (fun data => session.lookup? name = some (.bytes data)) (bytes name) session := by
  refine (reads_get session).bind ?_
  rintro _ rfl
  split
  · rename_i data hlookup
    exact .ok data hlookup rfl
  · exact .error _ rfl

theorem reads_bytesOf (source : Source) (session : Session) :
    Reads (fun _ => True) (bytesOf source) session := by
  cases source with
  | data data =>
      exact .ok data trivial rfl
  | named name =>
      cases reads_bytes name session with
      | ok data _ happly =>
          exact .ok data trivial happly
      | error trouble happly =>
          exact .error trouble happly

end Reading

/-!
# Giving names
-/

section Naming

variable {names : String -> Prop} {session : Session}

theorem lookup?_keep (session : Session) (name : String) (register : Register) (other : String) :
    (keep (some name) register session).2.lookup? other =
      if other = name then some register else session.lookup? other := by
  change List.lookup other ((name, register) ::
    session.registers.filter (fun entry => entry.1 ≠ name)) = _
  by_cases hsame : other = name
  · rw [if_pos hsame, hsame, List.lookup_cons, beq_self_eq_true]
  · have hne : (other == name) = false := by
      simpa using hsame
    rw [if_neg hsame, List.lookup_cons, hne]
    exact lookup_filter_of_ne session.registers hsame

theorem adding_keep (hsound : session.Sound) {name : Option String} {register : Register}
    (hregister : register.OnShelf session.formats.length)
    (hname : forall other, name = some other -> names other) :
    Adding names (fun _ _ => True) (keep name register) session := by
  refine ⟨?_, fun _ _ => trivial⟩
  cases name with
  | none =>
      exact .refl hsound
  | some name =>
      refine ⟨?_, List.prefix_refl _, ?_⟩
      · intro other register' hlookup
        rw [lookup?_keep] at hlookup
        by_cases hother : other = name
        · rw [if_pos hother] at hlookup
          cases hlookup
          exact hregister
        · rw [if_neg hother] at hlookup
          exact hsound other register' hlookup
      · intro other hother
        rw [lookup?_keep, if_neg]
        intro hsame
        exact hother (hname other (congrArg some hsame.symm))

def keepFrom (first : Nat) (name : String) (items : List Register) : Sessional Unit :=
  (items.zipIdx first).forM (fun (item, i) => keep (some s!"{name}.{i + 1}") item)

theorem keepFrom_cons (first : Nat) (name : String) (item : Register) (rest : List Register) :
    keepFrom first name (item :: rest) =
      keep (some s!"{name}.{first + 1}") item >>= fun _ => keepFrom (first + 1) name rest := rfl

theorem adding_keepFrom (hsound : session.Sound) (first : Nat) {name : String}
    {items : List Register}
    (hitems : forall register, register ∈ items -> register.OnShelf session.formats.length)
    (hname : forall i, first <= i -> names s!"{name}.{i + 1}") :
    Adding names (fun _ _ => True) (keepFrom first name items) session := by
  induction items generalizing first session with
  | nil =>
      exact adding_pure hsound trivial
  | cons register rest ih =>
      have hregister := hitems register List.mem_cons_self
      rw [keepFrom_cons]
      refine (adding_keep hsound hregister ?_).bind ?_
      · rintro other ⟨⟩
        exact hname first (Nat.le_refl first)
      · intro _ after hadds _
        refine ih hadds.sound (first + 1) ?_ (fun i hi => hname i (Nat.le_of_succ_le hi))
        intro other hother
        exact (hitems other (List.mem_cons_of_mem register hother)).mono hadds.length_le

theorem adding_keepEach (hsound : session.Sound) {name : String} {items : List Register}
    (hitems : forall register, register ∈ items -> register.OnShelf session.formats.length)
    (hname : forall i : Nat, names s!"{name}.{i + 1}") :
    Adding names (fun _ _ => True) (keepEach name items) session :=
  adding_keepFrom hsound 0 hitems (fun i _ => hname i)

theorem numbered_injective {name : String} {i j : Nat}
    (h : s!"{name}.{i + 1}" = s!"{name}.{j + 1}") : i = j := by
  have hlists := congrArg String.toList h
  have hdigits : Nat.toDigits 10 (i + 1) = Nat.toDigits 10 (j + 1) := by
    simpa using hlists
  have hnumbers := congrArg (fun digits => Nat.ofDigitChars 10 digits 0) hdigits
  simpa using hnumbers

theorem keepFrom_apply (first : Nat) (name : String) (items : List Register) (session : Session) :
    (keepFrom first name items session).2.formats = session.formats ∧
      (forall other, (forall i, first <= i -> other ≠ s!"{name}.{i + 1}") ->
        (keepFrom first name items session).2.lookup? other = session.lookup? other) ∧
      forall i register, items[i]? = some register ->
        (keepFrom first name items session).2.lookup? s!"{name}.{first + i + 1}" =
          some register := by
  induction items generalizing first session with
  | nil =>
      exact ⟨rfl, fun _ _ => rfl, fun _ _ h => by cases h⟩
  | cons item rest ih =>
      have hkeep : keep (some s!"{name}.{first + 1}") item session =
          (.ok (), (keep (some s!"{name}.{first + 1}") item session).2) := rfl
      rw [keepFrom_cons, bind_of_ok hkeep]
      rcases ih (first + 1) (keep (some s!"{name}.{first + 1}") item session).2 with
        ⟨hformats, hothers, hnumbered⟩
      refine ⟨hformats, ?_, ?_⟩
      · intro other hother
        rw [hothers other (fun i hi => hother i (Nat.le_of_succ_le hi)), lookup?_keep,
          if_neg (hother first (Nat.le_refl first))]
      · intro i register hregister
        cases i with
        | zero =>
            cases hregister
            rw [Nat.add_zero, hothers, lookup?_keep, if_pos rfl]
            intro i hi hsame
            have hfirst := numbered_injective hsame
            omega
        | succ i =>
            have hlater := hnumbered i register hregister
            rwa [Nat.succ_add_eq_add_succ first i] at hlater

theorem adding_named (hsound : session.Sound) {name : Option String} {register : Register}
    (hregister : register.OnShelf session.formats.length)
    (hname : forall other, name = some other -> names other) (reply : Reply) :
    Adding names (fun _ _ => True) (keep name register >>= fun _ => pure reply) session := by
  refine (adding_keep hsound hregister hname).bind ?_
  intro _ after hadds _
  exact adding_pure hadds.sound trivial

end Naming

/-!
# Putting formats on the shelf
-/

section Shelving

variable {names : String -> Prop} {session : Session}

theorem shelve_apply (format : KeyFormat) (session : Session) :
    shelve format session =
      (.ok session.formats.length, { session with formats := session.formats ++ [format] }) := rfl

theorem mapM_shelve_apply (formats : List KeyFormat) (session : Session) :
    formats.mapM shelve session =
      (.ok (List.range' session.formats.length formats.length),
        { session with formats := session.formats ++ formats }) := by
  induction formats generalizing session with
  | nil =>
      simp [List.mapM_nil]
  | cons first rest ih =>
      rw [List.mapM_cons, bind_of_ok (shelve_apply first session), bind_of_ok (ih _)]
      simp [List.range'_succ]

theorem adds_shelve (hsound : session.Sound) (formats : List KeyFormat) :
    Adds names session { session with formats := session.formats ++ formats } where
  sound := by
    intro name register hlookup
    exact (hsound name register hlookup).mono (by simp)
  formats := List.prefix_append _ _
  lookup?_eq _ _ := rfl

theorem adding_shelve (hsound : session.Sound) (format : KeyFormat) :
    Adding names (fun after number => number < after.formats.length) (shelve format) session := by
  refine ⟨adds_shelve hsound [format], ?_⟩
  intro number hnumber
  cases hnumber
  rw [shelve_apply]
  simp

theorem adding_shelveEach (hsound : session.Sound) (formats : List KeyFormat) :
    Adding names (fun after numbers => forall number, number ∈ numbers ->
      number < after.formats.length) (formats.mapM shelve) session := by
  refine .of_apply (mapM_shelve_apply formats session) (adds_shelve hsound formats) ?_
  rintro numbers ⟨⟩ number hnumber
  have hbound := (List.mem_range'_1.mp hnumber).2
  rwa [List.length_append]

theorem mapM_shelveWallet_apply (wallets : List Wallet) (session : Session) :
    wallets.mapM shelveWallet session =
      (.ok ((wallets.zipIdx session.formats.length).map
          (fun entry => entry.1.withFormat entry.2)),
        { session with formats := session.formats ++ wallets.map Container.format }) := by
  induction wallets generalizing session with
  | nil =>
      simp [List.mapM_nil]
  | cons first rest ih =>
      have hfirst : shelveWallet first session =
          (.ok (first.withFormat session.formats.length),
            { session with formats := session.formats ++ [first.format] }) := rfl
      rw [List.mapM_cons, bind_of_ok hfirst, bind_of_ok (ih _)]
      simp

theorem adding_shelveWallets (hsound : session.Sound) (wallets : List Wallet) :
    Adding names (fun after held => forall wallet, wallet ∈ held ->
      wallet.format < after.formats.length) (wallets.mapM shelveWallet) session := by
  refine .of_apply (mapM_shelveWallet_apply wallets session) (adds_shelve hsound _) ?_
  rintro held ⟨⟩ wallet hwallet
  rcases List.mem_map.mp hwallet with ⟨entry, hentry, hsame⟩
  have hbound := (List.mem_zipIdx hentry).2.1
  rw [← hsame, List.length_append, List.length_map]
  exact hbound

theorem adding_keepFresh [Suite] (hsound : session.Sound) {name : Option String}
    (hname : forall other, name = some other -> names other) (fresh : Wallet) :
    Adding names (fun _ _ => True) (keepFresh name fresh) session := by
  cases name with
  | none =>
      exact adding_pure hsound trivial
  | some name =>
      have hshelve : Adding names (fun after held => held.format < after.formats.length)
          (shelveWallet fresh) session := by
        refine (adding_shelve hsound fresh.format).bind ?_
        intro number after hadds hnumber
        exact adding_pure hadds.sound hnumber
      refine hshelve.bind ?_
      intro held after hadds hheld
      exact adding_keep hadds.sound hheld hname

theorem adding_fresh [Suite] (hsound : session.Sound) {name : Option String}
    (hname : forall other, name = some other -> names other) (fresh : Wallet) (reply : Reply) :
    Adding names (fun _ _ => True) (keepFresh name fresh >>= fun _ => pure reply) session := by
  refine (adding_keepFresh hsound hname fresh).bind ?_
  intro _ after hadds _
  exact adding_pure hadds.sound trivial

end Shelving

end Session
end WalletVault
