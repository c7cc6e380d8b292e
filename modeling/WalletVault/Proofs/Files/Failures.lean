import WalletVault.Proofs.Files.Sparing

/-!
# Writes that fail

A failed write is clean when it is told as a fault of files, shows the same at
its path as before and leaves nothing new under the temporary name. What decides
is whether both names can be looked up, whether a directory stands under the
temporary name, which is not taken away, and whether making the parent directory
has changed what the path shows.
-/

namespace WalletVault

namespace FileSystem

/-!
# Paths that can be looked up
-/

/-- A path that is shorter than a page, with names that are short enough. -/
structure Followable (path : Path) : Prop where
  page : (utf8 path.toString).length < 4096
  names : forall name, name ∈ path.names -> (utf8 name).length <= 255

theorem Followable.child_of_append {parent : Path} {name ending : String}
    (h : Followable (parent.child (name ++ ending))) : Followable (parent.child name) where
  page := by
    have hpage := h.page
    rw [Path.toString_child_append, length_utf8_append] at hpage
    omega
  names := by
    intro other hother
    rcases List.mem_append.mp hother with hfront | hlast
    · exact h.names other (List.mem_append_left _ hfront)
    · have hlong := h.names (name ++ ending) (by simp [Path.child])
      rw [length_utf8_append] at hlong
      rw [List.mem_singleton.mp hlast]
      omega

theorem walk_ne_nameTooLong {fs : FileSystem} {start : Location} {names : List String}
    (h : forall name, name ∈ names -> (utf8 name).length <= 255) :
    fs.walk start names ≠ .error .nameTooLong := by
  induction names generalizing start with
  | nil =>
      simp [walk]
  | cons name rest ih =>
      have hrest (start : Location) : fs.walk start rest ≠ .error .nameTooLong :=
        ih (fun other hother => h other (List.mem_cons_of_mem name hother))
      have hname : ¬ (utf8 name).length > 255 := Nat.not_lt.mpr (h name List.mem_cons_self)
      rw [walk, if_neg hname]
      split
      · exact hrest _
      · split
        · simp
        · exact hrest _
        · simp

theorem locate_ne_nameTooLong {fs : FileSystem} {path : Path} (h : Followable path) :
    fs.locate path ≠ .error .nameTooLong := by
  have hpage : ¬ (utf8 path.toString).length >= 4096 := Nat.not_le.mpr h.page
  have hfront : fs.walk (fs.startOf path) path.names.dropLast ≠ .error .nameTooLong :=
    walk_ne_nameTooLong (fun name hname => h.names name (List.dropLast_subset _ hname))
  unfold locate
  rw [if_neg hpage]
  cases hlast : path.names.getLast? with
  | none =>
      simp
  | some name =>
      have hname : ¬ (utf8 name).length > 255 :=
        Nat.not_lt.mpr (h.names name (List.mem_of_getLast? hlast))
      unfold startOf at hfront
      dsimp only
      split
      · rename_i refusal hwalk
        rw [hwalk] at hfront
        simpa using hfront
      · rw [if_neg hname]
        split
        · simp
        · simp

theorem exists_look_of_followable {fs : FileSystem} {path : Path} (h : Followable path) :
    exists found, fs.look path = .ok found := by
  have hlocate : fs.locate path ≠ .error .nameTooLong := locate_ne_nameTooLong h
  unfold look
  split
  · exact ⟨none, rfl⟩
  · split
    · exact ⟨_, rfl⟩
    · contradiction
    · exact ⟨none, rfl⟩

theorem hasNull_temp {parent : Path} {name : String} :
    hasNull (parent.child (name ++ ".temp")) = hasNull (parent.child name) := by
  have hending : '\x00' ∉ ".temp".toList := by decide
  rw [hasNull_child, hasNull_child, String.toList_append]
  congr 1
  rw [Bool.eq_iff_iff, List.contains_iff_mem, List.contains_iff_mem, List.mem_append,
    or_iff_left hending]

theorem writeFile_ne_null {fs : FileSystem} {path : Path} {content : Bytes}
    (hnull : hasNull path = false) : fs.writeFile path content ≠ .error .null := by
  unfold writeFile
  rw [hnull, if_neg Bool.false_ne_true]
  rcases fs.locate path with refusal | location
  · simp
  · rcases hentry : fs.entry? location with _ | entry
    · simp [hentry]
    · cases entry <;> simp [hentry]

end FileSystem

namespace Store

open FileSystem

/-!
# Cleaning up
-/

section CleaningUp

variable {temp : Path} {fs after : FileSystem}

/-- Cleaning up succeeds unless the name cannot be looked up or is a directory. -/
theorem exists_cleanUp_iff :
    (exists after, cleanUp temp fs = .ok after) <->
      (exists found, fs.look temp = .ok found) ∧ fs.isDirectory temp = false := by
  unfold cleanUp isDirectory
  rcases hlook : fs.look temp with fault | found
  · simp
  · cases found with
    | none =>
        simp
    | some entry =>
        rcases standing_eq_some.mp (look_eq_ok_some.mp hlook) with ⟨_, location, hlocate, hentry⟩
        unfold removeFile
        rw [hlocate]
        dsimp only
        rw [hentry]
        cases entry <;> simp

theorem standing_of_cleanUp (h : cleanUp temp fs = .ok after) : after.standing temp = none := by
  unfold cleanUp at h
  rcases hlook : fs.look temp with fault | found
  · rw [hlook] at h
    cases h
  · rw [hlook] at h
    cases found with
    | none =>
        cases h
        exact standing_of_look hlook
    | some entry =>
        rcases removeFile_eq_ok h with ⟨location, hlocate, hfree, hcleared⟩
        apply Option.eq_none_iff_forall_ne_some.mpr
        intro other hother
        rcases standing_eq_some.mp hother with ⟨_, location', hlocate', hentry⟩
        rw [← (hcleared.sameDirectories hfree).locate_eq_ok, hlocate] at hlocate'
        cases hlocate'
        rw [hcleared.2, if_pos rfl] at hentry
        cases hentry

theorem standing_child_of_cleaned {parent : Path} {name : String}
    (h : Cleaned (parent.child (name ++ ".temp")) fs after) :
    after.standing (parent.child name) = fs.standing (parent.child name) := by
  rcases h with hsame | ⟨location, ⟨_, hlocate, hfree⟩, hcleared⟩
  · rw [hsame]
  · apply (hcleared.sameDirectories hfree).standing_eq
    intro location' hlocate'
    rw [hcleared.2, if_neg]
    exact ne_of_locate_child (temp_ne_up name) (ne_temp name) hlocate' hlocate

end CleaningUp

/-!
# Where a write fails
-/

section Failing

variable {ownerOnly force : Bool} {parent : Path} {name : String} {data : Bytes}
  {fs made stored after : FileSystem} {fault : Fault}

/-- What a file system holds when a write has to clean up: what there was once the parent directory
was made, with the data under the temporary name if that could be stored. -/
def Stopped (parent : Path) (name : String) (data : Bytes) (made stored : FileSystem) : Prop :=
  stored = made ∨ exists source, made.WritableAt (parent.child (name ++ ".temp")) source ∧
    StoredAt made stored source data

theorem stopped_of_place {stop : Stop} (hnull : hasNull (parent.child name) = false)
    (h : place ownerOnly (parent.child name) (parent.child (name ++ ".temp")) data fs =
      (.error stop, stored)) :
    exists cause, stop = .fault cause ∧
      Stopped parent name data (fs.makeDirectories parent).2 stored := by
  have hnullParent : ¬ hasNull parent = true := by
    rw [hasNull_of_child hnull]
    exact Bool.false_ne_true
  unfold place at h
  rw [Path.parent_child, if_neg hnullParent] at h
  rcases hmade : fs.makeDirectories parent with ⟨refusal | _, made⟩
  · rw [hmade] at h
    cases h
    exact ⟨refusal, rfl, Or.inl rfl⟩
  rw [hmade] at h
  dsimp only at h
  rcases hwritten : made.writeFile (parent.child (name ++ ".temp")) data with stop | written
  · rw [hwritten] at h
    cases h
    cases stop with
    | fault cause =>
        exact ⟨cause, rfl, Or.inl rfl⟩
    | null =>
        exact absurd hwritten (writeFile_ne_null (hasNull_temp.trans hnull))
  rw [hwritten] at h
  dsimp only at h
  rcases storedAt_of_writeFile ownerOnly hwritten with ⟨source, hsource, hstored⟩
  generalize (if ownerOnly = true then
    written.restrict (parent.child (name ++ ".temp")) else written) = kept at h hstored
  rcases hmoved : kept.moveFile (parent.child (name ++ ".temp")) (parent.child name) with
    cause | moved
  · rw [hmoved] at h
    cases h
    exact ⟨cause, rfl, Or.inr ⟨source, hsource, hstored⟩⟩
  · rw [hmoved] at h
    cases h

theorem Stopped.exists_cleanUp_iff (h : Stopped parent name data made stored) :
    (exists cleaned, cleanUp (parent.child (name ++ ".temp")) stored = .ok cleaned) <->
      exists cleaned, cleanUp (parent.child (name ++ ".temp")) made = .ok cleaned := by
  rcases h with hsame | ⟨source, hsource, hstored⟩
  · rw [hsame]
  · rcases hsource with ⟨hnull, hlocate, hfree⟩
    rcases hstored.entry?_eq with ⟨owner, hfile⟩
    have hlocate' := (hstored.sameDirectories hfree).locate_eq_ok.mp hlocate
    rcases exists_cleanUp_of_file hnull hlocate' hfile with ⟨cleaned, hclean, _⟩
    apply iff_of_true ⟨cleaned, hclean⟩
    exact Store.exists_cleanUp_iff.mpr
      ⟨⟨_, look_of_locate hnull hlocate⟩, WritableAt.not_isDirectory ⟨hnull, hlocate, hfree⟩⟩

theorem Stopped.standing_child (h : Stopped parent name data made stored) :
    stored.standing (parent.child name) = made.standing (parent.child name) := by
  rcases h with hsame | ⟨source, ⟨_, hlocate, hfree⟩, hstored⟩
  · rw [hsame]
  · apply (hstored.sameDirectories hfree).standing_eq
    intro location hlocation
    rcases hstored with ⟨_, owner, hentry⟩
    rw [hentry, if_neg]
    exact ne_of_locate_child (temp_ne_up name) (ne_temp name) hlocation hlocate

/-- Where a write fails, in the order of its steps, and what it leaves. -/
inductive Failure (force : Bool) (parent : Path) (name : String) (fs : FileSystem) :
    Fault -> FileSystem -> Prop where
  /-- The path cannot be looked up. -/
  | unseen (cause : SystemFault) (hlook : fs.look (parent.child name) = .error cause) :
      Failure force parent name fs (.misuse (.system cause)) fs
  /-- Something stands at the path, and nothing is forced. -/
  | taken (entry : Entry) (hforce : force = false)
      (hlook : fs.look (parent.child name) = .ok (some entry)) :
      Failure force parent name fs (.file (.taken [(parent.child name).toString])) fs
  /-- A step failed, and so did cleaning up. -/
  | stuck (found : Option Entry) (cause : SystemFault) (after : FileSystem)
      (hlook : fs.look (parent.child name) = .ok found)
      (hopen : force = false -> found = none)
      (hclean : ¬ exists cleaned,
        cleanUp (parent.child (name ++ ".temp")) (fs.makeDirectories parent).2 = .ok cleaned) :
      Failure force parent name fs (.misuse (.system cause)) after
  /-- A step failed, and the temporary file was taken away. -/
  | cleaned (found : Option Entry) (cause : SystemFault) (after : FileSystem)
      (hlook : fs.look (parent.child name) = .ok found)
      (hopen : force = false -> found = none)
      (hclean : exists cleaned,
        cleanUp (parent.child (name ++ ".temp")) (fs.makeDirectories parent).2 = .ok cleaned)
      (hpath : after.standing (parent.child name) =
        (fs.makeDirectories parent).2.standing (parent.child name))
      (htemp : after.standing (parent.child (name ++ ".temp")) = none) :
      Failure force parent name fs
        (.file (.unwritten (parent.child name).toString cause)) after

theorem untaken {found : Option Entry} (hopen : force = false -> found = none) :
    (found.isSome && !force) = false := by
  cases force with
  | false =>
      simp [hopen rfl]
  | true =>
      simp

/-- What a write comes to that stopped on the way: the fault and what is left. -/
def cleaning (path temp : Path) (cause : SystemFault) (stored : FileSystem) :
    Fault × FileSystem :=
  match cleanUp temp stored with
  | .error fault => (.misuse (.system fault), stored)
  | .ok cleaned => (.file (.unwritten path.toString cause), cleaned)

theorem writeBytes_of_place {path temp : Path} {found : Option Entry} {cause : SystemFault}
    (hlook : fs.look path = .ok found) (hopen : force = false -> found = none)
    (htemp : path.extend ".temp" = .ok temp)
    (hplace : place ownerOnly path temp data fs = (.error (.fault cause), stored)) :
    writeBytes ownerOnly force path data fs =
      (.error (cleaning path temp cause stored).1, (cleaning path temp cause stored).2) := by
  have hfree : ¬ (found.isSome && !force) = true := by
    rw [untaken hopen]
    exact Bool.false_ne_true
  unfold writeBytes cleaning
  rw [hlook]
  dsimp only
  rw [if_neg hfree, htemp]
  dsimp only
  rw [hplace]
  dsimp only
  rcases cleanUp temp stored with fault | cleaned
  · rfl
  · rfl

theorem failure_of_writeBytes (hnull : hasNull (parent.child name) = false)
    (h : writeBytes ownerOnly force (parent.child name) data fs = (.error fault, after)) :
    Failure force parent name fs fault after := by
  rcases hlook : fs.look (parent.child name) with cause | found
  · unfold writeBytes at h
    rw [hlook] at h
    cases h
    exact .unseen cause hlook
  by_cases htaken : force = false ∧ exists entry, found = some entry
  · rcases htaken with ⟨hforce, entry, hentry⟩
    rw [hentry] at hlook
    rw [hforce, writeBytes_of_taken hlook] at h
    cases h
    exact .taken entry hforce hlook
  have hopen : force = false -> found = none := by
    intro hforce
    cases found with
    | none =>
        rfl
    | some entry =>
        exact absurd ⟨hforce, entry, rfl⟩ htaken
  have htemp := Path.extend_child parent name ".temp"
  rcases hplace : place ownerOnly (parent.child name) (parent.child (name ++ ".temp")) data fs with
    ⟨stop | _, stored⟩
  · rcases stopped_of_place hnull hplace with ⟨cause, hcause, hstopped⟩
    rw [hcause] at hplace
    rw [writeBytes_of_place hlook hopen htemp hplace, cleaning] at h
    rcases hclean : cleanUp (parent.child (name ++ ".temp")) stored with fault | cleaned
    · rw [hclean] at h
      cases h
      refine Failure.stuck found fault _ hlook hopen ?_
      rw [← hstopped.exists_cleanUp_iff, hclean]
      simp
    · rw [hclean] at h
      cases h
      refine Failure.cleaned found cause _ hlook hopen ?_ ?_ ?_
      · exact hstopped.exists_cleanUp_iff.mp ⟨_, hclean⟩
      · rw [standing_child_of_cleaned (cleaned_of_cleanUp hclean), hstopped.standing_child]
      · exact standing_of_cleanUp hclean
  · rw [writeBytes_eq_ok.mpr ⟨found, _, hlook, untaken hopen, htemp, hplace⟩] at h
    cases h

end Failing

/-!
# Clean failures
-/

/-- A failed write that is told as a fault of files, leaves what the path shows, and leaves nothing
under the temporary name where nothing was. -/
structure CleanFailure (path : Path) (before : FileSystem) (fault : Fault)
    (after : FileSystem) : Prop where
  typed : exists cause, fault = .file cause
  target : after.standing path = before.standing path
  temporary : before.standing path.temp = none -> after.standing path.temp = none

/-- What cleaning up needs: once the parent is made, both names can be looked up, no directory
stands under the temporary name, and the path shows what it showed before. -/
structure Cleanable (fs : FileSystem) (path : Path) : Prop where
  path_seen : exists found, fs.look path = .ok found
  temp_seen : exists found, (fs.makeDirectories path.parent).2.look path.temp = .ok found
  temp_free : (fs.makeDirectories path.parent).2.isDirectory path.temp = false
  target_kept : (fs.makeDirectories path.parent).2.standing path = fs.standing path

section Clean

variable {ownerOnly force : Bool} {parent : Path} {name : String} {data : Bytes}
  {fs after : FileSystem} {fault : Fault}

/-- A failed write is clean just in case it was refused for what stands at its path, or cleaning
up has what it needs. -/
theorem Failure.clean_iff (h : Failure force parent name fs fault after) :
    CleanFailure (parent.child name) fs fault after <->
      (force = false ∧ exists entry, fs.look (parent.child name) = .ok (some entry)) ∨
        Cleanable fs (parent.child name) := by
  cases h with
  | unseen cause hlook =>
      apply iff_of_false
      · intro hclean
        rcases hclean.typed with ⟨_, hfault⟩
        cases hfault
      · intro hcases
        rcases hcases with ⟨_, entry, hentry⟩ | hcleanable
        · rw [hlook] at hentry
          cases hentry
        · rcases hcleanable.path_seen with ⟨found, hfound⟩
          rw [hlook] at hfound
          cases hfound
  | taken entry hforce hlook =>
      exact iff_of_true ⟨⟨_, rfl⟩, rfl, id⟩ (Or.inl ⟨hforce, entry, hlook⟩)
  | stuck found cause _ hlook hopen hclean =>
      apply iff_of_false
      · intro hclean
        rcases hclean.typed with ⟨_, hfault⟩
        cases hfault
      · intro hcases
        rcases hcases with ⟨hforce, entry, hentry⟩ | hcleanable
        · rw [hlook, hopen hforce] at hentry
          cases hentry
        · apply hclean
          have htempSeen := hcleanable.temp_seen
          have htempFree := hcleanable.temp_free
          rw [Path.parent_child, Path.temp_child] at htempSeen htempFree
          exact exists_cleanUp_iff.mpr ⟨htempSeen, htempFree⟩
  | cleaned found cause _ hlook hopen hclean hpath htemp =>
      rcases exists_cleanUp_iff.mp hclean with ⟨htempSeen, htempFree⟩
      constructor
      · intro h
        refine Or.inr ⟨⟨found, hlook⟩, ?_, ?_, ?_⟩
        · rwa [Path.parent_child, Path.temp_child]
        · rwa [Path.parent_child, Path.temp_child]
        · rw [Path.parent_child, ← hpath, h.target]
      · intro hcases
        refine ⟨⟨_, rfl⟩, ?_, ?_⟩
        · rcases hcases with ⟨hforce, entry, hentry⟩ | hcleanable
          · rw [hlook, hopen hforce] at hentry
            cases hentry
          · have hkept := hcleanable.target_kept
            rw [Path.parent_child] at hkept
            rw [hpath, hkept]
        · intro _
          rwa [Path.temp_child]

theorem Ending.entry?_eq (h : Ending force parent name data fs (.error fault) after)
    (hparent : fs.isDirectory parent = true) {location : Location}
    (hlocation : fs.locate (parent.child (name ++ ".temp")) ≠ .ok location) :
    after.entry? location = fs.entry? location := by
  have hmakes := makeDirectories_of_isDirectory hparent
  cases h with
  | refused fault cause =>
      rfl
  | unmade fault refusal made _ hmade hcleaned =>
      rw [hmakes] at hmade
      cases hmade
  | unstored fault _ hmade hwritable =>
      rw [hmakes] at hmade
      cases hmade
      rfl
  | unmoved cause made _ source hmade hsource hdirectory hcleared =>
      rw [hmakes] at hmade
      cases hmade
      rw [hcleared.2, if_neg]
      intro hsame
      rw [hsame] at hlocation
      exact hlocation hsource.2.1

theorem cleanable_of_tree (htree : fs.Tree) (hup : ".." ∉ (parent.child name).names)
    (hshort : Followable (parent.child (name ++ ".temp")))
    (hfree : fs.isDirectory (parent.child (name ++ ".temp")) = false) :
    Cleanable fs (parent.child name) := by
  rw [Path.child, List.mem_append, List.mem_singleton, not_or] at hup
  rcases hup with ⟨hupParent, hname⟩
  refine ⟨exists_look_of_followable hshort.child_of_append, ?_, ?_, ?_⟩
  · rw [Path.parent_child, Path.temp_child]
    exact exists_look_of_followable hshort
  · rw [Path.parent_child, Path.temp_child, htree.isDirectory_child hupParent (temp_ne_up name)]
    exact hfree
  · rw [Path.parent_child]
    exact htree.standing_child hupParent (Ne.symm hname)

end Clean

theorem writeWallet_eq_error {ownerOnly force : Bool} {output : String} {wallet : Wallet}
    {data : Bytes} {fs after : FileSystem} {fault : Fault} (hdata : wallet.write = .ok data)
    (h : writeWallet ownerOnly force output wallet fs = (.error fault, after)) :
    writeBytes ownerOnly force (Path.ofString output) data fs = (.error fault, after) := by
  rw [writeWallet, hdata, Computation.bind_of_ok (Computation.mk_apply _ _),
    Computation.bind_apply] at h
  rcases hwritten : writeBytes ownerOnly force (Path.ofString output) data fs with ⟨ended, written⟩
  rw [hwritten] at h
  cases ended with
  | error _ =>
      cases h
      rfl
  | ok _ =>
      cases h

/-- A write of a wallet that fails is clean, told as a fault of files with the path as before and
nothing new under the temporary name, just in case the path is taken or cleaning up has what it
needs. In a tree it does, unless the path goes up, a name is too long, or a directory stands under
the temporary name. Where the parent is a directory, whatever else there is stays as it was. -/
theorem failed_write_clean {ownerOnly force : Bool} {output : String} {wallet : Wallet}
    {data : Bytes} {path : Path} {fs after : FileSystem} {fault : Fault}
    (hdata : wallet.write = .ok data) (hpath : path = Path.ofString output)
    (hnames : path.names ≠ []) (hnull : hasNull path = false)
    (h : writeWallet ownerOnly force output wallet fs = (.error fault, after)) :
    (CleanFailure path fs fault after <->
      (force = false ∧ exists entry, fs.look path = .ok (some entry)) ∨ Cleanable fs path) ∧
    (fs.Tree -> ".." ∉ path.names -> Followable path.temp -> fs.isDirectory path.temp = false ->
      Cleanable fs path) ∧
    (fs.isDirectory path.parent = true -> forall location, fs.locate path.temp ≠ .ok location ->
      after.entry? location = fs.entry? location) := by
  have hwritten := writeWallet_eq_error hdata h
  rw [← hpath, ← Path.child_name hnames] at hwritten
  rw [← Path.child_name hnames] at hnull ⊢
  rw [Path.temp_child]
  refine ⟨(failure_of_writeBytes hnull hwritten).clean_iff, cleanable_of_tree, ?_⟩
  intro hparent location hlocation
  rw [Path.parent_child] at hparent
  exact (writeBytes_ending hwritten).entry?_eq hparent hlocation

theorem writeWallet_of_place {ownerOnly force : Bool} {output : String} {wallet : Wallet}
    {data : Bytes} {path temp : Path} {found : Option Entry} {cause : SystemFault}
    {fs stored : FileSystem} (hdata : wallet.write = .ok data) (hpath : Path.ofString output = path)
    (hlook : fs.look path = .ok found) (hopen : force = false -> found = none)
    (htemp : path.extend ".temp" = .ok temp)
    (hplace : place ownerOnly path temp data fs = (.error (.fault cause), stored)) :
    writeWallet ownerOnly force output wallet fs =
      (.error (cleaning path temp cause stored).1, (cleaning path temp cause stored).2) := by
  rw [writeWallet, hdata, Computation.bind_of_ok (Computation.mk_apply _ _),
    Computation.bind_apply, hpath, writeBytes_of_place hlook hopen htemp hplace]

/-- A file stands where the parent directory would. -/
theorem failed_write_clean_under_file :
    exists data fault after,
      Wallet.blankBasic.write = .ok data ∧ (Path.ofString "f/w").names ≠ [] ∧
        hasNull (Path.ofString "f/w") = false ∧
        writeWallet true false "f/w" Wallet.blankBasic (.ofEntries [(["f"], .file false [])]) =
          (.error fault, after) ∧
        CleanFailure (Path.ofString "f/w") (.ofEntries [(["f"], .file false [])]) fault after := by
  rcases exists_write_blankBasic with ⟨data, hdata⟩
  have hparent : Path.parent ⟨"", ["f", "w"]⟩ = ⟨"", ["f"]⟩ := rfl
  have hmade : makeDirectories (.ofEntries [(["f"], .file false [])]) ⟨"", ["f"]⟩ =
      (.error (refused .taken ⟨"", ["f"]⟩), .ofEntries [(["f"], .file false [])]) := by
    rw [makeDirectories]
    rfl
  have hplace : place true ⟨"", ["f", "w"]⟩ ⟨"", ["f", "w.temp"]⟩ data
      (.ofEntries [(["f"], .file false [])]) =
        (.error (.fault (refused .taken ⟨"", ["f"]⟩)), .ofEntries [(["f"], .file false [])]) := by
    unfold place
    rw [hparent, hmade]
    rfl
  have hrun := @writeWallet_of_place true false "f/w" _ _ _ _ none _ _ _ hdata rfl rfl
    (fun _ => rfl) rfl hplace
  have hnames : (Path.ofString "f/w").names ≠ [] := by decide
  rcases failed_write_clean hdata rfl hnames rfl hrun with ⟨hclean, hcleanable, _⟩
  refine ⟨data, _, _, hdata, hnames, rfl, hrun, hclean.mpr (Or.inr ?_)⟩
  exact hcleanable (tree_file "f" false []) (by decide) ⟨by decide, by decide⟩ rfl

/-- A directory under the temporary name stops the write, and then the cleaning up. -/
theorem writeWallet_stops_untyped :
    exists fault after,
      writeWallet true false "w" Wallet.blankBasic (.ofEntries [(["w.temp"], .directory)]) =
          (.error fault, after) ∧
        (Path.ofString "w").names ≠ [] ∧ hasNull (Path.ofString "w") = false ∧
        (exists data, Wallet.blankBasic.write = .ok data) ∧
        ¬ exists cause, fault = .file cause := by
  rcases exists_write_blankBasic with ⟨data, hdata⟩
  have hplace : place true ⟨"", ["w"]⟩ ⟨"", ["w.temp"]⟩ data
      (.ofEntries [(["w.temp"], .directory)]) =
      (.error (.fault (refused .isDirectory ⟨"", ["w.temp"]⟩)),
        .ofEntries [(["w.temp"], .directory)]) := by
    unfold place
    rw [makeDirectories_of_isDirectory rfl]
    rfl
  have hrun := @writeWallet_of_place true false "w" _ _ _ _ none _ _ _ hdata rfl rfl
    (fun _ => rfl) rfl hplace
  refine ⟨_, _, hrun, by decide, rfl, ⟨data, hdata⟩, ?_⟩
  intro hcause
  rcases hcause with ⟨_, hcause⟩
  cases hcause

end Store
end WalletVault
