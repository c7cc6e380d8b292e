import WalletVault.Proofs.Files.Paths

/-!
# Changes that keep the directories

A file that is stored, moved or taken away changes one or two locations, and no
directory is among them. So the same paths can be followed before and after.
-/

namespace WalletVault

/-!
# Names with an ending
-/

theorem length_utf8_append (text ending : String) :
    (utf8 (text ++ ending)).length = (utf8 text).length + (utf8 ending).length := by
  unfold utf8
  simp

namespace Path

theorem child_name {path : Path} (h : path.names ≠ []) : path.parent.child path.name = path := by
  rcases path with ⟨root, names⟩
  have hnames : names.dropLast ++ [names.getLastD ""] = names := by
    rw [List.getLastD_eq_getLast?, List.getLast?_eq_some_getLast h]
    exact List.dropLast_append_getLast h
  exact congrArg (Path.mk root) hnames

def temp (path : Path) : Path :=
  path.parent.child (path.name ++ ".temp")

theorem temp_child (parent : Path) (name : String) :
    (parent.child name).temp = parent.child (name ++ ".temp") := by
  rw [temp, parent_child, name_child]

theorem toString_child (parent : Path) (name : String) :
    (parent.child name).toString =
      parent.root ++ String.intercalate "/" (parent.names ++ [name]) := by
  have hsome : ((parent.child name).root.isEmpty && (parent.child name).names.isEmpty) = false := by
    simp [child]
  unfold toString
  rw [hsome, if_neg Bool.false_ne_true]
  rfl

theorem toString_child_append (parent : Path) (name ending : String) :
    (parent.child (name ++ ending)).toString = (parent.child name).toString ++ ending := by
  rw [toString_child, toString_child, String.append_assoc]
  by_cases hnames : parent.names = []
  · rw [hnames, List.nil_append, List.nil_append, String.intercalate_singleton,
      String.intercalate_singleton]
  · have hone : forall name : String, [name] ≠ [] := fun name => List.cons_ne_nil name []
    rw [String.intercalate_append_of_ne_nil hnames (hone _),
      String.intercalate_append_of_ne_nil hnames (hone _), String.intercalate_singleton,
      String.intercalate_singleton]
    simp only [String.append_assoc]

end Path

namespace FileSystem

theorem walk_append {fs : FileSystem} {start location : Location} {front back : List String} :
    fs.walk start (front ++ back) = .ok location <->
      exists middle, fs.walk start front = .ok middle ∧ fs.walk middle back = .ok location := by
  induction front generalizing start with
  | nil =>
      simp [walk]
  | cons name front ih =>
      rw [List.cons_append, walk, walk]
      by_cases hup : name = ".."
      · simp only [if_pos hup]
        exact ih
      · simp only [if_neg hup]
        by_cases hlong : (utf8 name).length > 255
        · simp [if_pos hlong]
        · simp only [if_neg hlong]
          rcases fs.entry? (start ++ [name]) with _ | entry
          · simp
          · cases entry with
            | directory =>
                exact ih
            | file ownerOnly content =>
                simp

theorem locate_up_eq_ok {fs : FileSystem} {parent : Path} {location : Location} :
    fs.locate (parent.child "..") = .ok location <->
      ¬ (utf8 (parent.child "..").toString).length >= 4096 ∧
        exists directory, fs.walk (fs.startOf parent) parent.names = .ok directory ∧
          location = directory.dropLast := by
  have hlast : (parent.child "..").names.getLast? = some ".." := by
    simp [Path.child]
  have hfront : (parent.child "..").names.dropLast = parent.names := by
    simp [Path.child]
  have hstart : (if (parent.child "..").root.isEmpty then fs.working else []) =
      fs.startOf parent := rfl
  unfold locate
  dsimp only
  rw [hlast, hfront, hstart]
  by_cases hpage : (utf8 (parent.child "..").toString).length >= 4096
  · simp [hpage]
  · rcases fs.walk (fs.startOf parent) parent.names with refusal | directory
    · simp [hpage]
    · simp [hpage, eq_comm]

theorem exists_locate_of_append {fs : FileSystem} {parent : Path} {name ending : String}
    (hending : name ++ ending ≠ "..") {source : Location}
    (h : fs.locate (parent.child (name ++ ending)) = .ok source) :
    exists goal, fs.locate (parent.child name) = .ok goal := by
  rcases (locate_child_eq_ok hending).mp h with ⟨⟨hpage, hlong⟩, directory, hwalk, _⟩
  rw [Path.toString_child_append, length_utf8_append] at hpage
  rw [length_utf8_append] at hlong
  by_cases hup : name = ".."
  · rw [hup] at hpage ⊢
    exact ⟨_, locate_up_eq_ok.mpr ⟨by omega, directory, hwalk, rfl⟩⟩
  · exact ⟨_, (locate_child_eq_ok hup).mpr ⟨⟨by omega, by omega⟩, directory, hwalk, rfl⟩⟩

theorem ne_of_locate_child {fs : FileSystem} {parent : Path} {name other : String}
    (hother : other ≠ "..") (hne : name ≠ other) {location location' : Location}
    (hlocate : fs.locate (parent.child name) = .ok location)
    (hlocate' : fs.locate (parent.child other) = .ok location') : location ≠ location' := by
  rcases (locate_child_eq_ok hother).mp hlocate' with ⟨_, directory', hwalk', hlocation'⟩
  by_cases hup : name = ".."
  · rw [hup] at hlocate
    rcases locate_up_eq_ok.mp hlocate with ⟨_, directory, hwalk, hlocation⟩
    rw [hwalk] at hwalk'
    cases hwalk'
    -- The way up ends above the directory, the other name below it.
    intro hsame
    rw [hlocation, hlocation'] at hsame
    have hlength := congrArg List.length hsame
    rw [List.length_dropLast, List.length_append, List.length_singleton] at hlength
    omega
  · rcases (locate_child_eq_ok hup).mp hlocate with ⟨_, directory, hwalk, hlocation⟩
    rw [hwalk] at hwalk'
    cases hwalk'
    rw [hlocation, hlocation']
    exact fun hsame => hne (Store.append_name_inj hsame)

theorem ne_of_locate_grandchild {fs : FileSystem} {parent : Path} {name inner other : String}
    (hname : name ≠ "..") (hinner : inner ≠ "..") (hother : other ≠ "..")
    {location location' : Location}
    (hlocate : fs.locate ((parent.child name).child inner) = .ok location)
    (hlocate' : fs.locate (parent.child other) = .ok location') : location ≠ location' := by
  rcases (locate_child_eq_ok hother).mp hlocate' with ⟨_, directory', hwalk', hlocation'⟩
  rcases (locate_child_eq_ok hinner).mp hlocate with ⟨_, inside, hinside, hlocation⟩
  rcases walk_append.mp hinside with ⟨directory, hwalk, hstep⟩
  have hsame : directory = directory' := Except.ok.inj (hwalk.symm.trans hwalk')
  have hlast := eq_append_of_walk (by simpa using hname.symm) hstep
  intro heq
  have hlength := congrArg List.length heq
  rw [hlocation, hlocation', hlast, hsame] at hlength
  simp at hlength

theorem hasNull_child (path : Path) (name : String) :
    hasNull (path.child name) = (hasNull path || name.toList.contains '\x00') := by
  unfold hasNull Path.child
  rw [List.any_append, List.any_cons, List.any_nil, Bool.or_false]

theorem hasNull_of_child {parent : Path} {name : String}
    (h : hasNull (parent.child name) = false) : hasNull parent = false := by
  rw [hasNull_child, Bool.or_eq_false_iff] at h
  exact h.1

theorem hasNull_child_child {parent : Path} {name ending : String}
    (h : hasNull (parent.child (name ++ ending)) = false) :
    hasNull ((parent.child name).child (name ++ ending)) = false := by
  have hname := Store.hasNull_child_append h
  rw [hasNull_child, Bool.or_eq_false_iff] at h
  rw [hasNull_child, Bool.or_eq_false_iff]
  exact ⟨hname, h.2⟩

theorem look_of_locate {fs : FileSystem} {path : Path} {location : Location}
    (hnull : hasNull path = false) (h : fs.locate path = .ok location) :
    fs.look path = .ok (fs.entry? location) := by
  unfold look
  rw [hnull, if_neg Bool.false_ne_true, h]

/-!
# Kept directories
-/

def SameDirectories (before after : FileSystem) : Prop :=
  before.Keeps after ∧ after.Keeps before

section Directories

variable {before after : FileSystem}

theorem sameDirectories_of_entries (hworking : after.working = before.working)
    (h : forall other, after.entry? other = before.entry? other ∨
      before.entry? other ≠ some .directory ∧ after.entry? other ≠ some .directory) :
    before.SameDirectories after := by
  refine ⟨⟨hworking, ?_⟩, ⟨hworking.symm, ?_⟩⟩
  · intro other hother
    rcases h other with hsame | ⟨hne, _⟩
    · rw [hsame, hother]
    · exact absurd hother hne
  · intro other hother
    rcases h other with hsame | ⟨_, hne⟩
    · rw [← hsame, hother]
    · exact absurd hother hne

theorem SameDirectories.locate_eq_ok (h : before.SameDirectories after) {path : Path}
    {location : Location} :
    before.locate path = .ok location <-> after.locate path = .ok location :=
  ⟨h.1.locate, h.2.locate⟩

theorem SameDirectories.isDirectory_eq (h : before.SameDirectories after) (path : Path) :
    before.isDirectory path = after.isDirectory path := by
  cases hafter : after.isDirectory path with
  | true =>
      exact h.2.isDirectory hafter
  | false =>
      exact h.1.not_isDirectory hafter

/-- Where the same directories stand, what a path shows changes only at its location. -/
theorem SameDirectories.standing_eq (h : before.SameDirectories after) {path : Path}
    (hentry : forall location, before.locate path = .ok location ->
      after.entry? location = before.entry? location) :
    after.standing path = before.standing path := by
  apply Option.ext
  intro entry
  rw [standing_eq_some, standing_eq_some]
  constructor
  · intro hstanding
    rcases hstanding with ⟨hnull, location, hlocate, hfound⟩
    have hbefore := h.locate_eq_ok.mpr hlocate
    rw [hentry location hbefore] at hfound
    exact ⟨hnull, location, hbefore, hfound⟩
  · intro hstanding
    rcases hstanding with ⟨hnull, location, hlocate, hfound⟩
    rw [← hentry location hlocate] at hfound
    exact ⟨hnull, location, h.locate_eq_ok.mp hlocate, hfound⟩

theorem SameDirectories.directory_iff (h : before.SameDirectories after) (location : Location) :
    before.entry? location = some .directory <-> after.entry? location = some .directory :=
  ⟨h.1.directory location, h.2.directory location⟩

end Directories

/-!
# Writable paths
-/

def WritableAt (fs : FileSystem) (path : Path) (location : Location) : Prop :=
  hasNull path = false ∧ fs.locate path = .ok location ∧ fs.entry? location ≠ some .directory

def Writable (fs : FileSystem) (path : Path) : Prop :=
  exists location, fs.WritableAt path location

theorem WritableAt.not_isDirectory {fs : FileSystem} {path : Path} {location : Location}
    (h : fs.WritableAt path location) : fs.isDirectory path = false := by
  rcases h with ⟨_, hlocate, hfree⟩
  by_contra hdirectory
  rcases isDirectory_iff.mp ((Bool.not_eq_false _).mp hdirectory) with ⟨_, other, hother, hentry⟩
  rw [hlocate] at hother
  cases hother
  exact hfree hentry

theorem SameDirectories.writableAt_iff {before after : FileSystem}
    (h : before.SameDirectories after) {path : Path} {location : Location} :
    before.WritableAt path location <-> after.WritableAt path location := by
  unfold WritableAt
  rw [h.locate_eq_ok, Ne, h.directory_iff]

theorem SameDirectories.writable_iff {before after : FileSystem}
    (h : before.SameDirectories after) {path : Path} :
    before.Writable path <-> after.Writable path :=
  exists_congr (fun _ => h.writableAt_iff)

theorem exists_writeFile_of_writable {fs : FileSystem} {path : Path} (h : fs.Writable path)
    (content : Bytes) : exists fs', fs.writeFile path content = .ok fs' := by
  rcases h with ⟨location, hnull, hlocate, hfree⟩
  unfold writeFile
  rw [hnull, if_neg Bool.false_ne_true, hlocate]
  dsimp only
  rcases hentry : fs.entry? location with _ | entry
  · exact ⟨_, rfl⟩
  · cases entry with
    | directory =>
        exact absurd hentry hfree
    | file ownerOnly old =>
        exact ⟨_, rfl⟩

/-!
# Taking files away
-/

def ClearedAt (before after : FileSystem) (location : Location) : Prop :=
  after.working = before.working ∧
    forall other, after.entry? other = if other = location then none else before.entry? other

theorem ClearedAt.sameDirectories {before after : FileSystem} {location : Location}
    (h : ClearedAt before after location) (hfree : before.entry? location ≠ some .directory) :
    before.SameDirectories after := by
  rcases h with ⟨hworking, hentry⟩
  apply sameDirectories_of_entries hworking
  intro other
  by_cases hsame : other = location
  · rw [hentry, if_pos hsame, hsame]
    exact Or.inr ⟨hfree, by simp⟩
  · exact Or.inl ((hentry other).trans (if_neg hsame))

theorem removeFile_eq_ok {fs fs' : FileSystem} {path : Path} (h : fs.removeFile path = .ok fs') :
    exists location, fs.locate path = .ok location ∧ fs.entry? location ≠ some .directory ∧
      fs.ClearedAt fs' location := by
  unfold removeFile at h
  rcases hlocate : fs.locate path with refusal | location
  · rw [hlocate] at h
    cases h
  · rw [hlocate] at h
    dsimp only at h
    rcases hentry : fs.entry? location with _ | entry
    · rw [hentry] at h
      cases h
    · cases entry with
      | directory =>
          rw [hentry] at h
          cases h
      | file ownerOnly content =>
          rw [hentry] at h
          cases h
          have hfree : fs.entry? location ≠ some .directory := by
            rw [hentry]
            simp
          refine ⟨location, rfl, hfree, rfl, ?_⟩
          exact entry?_erase fs (ne_nil_of_not_directory hfree)

theorem exists_removeFile {fs : FileSystem} {path : Path} {location : Location} {ownerOnly : Bool}
    {content : Bytes} (hlocate : fs.locate path = .ok location)
    (hfile : fs.entry? location = some (.file ownerOnly content)) :
    exists fs', fs.removeFile path = .ok fs' := by
  unfold removeFile
  rw [hlocate]
  dsimp only
  rw [hfile]
  exact ⟨_, rfl⟩

/-!
# Storing and moving files
-/

/-- A file with the given content stands at the goal, and its source is free; the rest is as
before. -/
def MovedTo (before after : FileSystem) (source goal : Location) (content : Bytes) : Prop :=
  after.working = before.working ∧
    exists ownerOnly, forall other, after.entry? other =
      if other = goal then some (.file ownerOnly content)
      else if other = source then none else before.entry? other

theorem MovedTo.sameDirectories {before after : FileSystem} {source goal : Location}
    {content : Bytes} (h : MovedTo before after source goal content)
    (hsource : before.entry? source ≠ some .directory)
    (hgoal : before.entry? goal ≠ some .directory) : before.SameDirectories after := by
  rcases h with ⟨hworking, ownerOnly, hentry⟩
  apply sameDirectories_of_entries hworking
  intro other
  rw [hentry]
  by_cases hsameGoal : other = goal
  · rw [if_pos hsameGoal, hsameGoal]
    exact Or.inr ⟨hgoal, by simp⟩
  · rw [if_neg hsameGoal]
    by_cases hsameSource : other = source
    · rw [if_pos hsameSource, hsameSource]
      exact Or.inr ⟨hsource, by simp⟩
    · exact Or.inl (if_neg hsameSource)

theorem exists_moveFile {fs : FileSystem} {parent : Path} {name ending : String}
    (hending : name ++ ending ≠ "..") (hnull : hasNull (parent.child (name ++ ending)) = false)
    {source : Location} {ownerOnly : Bool} {content : Bytes}
    (hsource : fs.locate (parent.child (name ++ ending)) = .ok source)
    (hfile : fs.entry? source = some (.file ownerOnly content))
    (hfree : fs.isDirectory (parent.child name) = false) :
    exists fs', fs.moveFile (parent.child (name ++ ending)) (parent.child name) = .ok fs' := by
  rcases exists_locate_of_append hending hsource with ⟨goal, hgoal⟩
  have hne : fs.entry? goal ≠ some .directory := by
    intro hdirectory
    rw [isDirectory_iff.mpr ⟨Store.hasNull_child_append hnull, goal, hgoal, hdirectory⟩] at hfree
    cases hfree
  unfold moveFile rename
  rw [hfree, if_neg Bool.false_ne_true, hsource, hgoal]
  dsimp only
  rw [hfile]
  rcases hentry : fs.entry? goal with _ | entry
  · exact ⟨_, rfl⟩
  · cases entry with
    | directory =>
        exact absurd hentry hne
    | file ownerOnly' old =>
        exact ⟨_, rfl⟩

section Stored

variable {before stored after : FileSystem} {source : Location} {content : Bytes}
  (h : StoredAt before stored source content)
include h

theorem StoredAt.entry?_eq :
    exists ownerOnly, stored.entry? source = some (.file ownerOnly content) := by
  rcases h with ⟨_, owner, hentry⟩
  exact ⟨owner, (hentry source).trans (if_pos rfl)⟩

theorem StoredAt.sameDirectories (hfree : before.entry? source ≠ some .directory) :
    before.SameDirectories stored :=
  ⟨h.keeps hfree, h.kept⟩

theorem StoredAt.movedTo {temp target : Path} (hfree : before.entry? source ≠ some .directory)
    (hsource : before.locate temp = .ok source) (hrename : stored.rename temp target = .ok after) :
    exists goal, before.locate target = .ok goal ∧ MovedTo before after source goal content := by
  have hsame := h.sameDirectories hfree
  rcases h with ⟨hworking, owner, hentry⟩
  have hfile : stored.entry? source = some (.file owner content) := by
    rw [hentry, if_pos rfl]
  rcases entry?_rename hrename (hsame.1.locate hsource) hfile with
    ⟨hkeeps, _, goal, hgoal, hentries⟩
  refine ⟨goal, hsame.2.locate hgoal, hkeeps.working_eq.trans hworking, owner, ?_⟩
  intro other
  rw [hentries, hentry]
  by_cases hsameSource : other = source
  · simp only [if_pos hsameSource]
  · simp only [if_neg hsameSource]

theorem StoredAt.clearedAt (hcleared : stored.ClearedAt after source) :
    before.ClearedAt after source := by
  rcases h with ⟨hworking, owner, hentry⟩
  refine ⟨hcleared.1.trans hworking, ?_⟩
  intro other
  rw [hcleared.2, hentry]
  by_cases hsame : other = source
  · rw [if_pos hsame, if_pos hsame]
  · rw [if_neg hsame, if_neg hsame, if_neg hsame]

end Stored

end FileSystem
end WalletVault
