import WalletVault.Proofs.Files.Changes

/-!
# How a write ends

A write makes the parent directory, stores the data under the temporary name
and moves it. It is refused before anything is touched, or it fails on the way
and takes the temporary file away again, or it returns with the data moved. The
data is moved to the path, or into the path if the path is a directory.
-/

namespace WalletVault
namespace Store

open FileSystem

/-!
# Cleaning up
-/

/-- What cleaning up leaves, whether or not it is refused. -/
def Cleaned (temp : Path) (before after : FileSystem) : Prop :=
  after = before ∨ exists location, before.WritableAt temp location ∧
    before.ClearedAt after location

section CleaningUp

variable {temp : Path} {fs after : FileSystem}

theorem cleaned_of_cleanUp (h : cleanUp temp fs = .ok after) : Cleaned temp fs after := by
  unfold cleanUp at h
  rcases hlook : fs.look temp with fault | found
  · rw [hlook] at h
    cases h
  · rw [hlook] at h
    cases found with
    | none =>
        cases h
        exact Or.inl rfl
    | some entry =>
        rcases removeFile_eq_ok h with ⟨location, hlocate, hfree, hcleared⟩
        have hnull := (standing_eq_some.mp (look_eq_ok_some.mp hlook)).1
        exact Or.inr ⟨location, ⟨hnull, hlocate, hfree⟩, hcleared⟩

theorem exists_cleanUp_of_file {location : Location} {ownerOnly : Bool} {content : Bytes}
    (hnull : hasNull temp = false) (hlocate : fs.locate temp = .ok location)
    (hfile : fs.entry? location = some (.file ownerOnly content)) :
    exists after, cleanUp temp fs = .ok after ∧ fs.ClearedAt after location := by
  rcases exists_removeFile hlocate hfile with ⟨after, hremoved⟩
  rcases removeFile_eq_ok hremoved with ⟨location', hlocate', _, hcleared⟩
  rw [hlocate] at hlocate'
  cases hlocate'
  refine ⟨after, ?_, hcleared⟩
  unfold cleanUp
  rw [look_of_locate hnull hlocate, hfile]
  exact hremoved

end CleaningUp

/-!
# Endings
-/

inductive Ending (force : Bool) (parent : Path) (name : String) (data : Bytes)
    (fs : FileSystem) : Except Fault Unit -> FileSystem -> Prop where
  /-- Nothing was touched. -/
  | refused (fault : Fault)
      (cause : (exists fault, fs.look (parent.child name) = .error fault) ∨
        (force = false ∧ exists entry, fs.look (parent.child name) = .ok (some entry)) ∨
        hasNull parent = true) :
      Ending force parent name data fs (.error fault) fs
  /-- The parent directory could not be made. -/
  | unmade (fault : Fault) (refusal : SystemFault) (made after : FileSystem)
      (hmade : fs.makeDirectories parent = (.error refusal, made))
      (hcleaned : Cleaned (parent.child (name ++ ".temp")) made after) :
      Ending force parent name data fs (.error fault) after
  /-- The temporary file could not be stored. -/
  | unstored (fault : Fault) (made : FileSystem)
      (hmade : fs.makeDirectories parent = (.ok (), made))
      (hwritable : ¬ made.Writable (parent.child (name ++ ".temp"))) :
      Ending force parent name data fs (.error fault) made
  /-- The path is a directory that did not take the temporary file in. -/
  | unmoved (cause : SystemFault) (made after : FileSystem) (source : Location)
      (hmade : fs.makeDirectories parent = (.ok (), made))
      (hsource : made.WritableAt (parent.child (name ++ ".temp")) source)
      (hdirectory : made.isDirectory (parent.child name) = true)
      (hcleared : made.ClearedAt after source) :
      Ending force parent name data fs
        (.error (.file (.unwritten (parent.child name).toString cause))) after
  /-- The temporary file was moved to the path. -/
  | placed (made after : FileSystem) (source goal : Location)
      (hmade : fs.makeDirectories parent = (.ok (), made))
      (hsource : made.WritableAt (parent.child (name ++ ".temp")) source)
      (hgoal : made.WritableAt (parent.child name) goal)
      (hmoved : made.MovedTo after source goal data) :
      Ending force parent name data fs (.ok ()) after
  /-- The path is a directory, and the temporary file was moved into it. -/
  | misplaced (made after : FileSystem) (source goal : Location)
      (hmade : fs.makeDirectories parent = (.ok (), made))
      (hsource : made.WritableAt (parent.child (name ++ ".temp")) source)
      (hdirectory : made.isDirectory (parent.child name) = true)
      (hinside : made.locate ((parent.child name).child (name ++ ".temp")) = .ok goal)
      (hgoal : made.entry? goal = none)
      (hne : goal ≠ source)
      (hmoved : made.MovedTo after source goal data) :
      Ending force parent name data fs (.ok ()) after

section Writing

variable {ownerOnly force : Bool} {parent : Path} {name : String} {data : Bytes}
  {fs made stored after : FileSystem}

section Moving

variable {source : Location} (hmade : fs.makeDirectories parent = (.ok (), made))
  (hsource : made.WritableAt (parent.child (name ++ ".temp")) source)
  (hstored : StoredAt made stored source data)
include hmade hsource hstored

theorem ending_of_moveFile
    (h : stored.moveFile (parent.child (name ++ ".temp")) (parent.child name) = .ok after) :
    Ending force parent name data fs (.ok ()) after := by
  rcases hsource with ⟨hnull, hlocate, hfree⟩
  have hsame := hstored.sameDirectories hfree
  rcases moveFile_eq_ok h with ⟨hdirectory, hrename⟩ | ⟨hdirectory, hlook, hrename⟩
  · rcases hstored.movedTo hfree hlocate hrename with ⟨goal, hgoal, hmoved⟩
    refine .placed made after source goal hmade ⟨hnull, hlocate, hfree⟩ ⟨?_, hgoal, ?_⟩ hmoved
    · exact hasNull_child_append hnull
    · intro hentry
      rw [← hsame.isDirectory_eq,
        isDirectory_iff.mpr ⟨hasNull_child_append hnull, goal, hgoal, hentry⟩] at hdirectory
      cases hdirectory
  · rcases hstored.movedTo hfree hlocate hrename with ⟨goal, hgoal, hmoved⟩
    rw [← hsame.isDirectory_eq] at hdirectory
    rw [Path.name_child] at hlook hgoal
    have hnone : stored.entry? goal = none := by
      rw [look_of_locate (hasNull_child_child hnull) (hsame.locate_eq_ok.mp hgoal)] at hlook
      exact Except.ok.inj hlook
    have hne : goal ≠ source := by
      intro hsameLocation
      rcases hstored.entry?_eq with ⟨owner, hfile⟩
      rw [hsameLocation, hfile] at hnone
      cases hnone
    have hnoneBefore : made.entry? goal = none := by
      rcases hstored with ⟨_, owner, hentry⟩
      rwa [hentry, if_neg hne] at hnone
    exact .misplaced made after source goal hmade ⟨hnull, hlocate, hfree⟩ hdirectory hgoal
      hnoneBefore hne hmoved

theorem ending_of_moveFile_error {cause : SystemFault}
    (h : stored.moveFile (parent.child (name ++ ".temp")) (parent.child name) = .error cause) :
    exists cleaned, cleanUp (parent.child (name ++ ".temp")) stored = .ok cleaned ∧
      Ending force parent name data fs
        (.error (.file (.unwritten (parent.child name).toString cause))) cleaned := by
  rcases hsource with ⟨hnull, hlocate, hfree⟩
  have hsame := hstored.sameDirectories hfree
  have hlocate' := hsame.locate_eq_ok.mp hlocate
  rcases hstored.entry?_eq with ⟨owner, hfile⟩
  rcases exists_cleanUp_of_file hnull hlocate' hfile with ⟨cleaned, hclean, hcleared⟩
  have hdirectory : made.isDirectory (parent.child name) = true := by
    by_contra hfreeName
    rw [hsame.isDirectory_eq, Bool.not_eq_true] at hfreeName
    rcases exists_moveFile (temp_ne_up name) hnull hlocate' hfile hfreeName with ⟨moved, hmoved⟩
    rw [hmoved] at h
    cases h
  exact ⟨cleaned, hclean, .unmoved cause made cleaned source hmade ⟨hnull, hlocate, hfree⟩
    hdirectory (hstored.clearedAt hcleared)⟩

end Moving

/-- A write stops at the first of its steps that is refused. -/
theorem writeBytes_ending {result : Except Fault Unit}
    (h : writeBytes ownerOnly force (parent.child name) data fs = (result, after)) :
    Ending force parent name data fs result after := by
  unfold writeBytes at h
  rcases hlook : fs.look (parent.child name) with fault | found
  · rw [hlook] at h
    cases h
    exact .refused _ (Or.inl ⟨fault, hlook⟩)
  rw [hlook, Path.extend_child] at h
  dsimp only at h
  by_cases htaken : (found.isSome && !force) = true
  · rw [if_pos htaken] at h
    cases h
    rcases (Bool.and_eq_true _ _).mp htaken with ⟨hsome, hforce⟩
    rcases Option.isSome_iff_exists.mp hsome with ⟨entry, hentry⟩
    rw [hentry] at hlook
    exact .refused _ (Or.inr (Or.inl ⟨by simpa using hforce, entry, hlook⟩))
  rw [if_neg htaken] at h
  unfold place at h
  rw [Path.parent_child] at h
  by_cases hnull : hasNull parent = true
  · rw [if_pos hnull] at h
    cases h
    exact .refused _ (Or.inr (Or.inr hnull))
  rw [if_neg hnull] at h
  rcases hmade : fs.makeDirectories parent with ⟨refusal | _, made⟩
  · rw [hmade] at h
    dsimp only at h
    rcases hclean : cleanUp (parent.child (name ++ ".temp")) made with fault | cleaned
    · rw [hclean] at h
      cases h
      exact .unmade _ refusal _ _ hmade (Or.inl rfl)
    · rw [hclean] at h
      cases h
      exact .unmade _ refusal _ _ hmade (cleaned_of_cleanUp hclean)
  rw [hmade] at h
  dsimp only at h
  rcases hwritten : made.writeFile (parent.child (name ++ ".temp")) data with stop | written
  · have hwritable : ¬ made.Writable (parent.child (name ++ ".temp")) := by
      intro hwritable
      rcases exists_writeFile_of_writable hwritable data with ⟨written, hsome⟩
      rw [hwritten] at hsome
      cases hsome
    rw [hwritten] at h
    cases stop with
    | null =>
        cases h
        exact .unstored _ _ hmade hwritable
    | fault cause =>
        dsimp only at h
        rcases hclean : cleanUp (parent.child (name ++ ".temp")) made with fault | cleaned
        · rw [hclean] at h
          cases h
          exact .unstored _ _ hmade hwritable
        · rw [hclean] at h
          cases h
          -- What could not be stored is not there to be taken away.
          rcases cleaned_of_cleanUp hclean with hsame | ⟨location, hlocation, _⟩
          · rw [hsame]
            exact .unstored _ _ hmade hwritable
          · exact absurd ⟨location, hlocation⟩ hwritable
  rw [hwritten] at h
  dsimp only at h
  rcases storedAt_of_writeFile ownerOnly hwritten with ⟨source, hsource, hstored⟩
  generalize (if ownerOnly = true then
    written.restrict (parent.child (name ++ ".temp")) else written) = stored at h hstored
  rcases hmoved : stored.moveFile (parent.child (name ++ ".temp")) (parent.child name) with
    cause | moved
  · rcases ending_of_moveFile_error hmade hsource hstored hmoved with ⟨cleaned, hclean, hending⟩
    rw [hmoved] at h
    dsimp only at h
    rw [hclean] at h
    cases h
    exact hending
  · rw [hmoved] at h
    cases h
    exact ending_of_moveFile hmade hsource hstored hmoved

end Writing

/-!
# Writes that return
-/

structure Returned (parent : Path) (name : String) (made after : FileSystem) : Prop where
  parent_directory : made.isDirectory parent = true
  same : made.SameDirectories after
  writable : made.Writable (parent.child (name ++ ".temp"))
  cleared : after.standing (parent.child (name ++ ".temp")) = none
  frame : name ≠ ".." -> forall other, other ≠ ".." -> other ≠ name -> other ≠ name ++ ".temp" ->
    after.standing (parent.child other) = made.standing (parent.child other)

theorem Returned.isDirectory_parent {parent : Path} {name : String} {made middle : FileSystem}
    (h : Returned parent name made middle) : middle.isDirectory parent = true := by
  rw [← h.same.isDirectory_eq]
  exact h.parent_directory

theorem Returned.makeDirectories_eq {parent : Path} {name : String} {made middle : FileSystem}
    (h : Returned parent name made middle) : middle.makeDirectories parent = (.ok (), middle) :=
  makeDirectories_of_isDirectory h.isDirectory_parent

section Returning

variable {force : Bool} {parent : Path} {name : String} {data : Bytes} {fs made after : FileSystem}
  {source goal : Location}

theorem standing_of_moved (hsame : made.SameDirectories after)
    (hsource : made.locate (parent.child (name ++ ".temp")) = .ok source) (hne : goal ≠ source)
    (hmoved : made.MovedTo after source goal data) :
    after.standing (parent.child (name ++ ".temp")) = none := by
  rcases hmoved with ⟨_, owner, hentry⟩
  apply Option.eq_none_iff_forall_ne_some.mpr
  intro entry hstanding
  rcases standing_eq_some.mp hstanding with ⟨_, location, hlocate, hfound⟩
  rw [← hsame.locate_eq_ok, hsource] at hlocate
  cases hlocate
  rw [hentry, if_neg (Ne.symm hne), if_pos rfl] at hfound
  cases hfound

theorem returned_of_ending (h : Ending force parent name data fs (.ok ()) after) :
    Returned parent name (fs.makeDirectories parent).2 after := by
  cases h with
  | placed made _ source goal hmade hsource hgoal hmoved =>
      rw [hmade]
      have hnull : hasNull parent = false := hasNull_of_child hsource.1
      have hsame := hmoved.sameDirectories hsource.2.2 hgoal.2.2
      have hne : goal ≠ source :=
        ne_of_locate_child (temp_ne_up name) (ne_temp name) hgoal.2.1 hsource.2.1
      refine ⟨isDirectory_of_makeDirectories hnull hmade, hsame, ⟨source, hsource⟩,
        standing_of_moved hsame hsource.2.1 hne hmoved, ?_⟩
      intro hname other hother hneName hneTemp
      apply hsame.standing_eq
      intro location hlocate
      rcases hmoved with ⟨_, owner, hentry⟩
      rw [hentry, if_neg, if_neg]
      · exact ne_of_locate_child (temp_ne_up name) hneTemp hlocate hsource.2.1
      · exact ne_of_locate_child hname hneName hlocate hgoal.2.1
  | misplaced made _ source goal hmade hsource hdirectory hinside hgoal hne hmoved =>
      rw [hmade]
      have hnull : hasNull parent = false := hasNull_of_child hsource.1
      have hfree : made.entry? goal ≠ some .directory := by
        rw [hgoal]
        simp
      have hsame := hmoved.sameDirectories hsource.2.2 hfree
      refine ⟨isDirectory_of_makeDirectories hnull hmade, hsame, ⟨source, hsource⟩,
        standing_of_moved hsame hsource.2.1 hne hmoved, ?_⟩
      intro hname other hother hneName hneTemp
      apply hsame.standing_eq
      intro location hlocate
      rcases hmoved with ⟨_, owner, hentry⟩
      rw [hentry, if_neg, if_neg]
      · exact ne_of_locate_child (temp_ne_up name) hneTemp hlocate hsource.2.1
      · exact Ne.symm (ne_of_locate_grandchild hname (temp_ne_up name) hother hinside hlocate)

end Returning

end Store
end WalletVault
