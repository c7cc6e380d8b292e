import WalletVault.Files.Store
import WalletVault.Proofs.Files.Making

/-!
# Placing files

A file is written beside its destination and then moved. If the destination is
no directory once its parent is made, the file ends up there and everything
else is as it was, but for the temporary name, which is free again.
-/

namespace WalletVault

namespace Path

theorem name_child (parent : Path) (name : String) : (parent.child name).name = name := by
  simp [child, Path.name]

theorem parent_child (parent : Path) (name : String) : (parent.child name).parent = parent := by
  simp [child, Path.parent]

theorem extend_child (parent : Path) (name ending : String) :
    (parent.child name).extend ending = .ok (parent.child (name ++ ending)) := by
  have hname := name_child parent name
  simp [extend, child] at hname ⊢
  rw [hname]

end Path

namespace FileSystem

/-!
# Single operations
-/

/-- A file with the given content stands at a location; the rest is as before. -/
def StoredAt (before after : FileSystem) (location : Location) (content : Bytes) : Prop :=
  after.working = before.working ∧
    exists ownerOnly, forall other, after.entry? other =
      if other = location then some (.file ownerOnly content) else before.entry? other

theorem StoredAt.keeps {before after : FileSystem} {location : Location} {content : Bytes}
    (h : StoredAt before after location content)
    (hfree : before.entry? location ≠ some .directory) : before.Keeps after := by
  rcases h with ⟨hworking, ownerOnly, hentry⟩
  refine ⟨hworking, ?_⟩
  intro other hother
  have hne : other ≠ location := by
    intro hsame
    rw [hsame] at hother
    exact hfree hother
  rw [hentry, if_neg hne, hother]

theorem StoredAt.kept {before after : FileSystem} {location : Location} {content : Bytes}
    (h : StoredAt before after location content) : after.Keeps before := by
  rcases h with ⟨hworking, ownerOnly, hentry⟩
  refine ⟨hworking.symm, ?_⟩
  intro other hother
  rw [hentry] at hother
  by_cases hsame : other = location
  · rw [if_pos hsame] at hother
    cases hother
  · rwa [if_neg hsame] at hother

theorem storedAt_put {fs : FileSystem} {location : Location} (hlocation : location ≠ [])
    (ownerOnly : Bool) (content : Bytes) :
    StoredAt fs (fs.put location (.file ownerOnly content)) location content :=
  ⟨rfl, ownerOnly, entry?_put fs hlocation _⟩

theorem writeFile_eq_ok {fs fs' : FileSystem} {path : Path} {content : Bytes}
    (h : fs.writeFile path content = .ok fs') :
    hasNull path = false ∧
      exists location, fs.locate path = .ok location ∧
        fs.entry? location ≠ some .directory ∧ StoredAt fs fs' location content := by
  unfold writeFile at h
  by_cases hnull : hasNull path = true
  · rw [if_pos hnull] at h
    cases h
  · rw [if_neg hnull] at h
    refine ⟨by simpa using hnull, ?_⟩
    rcases hlocate : fs.locate path with refusal | location
    · rw [hlocate] at h
      cases h
    · rw [hlocate] at h
      refine ⟨location, rfl, ?_⟩
      rcases hentry : fs.entry? location with _ | entry
      · simp only [hentry] at h
        cases h
        have hfree : fs.entry? location ≠ some .directory := by
          rw [hentry]
          simp
        exact ⟨by simp, storedAt_put (ne_nil_of_not_directory hfree) false content⟩
      · cases entry with
        | directory =>
            simp only [hentry] at h
            cases h
        | file ownerOnly old =>
            simp only [hentry] at h
            cases h
            have hfree : fs.entry? location ≠ some .directory := by
              rw [hentry]
              simp
            exact ⟨by simp, storedAt_put (ne_nil_of_not_directory hfree) ownerOnly content⟩

theorem StoredAt.restrict {before after : FileSystem} {path : Path} {location : Location}
    {content : Bytes} (h : StoredAt before after location content)
    (hfree : before.entry? location ≠ some .directory)
    (hlocate : before.locate path = .ok location) :
    StoredAt before (after.restrict path) location content := by
  have hlocate' := (h.keeps hfree).locate hlocate
  rcases h with ⟨hworking, ownerOnly, hentry⟩
  have hfile : after.entry? location = some (.file ownerOnly content) := by
    rw [hentry, if_pos rfl]
  by_cases hfixed : after.fixedModes = true
  · unfold FileSystem.restrict
    rw [if_pos hfixed]
    exact ⟨hworking, ownerOnly, hentry⟩
  have hrestrict : after.restrict path = after.put location (.file true content) := by
    simp [FileSystem.restrict, hfixed, hlocate', hfile]
  rw [hrestrict]
  refine ⟨hworking, true, ?_⟩
  intro other
  rw [entry?_put after (ne_nil_of_not_directory hfree), hentry]
  by_cases hsame : other = location
  · rw [if_pos hsame, if_pos hsame]
  · rw [if_neg hsame, if_neg hsame, if_neg hsame]

theorem rename_eq_ok {fs fs' : FileSystem} {source target : Path}
    (h : fs.rename source target = .ok fs') :
    exists start goal entry, fs.locate source = .ok start ∧ fs.locate target = .ok goal ∧
      fs.entry? start = some entry ∧ fs.entry? goal ≠ some .directory ∧
      fs' = (fs.erase start).put goal entry := by
  unfold rename at h
  rcases hsource : fs.locate source with refusal | start
  · rw [hsource] at h
    cases h
  · rcases htarget : fs.locate target with refusal | goal
    · rw [hsource, htarget] at h
      cases h
    · rw [hsource, htarget] at h
      rcases hstart : fs.entry? start with _ | entry
      · simp only [hstart] at h
        cases h
      · rcases hgoal : fs.entry? goal with _ | old
        · simp only [hstart, hgoal] at h
          cases h
          exact ⟨start, goal, entry, rfl, rfl, hstart, by rw [hgoal]; simp, rfl⟩
        · cases old with
          | directory =>
              simp only [hstart, hgoal] at h
              cases h
          | file ownerOnly content =>
              simp only [hstart, hgoal] at h
              cases h
              exact ⟨start, goal, entry, rfl, rfl, hstart, by rw [hgoal]; simp, rfl⟩

theorem moveFile_eq_ok {fs fs' : FileSystem} {source target : Path}
    (h : fs.moveFile source target = .ok fs') :
    (fs.isDirectory target = false ∧ fs.rename source target = .ok fs') ∨
      (fs.isDirectory target = true ∧ fs.look (target.child source.name) = .ok none ∧
        fs.rename source (target.child source.name) = .ok fs') := by
  unfold moveFile at h
  by_cases hdirectory : fs.isDirectory target = true
  · rw [if_pos hdirectory] at h
    dsimp only at h
    rcases hlook : fs.look (target.child source.name) with fault | found
    · rw [hlook] at h
      cases h
    · rw [hlook] at h
      cases found with
      | none =>
          exact Or.inr ⟨hdirectory, rfl, h⟩
      | some entry =>
          cases h
  · rw [if_neg hdirectory] at h
    exact Or.inl ⟨by simpa using hdirectory, h⟩

theorem entry?_rename {fs fs' : FileSystem} {source target : Path} {start : Location}
    {ownerOnly : Bool} {content : Bytes} (h : fs.rename source target = .ok fs')
    (hstart : fs.locate source = .ok start)
    (hfile : fs.entry? start = some (.file ownerOnly content)) :
    fs.Keeps fs' ∧ fs'.Keeps fs ∧
      exists goal, fs.locate target = .ok goal ∧ forall other, fs'.entry? other =
        if other = goal then some (.file ownerOnly content)
        else if other = start then none else fs.entry? other := by
  rcases rename_eq_ok h with ⟨start', goal, entry, hstart', hgoal, hentry, hfree, hfs'⟩
  rw [hstart] at hstart'
  cases hstart'
  rw [hfile] at hentry
  cases hentry
  have hfreeStart : fs.entry? start ≠ some .directory := by
    rw [hfile]
    simp
  have hentries : forall other, fs'.entry? other =
      if other = goal then some (.file ownerOnly content)
      else if other = start then none else fs.entry? other := by
    intro other
    rw [hfs', entry?_put _ (ne_nil_of_not_directory hfree),
      entry?_erase _ (ne_nil_of_not_directory hfreeStart)]
  have hworking : fs'.working = fs.working := by
    rw [hfs', working_put, working_erase]
  refine ⟨⟨hworking, ?_⟩, ⟨hworking.symm, ?_⟩, goal, hgoal, hentries⟩
  · intro other hother
    have hneGoal : other ≠ goal := by
      intro hsame
      rw [hsame] at hother
      exact hfree hother
    have hneStart : other ≠ start := by
      intro hsame
      rw [hsame] at hother
      exact hfreeStart hother
    rw [hentries, if_neg hneGoal, if_neg hneStart, hother]
  · intro other hother
    rw [hentries] at hother
    by_cases hsameGoal : other = goal
    · rw [if_pos hsameGoal] at hother
      cases hother
    · rw [if_neg hsameGoal] at hother
      by_cases hsameStart : other = start
      · rw [if_pos hsameStart] at hother
        cases hother
      · rwa [if_neg hsameStart] at hother

theorem locate_child_of_walk {fs fs' : FileSystem} {parent : Path} {name : String}
    (hname : name ≠ "..") {location directory : Location}
    (hlocate : fs.locate (parent.child name) = .ok location)
    (hwalk : fs'.walk (fs'.startOf parent) parent.names = .ok directory) :
    fs'.locate (parent.child name) = .ok (directory ++ [name]) := by
  rcases (locate_child_eq_ok hname).mp hlocate with ⟨hshort, _⟩
  exact (locate_child_eq_ok hname).mpr ⟨hshort, directory, hwalk, rfl⟩

end FileSystem

/-!
# Writing one file

The destinations are names in one directory. Names whose temporary names stay
out of each other's way can be written one after the other.
-/

namespace Store

open FileSystem

theorem place_eq_ok {ownerOnly : Bool} {path temp : Path} {data : Bytes} {fs fs' : FileSystem} :
    place ownerOnly path temp data fs = (.ok (), fs') <->
      hasNull path.parent = false ∧
        exists made written, fs.makeDirectories path.parent = (.ok (), made) ∧
          made.writeFile temp data = .ok written ∧
          FileSystem.moveFile (if ownerOnly then written.restrict temp else written) temp path =
            .ok fs' := by
  unfold place
  by_cases hnull : hasNull path.parent = true
  · simp [hnull]
  · rcases fs.makeDirectories path.parent with ⟨result, made⟩
    cases result with
    | error fault =>
        simp [hnull]
    | ok _ =>
        rcases hwritten : made.writeFile temp data with stop | written
        · simp [hnull, hwritten]
        · rcases hmoved : FileSystem.moveFile
            (if ownerOnly then written.restrict temp else written) temp path with fault | moved
          · simp [hnull, hwritten, hmoved]
          · simp [hnull, hwritten, hmoved]

theorem storedAt_of_writeFile (ownerOnly : Bool) {temp : Path} {data : Bytes}
    {made stored : FileSystem} (h : made.writeFile temp data = .ok stored) :
    exists source, (hasNull temp = false ∧ made.locate temp = .ok source ∧
        made.entry? source ≠ some .directory) ∧
      StoredAt made (if ownerOnly then stored.restrict temp else stored) source data := by
  rcases writeFile_eq_ok h with ⟨hnull, source, hlocate, hfree, hstored⟩
  refine ⟨source, ⟨hnull, hlocate, hfree⟩, ?_⟩
  cases ownerOnly with
  | true =>
      exact hstored.restrict hfree hlocate
  | false =>
      exact hstored

theorem storedAt_of_place {ownerOnly : Bool} {path temp : Path} {data : Bytes}
    {fs fs' : FileSystem} (h : place ownerOnly path temp data fs = (.ok (), fs')) :
    hasNull path.parent = false ∧
      exists made stored source, fs.makeDirectories path.parent = (.ok (), made) ∧
        hasNull temp = false ∧ made.locate temp = .ok source ∧
        made.entry? source ≠ some .directory ∧ StoredAt made stored source data ∧
        stored.moveFile temp path = .ok fs' := by
  rcases place_eq_ok.mp h with ⟨hnull, made, written, hmade, hwritten, hmoved⟩
  rcases storedAt_of_writeFile ownerOnly hwritten with
    ⟨source, ⟨hnullTemp, hlocate, hfree⟩, hstored⟩
  exact ⟨hnull, made, _, source, hmade, hnullTemp, hlocate, hfree, hstored, hmoved⟩

theorem writeBytes_eq_ok {ownerOnly force : Bool} {path : Path} {data : Bytes}
    {fs fs' : FileSystem} :
    writeBytes ownerOnly force path data fs = (.ok (), fs') <->
      exists found temp, fs.look path = .ok found ∧ (found.isSome && !force) = false ∧
        path.extend ".temp" = .ok temp ∧ place ownerOnly path temp data fs = (.ok (), fs') := by
  constructor
  · intro h
    unfold writeBytes at h
    rcases hlook : fs.look path with fault | found
    · rw [hlook] at h
      cases h
    · rw [hlook] at h
      by_cases htaken : (found.isSome && !force) = true
      · simp only [if_pos htaken] at h
        cases h
      · simp only [if_neg htaken] at h
        rcases htemp : path.extend ".temp" with fault | temp
        · rw [htemp] at h
          cases h
        · simp only [htemp] at h
          refine ⟨found, temp, rfl, by simpa using htaken, rfl, ?_⟩
          rcases hplace : place ownerOnly path temp data fs with ⟨result, placed⟩
          rw [hplace] at h
          cases result with
          | ok _ =>
              cases h
              rfl
          | error stop =>
              cases stop with
              | null =>
                  cases h
              | fault cause =>
                  rcases hclean : cleanUp temp placed with fault | cleaned
                  · simp only [hclean] at h
                    cases h
                  · simp only [hclean] at h
                    cases h
  · intro h
    rcases h with ⟨found, temp, hlook, hfree, htemp, hplace⟩
    have htaken : ¬ (found.isSome && !force) = true := by
      rw [hfree]
      exact Bool.false_ne_true
    unfold writeBytes
    simp only [hlook, if_neg htaken, htemp, hplace]

theorem writeBytes_of_isDirectory {ownerOnly force : Bool} {path temp : Path} {data : Bytes}
    {fs stored fs' : FileSystem} {found : Option Entry} (hlook : fs.look path = .ok found)
    (hfree : (found.isSome && !force) = false) (htemp : path.extend ".temp" = .ok temp)
    (hparent : fs.isDirectory path.parent = true) (hstored : fs.writeFile temp data = .ok stored)
    (hmoved : FileSystem.moveFile (if ownerOnly then stored.restrict temp else stored) temp path =
      .ok fs') : writeBytes ownerOnly force path data fs = (.ok (), fs') := by
  have hnull := (isDirectory_iff.mp hparent).1
  have hplaced : place ownerOnly path temp data fs = (.ok (), fs') :=
    place_eq_ok.mpr ⟨hnull, fs, stored, makeDirectories_of_isDirectory hparent, hstored, hmoved⟩
  exact writeBytes_eq_ok.mpr ⟨found, temp, hlook, hfree, htemp, hplaced⟩

theorem temp_ne_up (name : String) : name ++ ".temp" ≠ ".." := by
  intro h
  have hlength := congrArg String.length h
  rw [String.length_append] at hlength
  change name.length + 5 = 2 at hlength
  omega

theorem ne_temp (name : String) : name ≠ name ++ ".temp" := by
  intro h
  have hlength := congrArg String.length h
  rw [String.length_append] at hlength
  change name.length = name.length + 5 at hlength
  omega

theorem hasNull_child_append {parent : Path} {name ending : String}
    (h : hasNull (parent.child (name ++ ending)) = false) :
    hasNull (parent.child name) = false := by
  unfold hasNull Path.child at h ⊢
  rw [List.any_append, Bool.or_eq_false_iff] at h ⊢
  refine ⟨h.1, ?_⟩
  simp only [List.any_cons, List.any_nil, Bool.or_false, String.toList_append,
    List.contains_eq_mem, List.mem_append, decide_eq_false_iff_not, not_or] at h ⊢
  exact h.2.1

/-- A name that is no directory once its parent is made becomes a file; apart from it and the
temporary name, nothing more changes. -/
theorem writeBytes_child_eq_ok {ownerOnly force : Bool} {parent : Path} {name : String}
    (hname : name ≠ "..") {data : Bytes} {fs fs' : FileSystem}
    (h : writeBytes ownerOnly force (parent.child name) data fs = (.ok (), fs')) :
    hasNull parent = false ∧ hasNull (parent.child name) = false ∧
      exists made, fs.makeDirectories parent = (.ok (), made) ∧ made.Keeps fs' ∧
        (made.isDirectory (parent.child name) = false ->
          fs'.Keeps made ∧ exists directory ownerOnly,
            made.walk (made.startOf parent) parent.names = .ok directory ∧
            made.locate (parent.child name) = .ok (directory ++ [name]) ∧
            forall other, fs'.entry? other =
              if other = directory ++ [name] then some (.file ownerOnly data)
              else if other = directory ++ [name ++ ".temp"] then none
              else made.entry? other) := by
  rcases writeBytes_eq_ok.mp h with ⟨_, temp, _, _, htemp, hplace⟩
  rw [Path.extend_child] at htemp
  cases htemp
  rcases storedAt_of_place hplace with
    ⟨hnull, made, stored, source, hmade, hnullTemp, hsource, hfree, hstored, hmoved⟩
  rw [Path.parent_child] at hnull hmade
  rcases (locate_child_eq_ok (temp_ne_up name)).mp hsource with ⟨_, directory, hwalk, hsourceEq⟩
  have hkeeps := hstored.keeps hfree
  have hsource' := hkeeps.locate hsource
  have hwalk' : stored.walk (stored.startOf parent) parent.names = .ok directory := by
    rw [hkeeps.startOf]
    exact hkeeps.walk hwalk
  rcases hstored with ⟨hworking, owner, hentry⟩
  have hfile : stored.entry? source = some (.file owner data) := by
    rw [hentry, if_pos rfl]
  refine ⟨hnull, hasNull_child_append hnullTemp, made, hmade, ?_⟩
  rcases moveFile_eq_ok hmoved with ⟨hdirectory, hrename⟩ | ⟨hdirectory, _, hrename⟩
  · rcases entry?_rename hrename hsource' hfile with ⟨hkeeps', hkept', goal, hgoal, hentry'⟩
    refine ⟨hkeeps.trans hkeeps', ?_⟩
    intro _
    refine ⟨hkept'.trans (StoredAt.kept ⟨hworking, owner, hentry⟩), directory, owner, hwalk,
      locate_child_of_walk hname hgoal hwalk, ?_⟩
    rw [locate_child_of_walk hname hgoal hwalk'] at hgoal
    cases hgoal
    intro other
    rw [hentry', hentry, hsourceEq]
    by_cases hsame : other = directory ++ [name ++ ".temp"]
    · simp only [if_pos hsame]
    · simp only [if_neg hsame]
  · rcases entry?_rename hrename hsource' hfile with ⟨hkeeps', _⟩
    refine ⟨hkeeps.trans hkeeps', ?_⟩
    intro hfreeName
    -- The destination is a directory after the write, hence before it.
    have hkept := StoredAt.kept ⟨hworking, owner, hentry⟩
    rw [hkept.isDirectory hdirectory] at hfreeName
    cases hfreeName

end Store
end WalletVault
