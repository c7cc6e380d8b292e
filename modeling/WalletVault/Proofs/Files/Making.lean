import Mathlib.Data.List.Induction
import WalletVault.Proofs.Files.Entries

/-!
# Making directories

Making a directory with those on the way to it only adds directories where
nothing stood. A directory that is there once is found there again, so making
it a second time changes nothing.
-/

namespace WalletVault
namespace FileSystem

theorem makeDirectory_eq_ok {fs fs' : FileSystem} {path : Path} :
    fs.makeDirectory path = .ok fs' <->
      exists location, fs.locate path = .ok location ∧ fs.entry? location = none ∧
        fs' = fs.put location .directory := by
  unfold makeDirectory
  rcases fs.locate path with refusal | location
  · simp
  · rcases hentry : fs.entry? location with _ | entry
    · simp [hentry, eq_comm]
    · simp [hentry]

theorem makeDirectories_of_makeDirectory {fs made : FileSystem} {path : Path}
    (h : fs.makeDirectory path = .ok made) : fs.makeDirectories path = (.ok (), made) := by
  rw [makeDirectories, h]

theorem makeDirectories_of_notFound {fs above made : FileSystem} {path : Path}
    (h : fs.makeDirectory path = .error (refused .notFound path)) (hnames : path.names ≠ [])
    (habove : fs.makeDirectories path.parent = (.ok (), above))
    (hmade : above.ensureDirectory path = .ok made) :
    fs.makeDirectories path = (.ok (), made) := by
  rw [makeDirectories, h]
  dsimp only
  rw [if_pos ⟨rfl, hnames⟩, habove]
  dsimp only
  rw [hmade]

theorem isDirectory_iff {fs : FileSystem} {path : Path} :
    fs.isDirectory path = true <->
      hasNull path = false ∧
        exists location, fs.locate path = .ok location ∧
          fs.entry? location = some .directory := by
  unfold isDirectory look
  by_cases hnull : hasNull path = true
  · simp [hnull]
  · rcases fs.locate path with refusal | location
    · cases refusal <;> simp [hnull]
    · rcases hentry : fs.entry? location with _ | entry
      · simp [hnull, hentry]
      · cases entry <;> simp [hnull, hentry]

def standing (fs : FileSystem) (path : Path) : Option Entry :=
  (fs.look path).toOption.join

theorem standing_of_look {fs : FileSystem} {path : Path} {found : Option Entry}
    (h : fs.look path = .ok found) : fs.standing path = found := by
  unfold standing
  rw [h]
  rfl

theorem look_eq_ok_some {fs : FileSystem} {path : Path} {entry : Entry} :
    fs.look path = .ok (some entry) <-> fs.standing path = some entry := by
  unfold standing
  rcases fs.look path with fault | found
  · simp [Except.toOption]
  · simp [Except.toOption]

theorem standing_eq_some {fs : FileSystem} {path : Path} {entry : Entry} :
    fs.standing path = some entry <->
      hasNull path = false ∧
        exists location, fs.locate path = .ok location ∧ fs.entry? location = some entry := by
  unfold standing look
  by_cases hnull : hasNull path = true
  · simp [hnull, Except.toOption]
  · rcases fs.locate path with refusal | location
    · cases refusal <;> simp [hnull, Except.toOption]
    · simp [hnull, Except.toOption]

theorem isDirectory_iff_standing {fs : FileSystem} {path : Path} :
    fs.isDirectory path = true <-> fs.standing path = some .directory := by
  rw [isDirectory_iff, standing_eq_some]

theorem isDirectory_congr {before after : FileSystem} {path : Path}
    (h : after.standing path = before.standing path) :
    after.isDirectory path = before.isDirectory path := by
  rw [Bool.eq_iff_iff, isDirectory_iff_standing, isDirectory_iff_standing, h]

theorem ensureDirectory_eq_ok {fs fs' : FileSystem} {path : Path}
    (h : fs.ensureDirectory path = .ok fs') :
    fs.makeDirectory path = .ok fs' ∨ fs' = fs ∧ fs.isDirectory path = true := by
  unfold ensureDirectory at h
  rcases hmade : fs.makeDirectory path with fault | made
  · rw [hmade] at h
    by_cases hdirectory : fs.isDirectory path = true
    · simp only [if_pos hdirectory] at h
      cases h
      exact Or.inr ⟨rfl, hdirectory⟩
    · simp only [if_neg hdirectory] at h
      cases h
  · rw [hmade] at h
    cases h
    exact Or.inl rfl

theorem Keeps.isDirectory {before after : FileSystem} (h : before.Keeps after) {path : Path}
    (hdirectory : before.isDirectory path = true) : after.isDirectory path = true := by
  rcases isDirectory_iff.mp hdirectory with ⟨hnull, location, hlocate, hentry⟩
  exact isDirectory_iff.mpr
    ⟨hnull, location, h.locate hlocate, h.directory location hentry⟩

theorem Keeps.not_isDirectory {before after : FileSystem} (h : after.Keeps before) {path : Path}
    (hfree : before.isDirectory path = false) : after.isDirectory path = false := by
  cases hdirectory : after.isDirectory path with
  | false =>
      rfl
  | true =>
      rw [h.isDirectory hdirectory] at hfree
      cases hfree

/-- What holds at first and stays when one directory on the way is made holds in the end. -/
theorem makeDirectories_induction {p : FileSystem -> Prop} {fs : FileSystem} (hfs : p fs)
    (path : Path)
    (hstep : forall (fs fs' : FileSystem) (front : Path), p fs -> front.root = path.root ->
      front.names <+: path.names -> fs.makeDirectory front = .ok fs' -> p fs') :
    p (fs.makeDirectories path).2 := by
  rw [makeDirectories]
  rcases hmade : fs.makeDirectory path with fault | made
  · by_cases habsent : fault = refused .notFound path ∧ path.names ≠ []
    · have habove := makeDirectories_induction hfs path.parent
        (fun fs fs' front hp hroot hfront hmake =>
          hstep fs fs' front hp hroot (hfront.trans (List.dropLast_prefix _)) hmake)
      simp only [if_pos habsent]
      rcases hrun : fs.makeDirectories path.parent with ⟨result, above⟩
      rw [hrun] at habove
      cases result with
      | error _ =>
          exact habove
      | ok _ =>
          rcases hensured : above.ensureDirectory path with fault' | ensured
          · simpa only [hensured] using habove
          · simp only [hensured]
            rcases ensureDirectory_eq_ok hensured with hmake | hsame
            · exact hstep above ensured path habove rfl (List.prefix_refl _) hmake
            · rw [hsame.1]
              exact habove
    · simp only [if_neg habsent]
      by_cases hdirectory : fs.isDirectory path = true
      · simpa only [if_pos hdirectory] using hfs
      · simpa only [if_neg hdirectory] using hfs
  · exact hstep fs made path hfs rfl (List.prefix_refl _) hmade
termination_by path.names.length
decreasing_by
  have hpos := List.length_pos_iff.mpr habsent.2
  simp only [Path.parent, List.length_dropLast]
  omega

theorem keeps_makeDirectories (fs : FileSystem) (path : Path) :
    fs.Keeps (fs.makeDirectories path).2 := by
  apply makeDirectories_induction (p := fun made => fs.Keeps made) (Keeps.refl fs) path
  intro made made' front hkeeps _ _ hmake
  rcases makeDirectory_eq_ok.mp hmake with ⟨location, _, hnone, hmade'⟩
  rw [hmade']
  apply hkeeps.trans
  apply keeps_put
  rw [hnone]
  simp

theorem entry?_makeDirectories (fs : FileSystem) (path : Path) (location : Location) :
    FileSystem.entry? (fs.makeDirectories path).2 location = fs.entry? location ∨
      fs.entry? location = none ∧
        FileSystem.entry? (fs.makeDirectories path).2 location = some .directory := by
  apply makeDirectories_induction
    (p := fun made => made.entry? location = fs.entry? location ∨
      fs.entry? location = none ∧ made.entry? location = some .directory) (Or.inl rfl) path
  intro made made' front hmade _ _ hmake
  rcases makeDirectory_eq_ok.mp hmake with ⟨place, _, hnone, hmade'⟩
  have hplace : place ≠ [] := by
    apply ne_nil_of_not_directory
    rw [hnone]
    simp
  rw [hmade', entry?_put made hplace]
  by_cases hsame : location = place
  · rw [if_pos hsame]
    rw [hsame, hnone] at hmade
    rcases hmade with hbefore | hbefore
    · rw [hsame]
      exact Or.inr ⟨hbefore.symm, rfl⟩
    · cases hbefore.2
  · rw [if_neg hsame]
    exact hmade

theorem prefix_of_makeDirectories {fs : FileSystem} {path : Path} (hup : ".." ∉ path.names)
    {location : Location}
    (h : FileSystem.entry? (fs.makeDirectories path).2 location ≠ fs.entry? location) :
    exists front, front <+: path.names ∧ location = fs.startOf path ++ front := by
  have hmade : (fs.makeDirectories path).2.working = fs.working ∧
      (FileSystem.entry? (fs.makeDirectories path).2 location = fs.entry? location ∨
        exists front, front <+: path.names ∧ location = fs.startOf path ++ front) := by
    apply makeDirectories_induction
      (p := fun made => made.working = fs.working ∧
        (made.entry? location = fs.entry? location ∨
          exists front, front <+: path.names ∧ location = fs.startOf path ++ front))
      ⟨rfl, Or.inl rfl⟩ path
    intro made made' front hmade hroot hfront hmake
    rcases hmade with ⟨hworking, hentry⟩
    rcases makeDirectory_eq_ok.mp hmake with ⟨place, hlocate, hnone, hmade'⟩
    have hplace : place ≠ [] := by
      apply ne_nil_of_not_directory
      rw [hnone]
      simp
    refine ⟨by rw [hmade', working_put, hworking], ?_⟩
    rw [hmade', entry?_put made hplace]
    by_cases hsame : location = place
    · refine Or.inr ⟨front.names, hfront, ?_⟩
      have hfrontUp : ".." ∉ front.names := fun hmem => hup (hfront.mem hmem)
      rw [hsame, eq_append_of_locate hfrontUp hlocate]
      unfold startOf
      rw [hroot, hworking]
    · rw [if_neg hsame]
      exact hentry
  rcases hmade.2 with hsame | hfront
  · exact absurd hsame h
  · exact hfront

theorem isDirectory_of_makeDirectory {fs fs' : FileSystem} {path : Path}
    (hnull : hasNull path = false) (h : fs.makeDirectory path = .ok fs') :
    fs'.isDirectory path = true := by
  rcases makeDirectory_eq_ok.mp h with ⟨location, hlocate, hnone, hfs'⟩
  have habsent : fs.entry? location ≠ some .directory := by
    rw [hnone]
    simp
  apply isDirectory_iff.mpr
  refine ⟨hnull, location, ?_, ?_⟩
  · rw [hfs']
    exact (keeps_put habsent .directory).locate hlocate
  · rw [hfs', entry?_put fs (ne_nil_of_not_directory habsent), if_pos rfl]

theorem isDirectory_of_makeDirectories {fs made : FileSystem} {path : Path}
    (hnull : hasNull path = false) (h : fs.makeDirectories path = (.ok (), made)) :
    made.isDirectory path = true := by
  rw [makeDirectories] at h
  rcases hmade : fs.makeDirectory path with fault | made'
  · rw [hmade] at h
    by_cases habsent : fault = refused .notFound path ∧ path.names ≠ []
    · simp only [if_pos habsent] at h
      rcases hrun : fs.makeDirectories path.parent with ⟨result, above⟩
      rw [hrun] at h
      cases result with
      | error _ =>
          cases h
      | ok _ =>
          rcases hensured : above.ensureDirectory path with fault' | ensured
          · simp only [hensured] at h
            cases h
          · simp only [hensured] at h
            cases h
            rcases ensureDirectory_eq_ok hensured with hmake | hsame
            · exact isDirectory_of_makeDirectory hnull hmake
            · rw [hsame.1]
              exact hsame.2
    · simp only [if_neg habsent] at h
      by_cases hdirectory : fs.isDirectory path = true
      · simp only [if_pos hdirectory] at h
        cases h
        exact hdirectory
      · simp only [if_neg hdirectory] at h
        cases h
  · rw [hmade] at h
    cases h
    exact isDirectory_of_makeDirectory hnull hmade

theorem makeDirectories_of_isDirectory {fs : FileSystem} {path : Path}
    (h : fs.isDirectory path = true) : fs.makeDirectories path = (.ok (), fs) := by
  rcases isDirectory_iff.mp h with ⟨_, location, hlocate, hentry⟩
  have hmade : fs.makeDirectory path = .error (refused .taken path) := by
    simp [makeDirectory, hlocate, hentry]
  rw [makeDirectories, hmade]
  simp [refused, h]

/-!
# Trees

In a tree everything stands in a directory. There, making the directory of a
free name does not make the name itself, unless the way to it has double dots.
-/

/-- Everything stands in a directory. -/
def Tree (fs : FileSystem) : Prop :=
  forall location name entry, fs.entry? (location ++ [name]) = some entry ->
    fs.entry? location = some .directory

theorem tree_empty {fs : FileSystem} (hempty : fs.entries = []) : fs.Tree := by
  intro location name entry h
  unfold entry? at h
  rw [if_neg (List.append_ne_nil_of_right_ne_nil location (List.cons_ne_nil name [])), hempty] at h
  cases h

theorem Tree.put {fs : FileSystem} (htree : fs.Tree) {directory : Location} {name : String}
    (hdirectory : fs.entry? directory = some .directory)
    (hfree : fs.entry? (directory ++ [name]) ≠ some .directory) (entry : Entry) :
    (fs.put (directory ++ [name]) entry).Tree := by
  have hput := entry?_put fs (ne_nil_of_not_directory hfree) entry
  intro location other found h
  rw [hput] at h ⊢
  by_cases hsame : location ++ [other] = directory ++ [name]
  · rw [(List.append_inj' hsame rfl).1, if_neg (by simp), hdirectory]
  · rw [if_neg hsame] at h
    have habove := htree location other found h
    rw [if_neg, habove]
    intro hlocation
    rw [hlocation] at habove
    exact hfree habove

theorem tree_file (name : String) (ownerOnly : Bool) (content : Bytes) :
    Tree (.ofEntries [([name], .file ownerOnly content)]) := by
  have hroot : entry? (.ofEntries []) [] = some .directory := rfl
  have hfree : entry? (.ofEntries []) ([] ++ [name]) ≠ some .directory := by
    unfold entry?
    simp
  exact (tree_empty rfl).put hroot hfree (.file ownerOnly content)

theorem Tree.directory_of_append {fs : FileSystem} (htree : fs.Tree) {front back : Location}
    (h : fs.entry? (front ++ back) = some .directory) : fs.entry? front = some .directory := by
  induction back using List.reverseRecOn with
  | nil =>
      rwa [List.append_nil] at h
  | append_singleton back name ih =>
      rw [← List.append_assoc] at h
      exact ih (htree _ _ _ h)

theorem Tree.walk {fs : FileSystem} (htree : fs.Tree) {other : FileSystem}
    {start location : Location} {names : List String} (hup : ".." ∉ names)
    (hother : other.walk start names = .ok location)
    (h : fs.entry? (start ++ names) = some .directory) :
    fs.walk start names = .ok (start ++ names) := by
  induction names generalizing start with
  | nil =>
      rw [List.append_nil]
      rfl
  | cons name rest ih =>
      rw [List.mem_cons, not_or] at hup
      have hsplit : start ++ name :: rest = (start ++ [name]) ++ rest := by
        rw [List.append_assoc]
        rfl
      rw [hsplit] at h ⊢
      have hname := htree.directory_of_append h
      unfold FileSystem.walk at hother ⊢
      rw [if_neg (Ne.symm hup.1)] at hother ⊢
      by_cases hlong : (utf8 name).length > 255
      · rw [if_pos hlong] at hother
        cases hother
      · rw [if_neg hlong] at hother ⊢
        rw [hname]
        rcases hentry : other.entry? (start ++ [name]) with _ | entry
        · rw [hentry] at hother
          cases hother
        · rw [hentry] at hother
          cases entry with
          | directory =>
              exact ih hup.2 hother h
          | file ownerOnly content =>
              cases hother

theorem Tree.standing_child {fs : FileSystem} (htree : fs.Tree) {parent : Path}
    (hup : ".." ∉ parent.names) {name : String} (hname : name ≠ "..") :
    (fs.makeDirectories parent).2.standing (parent.child name) =
      fs.standing (parent.child name) := by
  have hkeeps := keeps_makeDirectories fs parent
  apply Option.ext
  intro entry
  rw [standing_eq_some, standing_eq_some]
  constructor
  · intro h
    rcases h with ⟨hnull, location, hlocate, hentry⟩
    rcases (locate_child_eq_ok hname).mp hlocate with ⟨hshort, directory, hwalk, hlocation⟩
    have hway := eq_append_of_walk hup hwalk
    rw [hkeeps.startOf parent] at hwalk hway
    -- The name is longer than every directory that was made.
    have hold : fs.entry? location = some entry := by
      by_contra hne
      rw [← hentry] at hne
      rcases prefix_of_makeDirectories hup (Ne.symm hne) with ⟨front, hfront, hmade⟩
      rw [hlocation, hway, List.append_assoc] at hmade
      have hlength := hfront.length_le
      rw [← List.append_cancel_left hmade, List.length_append, List.length_singleton] at hlength
      omega
    have hparent := hold
    rw [hlocation] at hparent
    have hdirectory := htree _ _ _ hparent
    rw [hway] at hdirectory
    refine ⟨hnull, location,
      (locate_child_eq_ok hname).mpr ⟨hshort, directory, ?_, hlocation⟩, hold⟩
    rw [htree.walk hup hwalk hdirectory, hway]
  · intro h
    rcases h with ⟨hnull, location, hlocate, hentry⟩
    refine ⟨hnull, location, hkeeps.locate hlocate, ?_⟩
    rcases entry?_makeDirectories fs parent location with hsame | ⟨hnone, _⟩
    · rw [hsame, hentry]
    · rw [hnone] at hentry
      cases hentry

theorem Tree.isDirectory_child {fs : FileSystem} (htree : fs.Tree) {parent : Path}
    (hup : ".." ∉ parent.names) {name : String} (hname : name ≠ "..") :
    (fs.makeDirectories parent).2.isDirectory (parent.child name) =
      fs.isDirectory (parent.child name) :=
  isDirectory_congr (htree.standing_child hup hname)

theorem Tree.not_isDirectory_child {fs : FileSystem} (htree : fs.Tree) {parent : Path}
    (hup : ".." ∉ parent.names) {name : String} (hname : name ≠ "..")
    (hfree : forall entry, fs.look (parent.child name) ≠ .ok (some entry)) :
    (fs.makeDirectories parent).2.isDirectory (parent.child name) = false := by
  rw [htree.isDirectory_child hup hname]
  by_contra hdirectory
  have hstanding := isDirectory_iff_standing.mp ((Bool.not_eq_false _).mp hdirectory)
  exact hfree .directory (look_eq_ok_some.mpr hstanding)

end FileSystem
end WalletVault
