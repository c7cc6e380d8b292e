import Mathlib.Data.List.Basic
import WalletVault.Files.FileSystem

/-!
# Entries and the paths to them

Following a path depends on directories alone. So an operation that keeps all
directories leads every path that could be followed to the same location, and a
change shows only at the location that it names.
-/

namespace WalletVault

/-!
# Association lists
-/

section Association

variable {κ ν : Type} [DecidableEq κ] [BEq κ] [LawfulBEq κ]

theorem lookup_filter_ne (entries : List (κ × ν)) (key : κ) :
    (entries.filter (fun e => e.1 ≠ key)).lookup key = none := by
  induction entries with
  | nil =>
      rfl
  | cons e rest ih =>
      rcases e with ⟨other, value⟩
      by_cases h : other = key
      · rw [List.filter_cons_of_neg (by simpa using h)]
        exact ih
      · rw [List.filter_cons_of_pos (by simpa using h), List.lookup_cons]
        have hne : (key == other) = false := by
          simpa using fun hsame => h hsame.symm
        rw [hne]
        exact ih

theorem lookup_filter_of_ne (entries : List (κ × ν)) {key other : κ}
    (hother : other ≠ key) :
    (entries.filter (fun e => e.1 ≠ key)).lookup other = entries.lookup other := by
  induction entries with
  | nil =>
      rfl
  | cons e rest ih =>
      rcases e with ⟨stored, value⟩
      by_cases h : stored = key
      · have hne : (other == stored) = false := by
          rw [h]
          simpa using hother
        rw [List.filter_cons_of_neg (by simpa using h), List.lookup_cons, hne]
        exact ih
      · rw [List.filter_cons_of_pos (by simpa using h), List.lookup_cons, List.lookup_cons, ih]

end Association

namespace FileSystem

/-!
# Changed entries
-/

theorem entry?_put (fs : FileSystem) {location : Location} (hlocation : location ≠ [])
    (entry : Entry) (other : Location) :
    FileSystem.entry? (fs.put location entry) other =
      if other = location then some entry else fs.entry? other := by
  unfold entry? put
  by_cases hsame : other = location
  · rw [if_pos hsame, hsame, if_neg hlocation, List.lookup_cons, beq_self_eq_true]
  · have hne : (other == location) = false := by
      simpa using hsame
    rw [if_neg hsame, List.lookup_cons, hne]
    exact if_congr Iff.rfl rfl (lookup_filter_of_ne fs.entries hsame)

theorem entry?_erase (fs : FileSystem) {location : Location} (hlocation : location ≠ [])
    (other : Location) :
    FileSystem.entry? (fs.erase location) other =
      if other = location then none else fs.entry? other := by
  unfold entry? erase
  by_cases hsame : other = location
  · rw [if_pos hsame, hsame, if_neg hlocation]
    exact lookup_filter_ne fs.entries location
  · rw [if_neg hsame]
    exact if_congr Iff.rfl rfl (lookup_filter_of_ne fs.entries hsame)

@[simp] theorem working_put (fs : FileSystem) (location : Location) (entry : Entry) :
    (fs.put location entry).working = fs.working := rfl

@[simp] theorem working_erase (fs : FileSystem) (location : Location) :
    (fs.erase location).working = fs.working := rfl

theorem ne_nil_of_not_directory {fs : FileSystem} {location : Location}
    (h : fs.entry? location ≠ some .directory) : location ≠ [] := by
  intro hnil
  rw [hnil] at h
  exact h rfl

/-!
# Kept directories
-/

/-- All directories stay, and relative paths start where they did. -/
structure Keeps (before after : FileSystem) : Prop where
  working_eq : after.working = before.working
  directory : forall location, before.entry? location = some .directory ->
    after.entry? location = some .directory

theorem Keeps.refl (fs : FileSystem) : fs.Keeps fs :=
  ⟨rfl, fun _ h => h⟩

theorem Keeps.trans {first second third : FileSystem} (h : first.Keeps second)
    (h' : second.Keeps third) : first.Keeps third :=
  ⟨h'.working_eq.trans h.working_eq,
    fun location hdirectory => h'.directory location (h.directory location hdirectory)⟩

theorem keeps_put {fs : FileSystem} {location : Location}
    (h : fs.entry? location ≠ some .directory) (entry : Entry) :
    fs.Keeps (fs.put location entry) := by
  constructor
  · rfl
  · intro other hother
    have hne : other ≠ location := by
      intro hsame
      rw [hsame] at hother
      exact h hother
    rw [entry?_put fs (ne_nil_of_not_directory h), if_neg hne, hother]

/-!
# Following paths
-/

def startOf (fs : FileSystem) (path : Path) : Location :=
  if path.root.isEmpty then fs.working else []

theorem Keeps.walk {before after : FileSystem} (h : before.Keeps after)
    {start location : Location} {names : List String}
    (hwalk : before.walk start names = .ok location) :
    after.walk start names = .ok location := by
  induction names generalizing start with
  | nil =>
      exact hwalk
  | cons name rest ih =>
      unfold FileSystem.walk at hwalk ⊢
      by_cases hup : name = ".."
      · rw [if_pos hup] at hwalk ⊢
        exact ih hwalk
      · rw [if_neg hup] at hwalk ⊢
        by_cases hlong : (utf8 name).length > 255
        · rw [if_pos hlong] at hwalk
          cases hwalk
        · rw [if_neg hlong] at hwalk ⊢
          rcases hentry : before.entry? (start ++ [name]) with _ | entry
          · rw [hentry] at hwalk
            cases hwalk
          · rw [hentry] at hwalk
            cases entry with
            | directory =>
                rw [h.directory _ hentry]
                exact ih hwalk
            | file ownerOnly content =>
                cases hwalk

theorem eq_append_of_walk {fs : FileSystem} {start location : Location} {names : List String}
    (hup : ".." ∉ names) (h : fs.walk start names = .ok location) :
    location = start ++ names := by
  induction names generalizing start with
  | nil =>
      cases h
      rw [List.append_nil]
  | cons name rest ih =>
      rw [List.mem_cons, not_or] at hup
      unfold walk at h
      rw [if_neg (Ne.symm hup.1)] at h
      by_cases hlong : (utf8 name).length > 255
      · rw [if_pos hlong] at h
        cases h
      · rw [if_neg hlong] at h
        rcases hentry : fs.entry? (start ++ [name]) with _ | entry
        · rw [hentry] at h
          cases h
        · rw [hentry] at h
          cases entry with
          | directory =>
              rw [ih hup.2 h, List.append_assoc]
              rfl
          | file ownerOnly content =>
              cases h

theorem eq_append_of_locate {fs : FileSystem} {path : Path} (hup : ".." ∉ path.names)
    {location : Location} (h : fs.locate path = .ok location) :
    location = fs.startOf path ++ path.names := by
  unfold locate at h
  dsimp only at h
  by_cases hpage : (utf8 path.toString).length >= 4096
  · rw [if_pos hpage] at h
    cases h
  · rw [if_neg hpage] at h
    cases hlast : path.names.getLast? with
    | none =>
        rw [hlast] at h
        cases h
        rw [List.getLast?_eq_none_iff.mp hlast, List.append_nil]
        rfl
    | some name =>
        rw [hlast] at h
        have hnames : path.names = path.names.dropLast ++ [name] :=
          (List.dropLast_append_getLast? name hlast).symm
        have hname : name ≠ ".." := by
          intro hsame
          apply hup
          rw [hnames, hsame]
          simp
        have hfront : ".." ∉ path.names.dropLast :=
          fun hmem => hup (List.dropLast_subset _ hmem)
        rcases hwalk : fs.walk (if path.root.isEmpty then fs.working else [])
          path.names.dropLast with refusal | directory
        · simp only [hwalk] at h
          cases h
        · simp only [hwalk, if_neg hname] at h
          by_cases hlong : (utf8 name).length > 255
          · rw [if_pos hlong] at h
            cases h
          · rw [if_neg hlong] at h
            cases h
            rw [eq_append_of_walk hfront hwalk, List.append_assoc, ← hnames]
            rfl

theorem locate_child_eq_ok {fs : FileSystem} {parent : Path} {name : String}
    (hname : name ≠ "..") {location : Location} :
    fs.locate (parent.child name) = .ok location <->
      (¬ (utf8 (parent.child name).toString).length >= 4096 ∧ ¬ (utf8 name).length > 255) ∧
        exists directory, fs.walk (fs.startOf parent) parent.names = .ok directory ∧
          location = directory ++ [name] := by
  have hlast : (parent.child name).names.getLast? = some name := by
    simp [Path.child]
  have hfront : (parent.child name).names.dropLast = parent.names := by
    simp [Path.child]
  have hstart : (if (parent.child name).root.isEmpty then fs.working else []) =
      fs.startOf parent := rfl
  unfold locate
  dsimp only
  rw [hlast, hfront, hstart]
  by_cases hpage : (utf8 (parent.child name).toString).length >= 4096
  · simp [hpage]
  · rcases fs.walk (fs.startOf parent) parent.names with refusal | directory
    · simp [hpage]
    · by_cases hlong : (utf8 name).length > 255
      · simp [hpage, hname, hlong]
      · simp [hpage, hname, hlong, eq_comm]

theorem Keeps.locate {before after : FileSystem} (h : before.Keeps after) {path : Path}
    {location : Location} (hlocate : before.locate path = .ok location) :
    after.locate path = .ok location := by
  unfold FileSystem.locate at hlocate ⊢
  rw [h.working_eq]
  dsimp only at hlocate ⊢
  by_cases hpage : (utf8 path.toString).length >= 4096
  · rw [if_pos hpage] at hlocate
    cases hlocate
  · rw [if_neg hpage] at hlocate ⊢
    cases hlast : path.names.getLast? with
    | none =>
        rw [hlast] at hlocate
        exact hlocate
    | some name =>
        rw [hlast] at hlocate
        rcases hwalk : before.walk (if path.root.isEmpty then before.working else [])
          path.names.dropLast with refusal | directory
        · simp only [hwalk] at hlocate
          cases hlocate
        · simp only [hwalk] at hlocate
          simp only [h.walk hwalk]
          exact hlocate

theorem Keeps.startOf {before after : FileSystem} (h : before.Keeps after) (path : Path) :
    after.startOf path = before.startOf path := by
  unfold FileSystem.startOf
  rw [h.working_eq]

end FileSystem
end WalletVault
