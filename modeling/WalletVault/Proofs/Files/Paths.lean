import Mathlib.Data.List.Nodup
import WalletVault.Proofs.Computation
import WalletVault.Proofs.Files.Shards

/-!
# Paths of shards

The paths of the shards differ from the output in their last name, which ends
in a number. So they get in the way neither of each other nor of temporary
names, and each is read back from its text.
-/

namespace WalletVault
namespace Path

/-!
# Numbered names
-/

def shardName (output : Path) (i : Nat) : String :=
  output.name ++ s!".{i + 1}"

def shardPath (output : Path) (i : Nat) : Path :=
  output.parent.child (output.shardName i)

theorem toList_shardName (output : Path) (i : Nat) :
    (output.shardName i).toList = output.name.toList ++ '.' :: Nat.toDigits 10 (i + 1) := by
  have hdot : (ToString.toString ".").toList = ['.'] := rfl
  simp [shardName, hdot]

theorem shardName_injective (output : Path) : Function.Injective output.shardName := by
  intro i j h
  have hlists := congrArg String.toList h
  rw [toList_shardName, toList_shardName] at hlists
  have hdigits := (List.cons.inj (List.append_cancel_left hlists)).2
  have hnumbers := congrArg (fun digits => Nat.ofDigitChars 10 digits 0) hdigits
  simpa using hnumbers

theorem isDigit_of_getLast?_shardName {output : Path} {i : Nat} {c : Char}
    (h : (output.shardName i).toList.getLast? = some c) : c.isDigit = true := by
  rw [toList_shardName, List.getLast?_append_of_ne_nil _ (List.cons_ne_nil _ _),
    List.getLast?_cons_of_ne_nil Nat.toDigits_ne_nil] at h
  exact Nat.isDigit_of_mem_toDigits (by decide) (by decide) (List.mem_of_getLast? h)

theorem apart_shardNames (output : Path) (count : Nat) :
    Store.Apart ((List.range count).map output.shardName) where
  nodup := List.Nodup.map output.shardName_injective List.nodup_range
  ne_up := by
    intro name hname hup
    rcases List.mem_map.mp hname with ⟨i, _, hi⟩
    have hlast : (output.shardName i).toList.getLast? = some '.' := by
      rw [hi, hup]
      rfl
    have hdigit := isDigit_of_getLast?_shardName hlast
    exact absurd hdigit (by decide)
  ne_temp := by
    intro name hname other _ htemp
    rcases List.mem_map.mp hname with ⟨i, _, hi⟩
    have hlast : (output.shardName i).toList.getLast? = some 'p' := by
      rw [hi, htemp, String.toList_append, List.getLast?_append_of_ne_nil _ (by decide)]
      rfl
    have hdigit := isDigit_of_getLast?_shardName hlast
    exact absurd hdigit (by decide)

theorem shardPaths_eq_ok {output : String} {count : Nat} (hcount : 1 <= count)
    {paths : List Path} (h : shardPaths output count = .ok paths) :
    (ofString output).names ≠ [] ∧ paths = (List.range count).map (ofString output).shardPath := by
  have hnames : (ofString output).names ≠ [] := by
    intro hnone
    unfold shardPaths at h
    rw [← Nat.succ_pred_eq_of_pos hcount, List.range_succ_eq_map, List.mapM_cons, extend,
      if_pos hnone] at h
    cases h
  refine ⟨hnames, ?_⟩
  have hall : shardPaths output count =
      .ok ((List.range count).map (ofString output).shardPath) := by
    apply Computation.mapM_eq_ok_map
    intro i _
    exact if_neg hnames
  rw [hall] at h
  exact (Except.ok.inj h).symm

theorem eq_map_of_shardPaths {output : String} {count : Nat} {paths : List Path}
    (h : shardPaths output count = .ok paths) :
    paths = (List.range count).map (ofString output).shardPath := by
  cases count with
  | zero =>
      cases h
      rfl
  | succ count =>
      exact (shardPaths_eq_ok (Nat.succ_le_succ (Nat.zero_le count)) h).2

/-!
# Texts of paths
-/

/-- A path as it is read: the names have no slashes, and neither empty names nor single dots are
among them. -/
structure Normal (path : Path) : Prop where
  root_mem : path.root ∈ ["", "/", "//"]
  proper : forall name, name ∈ path.names ->
    '/' ∉ name.toList ∧ name.toList ≠ [] ∧ name.toList ≠ ['.']

theorem not_mem_of_mem_splitOnP {p : Char -> Bool} {chars piece : List Char}
    (h : piece ∈ chars.splitOnP p) : forall c, c ∈ piece -> p c = false := by
  induction chars generalizing piece with
  | nil =>
      intro c hc
      rw [List.splitOnP_nil, List.mem_singleton] at h
      rw [h] at hc
      cases hc
  | cons d rest ih =>
      rw [List.splitOnP_cons_eq_if_modifyHead] at h
      by_cases hd : p d = true
      · rw [if_pos hd] at h
        rcases List.mem_cons.mp h with hnil | htail
        · intro c hc
          rw [hnil] at hc
          cases hc
        · exact ih htail
      · rw [if_neg hd] at h
        rcases hpieces : rest.splitOnP p with _ | ⟨front, pieces⟩
        · exact absurd hpieces (List.splitOnP_ne_nil p rest)
        · rw [hpieces, List.modifyHead_cons] at h
          rcases List.mem_cons.mp h with hfront | htail
          · intro c hc
            rw [hfront] at hc
            rcases List.mem_cons.mp hc with hsame | hrest
            · rw [hsame]
              simpa using hd
            · exact ih (by rw [hpieces]; exact List.mem_cons_self) c hrest
          · exact ih (by rw [hpieces]; exact List.mem_cons_of_mem front htail)

theorem normal_ofString (text : String) : (ofString text).Normal where
  root_mem := by
    unfold ofString
    dsimp only
    split_ifs <;> simp
  proper := by
    intro name hname
    rcases List.mem_map.mp hname with ⟨chars, hchars, hmade⟩
    rcases List.mem_filter.mp hchars with ⟨hpiece, hproper⟩
    rw [← hmade, String.toList_ofList]
    refine ⟨?_, of_decide_eq_true hproper⟩
    intro hslash
    have hnone := not_mem_of_mem_splitOnP hpiece '/' hslash
    cases hnone

theorem Normal.child {path : Path} (h : path.Normal) {name : String}
    (hname : '/' ∉ name.toList ∧ name.toList ≠ [] ∧ name.toList ≠ ['.']) :
    (path.child name).Normal where
  root_mem := h.root_mem
  proper := by
    intro other hother
    rcases List.mem_append.mp hother with hold | hnew
    · exact h.proper other hold
    · rw [List.mem_singleton.mp hnew]
      exact hname

theorem Normal.parent {path : Path} (h : path.Normal) : path.parent.Normal where
  root_mem := h.root_mem
  proper := fun name hname => h.proper name (List.dropLast_subset _ hname)

theorem splitOnP_slashes {slashes rest : List Char} (h : forall c, c ∈ slashes -> c = '/')
    {proper : List Char -> Bool} (hproper : proper [] = false) :
    ((slashes ++ rest).splitOnP (· == '/')).filter proper =
      (rest.splitOnP (· == '/')).filter proper := by
  induction slashes with
  | nil =>
      rfl
  | cons c slashes ih =>
      have hc := h c List.mem_cons_self
      rw [List.cons_append, hc, List.splitOnP_cons_eq_if_modifyHead, if_pos (by decide),
        List.filter_cons_of_neg (by rw [hproper]; decide)]
      exact ih (fun d hd => h d (List.mem_cons_of_mem c hd))

theorem takeWhile_slashes {slashes rest : List Char} (h : forall c, c ∈ slashes -> c = '/')
    (hrest : rest.head? ≠ some '/') :
    (slashes ++ rest).takeWhile (· == '/') = slashes := by
  have hnone : rest.takeWhile (· == '/') = [] := by
    cases rest with
    | nil =>
        rfl
    | cons c rest =>
        have hc : (c == '/') = false := by
          simpa using hrest
        rw [List.takeWhile_cons, hc]
        rfl
  rw [List.takeWhile_append_of_pos, hnone, List.append_nil]
  intro c hc
  rw [h c hc]
  rfl

theorem toList_toString {path : Path} (hnames : path.names ≠ []) :
    path.toString.toList =
      path.root.toList ++ List.intercalate ['/'] (path.names.map String.toList) := by
  have hsome : (path.root.isEmpty && path.names.isEmpty) = false := by
    simp [hnames]
  have hslash : "/".toList = ['/'] := rfl
  unfold toString
  rw [hsome, if_neg Bool.false_ne_true, String.toList_append, String.toList_intercalate, hslash]

theorem head?_intercalate_ne_slash {path : Path} (h : path.Normal) :
    (List.intercalate ['/'] (path.names.map String.toList)).head? ≠ some '/' := by
  rcases path with ⟨root, names⟩
  cases names with
  | nil =>
      simp [List.intercalate_nil]
  | cons name rest =>
      rcases h.proper name List.mem_cons_self with ⟨hslash, hne, _⟩
      rcases hchars : name.toList with _ | ⟨c, chars⟩
      · exact absurd hchars hne
      · have hc : c ≠ '/' := by
          intro hsame
          apply hslash
          rw [hchars, hsame]
          exact List.mem_cons_self
        cases rest with
        | nil =>
            simpa [hchars] using hc
        | cons next rest =>
            simpa [hchars, List.intercalate_cons_cons] using hc

/-- A path is read back from its text. -/
theorem ofString_toString {path : Path} (h : path.Normal) (hnames : path.names ≠ []) :
    ofString path.toString = path := by
  have hslashes : forall c, c ∈ path.root.toList -> c = '/' := by
    intro c hc
    have hroot := h.root_mem
    simp only [List.mem_cons, List.not_mem_nil, or_false] at hroot
    rcases hroot with hroot | hroot | hroot
    · simp [hroot] at hc
    · simpa [hroot] using hc
    · simpa [hroot] using hc
  have hhead := head?_intercalate_ne_slash h
  have hpieces : (List.intercalate ['/'] (path.names.map String.toList)).splitOnP (· == '/') =
      path.names.map String.toList := by
    rw [← List.splitOn_eq_splitOnP]
    apply List.splitOn_intercalate
    · intro chars hchars
      rcases List.mem_map.mp hchars with ⟨name, hname, hmade⟩
      rw [← hmade]
      exact (h.proper name hname).1
    · simpa using hnames
  have hproper : (path.names.map String.toList).filter
      (fun name => decide (name ≠ [] ∧ name ≠ ['.'])) = path.names.map String.toList := by
    apply List.filter_eq_self.mpr
    intro chars hchars
    rcases List.mem_map.mp hchars with ⟨name, hname, hmade⟩
    rw [← hmade]
    exact decide_eq_true (h.proper name hname).2
  have hnamesBack : (path.names.map String.toList).map String.ofList = path.names := by
    simp
  unfold ofString
  dsimp only
  rw [toList_toString hnames, takeWhile_slashes hslashes hhead,
    splitOnP_slashes hslashes (by decide), hpieces, hproper, hnamesBack]
  rcases path with ⟨root, names⟩
  have hroot := h.root_mem
  simp only [List.mem_cons, List.not_mem_nil, or_false] at hroot
  rcases hroot with hroot | hroot | hroot <;> simp [hroot]

/-!
# Texts of the paths of shards
-/

theorem normal_shardPath (output : String) (i : Nat) :
    ((ofString output).shardPath i).Normal := by
  have hnormal := normal_ofString output
  apply hnormal.parent.child
  rw [toList_shardName]
  refine ⟨?_, by simp, ?_⟩
  · intro hslash
    rcases List.mem_append.mp hslash with hname | hending
    · cases hlast : (ofString output).names.getLast? with
      | none =>
          have hnil := List.getLast?_eq_none_iff.mp hlast
          simp [Path.name, hnil] at hname
      | some name =>
          have hmem := List.mem_of_getLast? hlast
          have hsame : (ofString output).name = name := by
            simp [Path.name, List.getLastD_eq_getLast?, hlast]
          rw [hsame] at hname
          exact (hnormal.proper name hmem).1 hname
    · rcases List.mem_cons.mp hending with hdot | hdigit
      · cases hdot
      · have h := Nat.isDigit_of_mem_toDigits (by decide) (by decide) hdigit
        exact absurd h (by decide)
  · intro hdot
    have hlength := congrArg List.length hdot
    have hdigits := List.length_pos_iff.mpr (Nat.toDigits_ne_nil (n := i + 1) (b := 10))
    simp at hlength
    omega

theorem mem_intercalate {separator chars : List Char} {pieces : List (List Char)} {c : Char}
    (hc : c ∈ chars) (hchars : chars ∈ pieces) : c ∈ List.intercalate separator pieces := by
  induction pieces with
  | nil =>
      cases hchars
  | cons piece rest ih =>
      cases rest with
      | nil =>
          rw [List.intercalate_singleton, ← List.mem_singleton.mp hchars]
          exact hc
      | cons next rest =>
          rw [List.intercalate_cons_cons]
          rcases List.mem_cons.mp hchars with hsame | hrest
          · rw [← hsame]
            exact List.mem_append_left _ (List.mem_append_left _ hc)
          · exact List.mem_append_right _ (ih hrest)

theorem names_shardPath_ne_nil (output : Path) (i : Nat) : (output.shardPath i).names ≠ [] := by
  simp [shardPath, child]

theorem shardPath_injective (output : Path) : Function.Injective output.shardPath := by
  intro i j h
  have hnames := List.append_cancel_left (congrArg Path.names h)
  exact output.shardName_injective (List.cons.inj hnames).1

theorem validateOutput_shardPath (output : Path) (i : Nat) :
    validateOutput (some (output.shardPath i).toString) = .ok () := by
  have hdot : '.' ∈ (output.shardPath i).toString.toList := by
    rw [toList_toString (names_shardPath_ne_nil output i)]
    apply List.mem_append_right
    have hmem : '.' ∈ (output.shardName i).toList := by
      rw [toList_shardName]
      exact List.mem_append_right _ List.mem_cons_self
    apply mem_intercalate hmem
    apply List.mem_map_of_mem
    simp [shardPath, child]
  have hvisible : ¬ (output.shardPath i).toString.toList.all Text.isBlank = true := by
    intro hblank
    have hblankDot := List.all_eq_true.mp hblank '.' hdot
    exact absurd hblankDot (by decide)
  exact if_neg hvisible

end Path
end WalletVault
