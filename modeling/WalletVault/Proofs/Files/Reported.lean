import WalletVault.Proofs.Files.Numbered
import WalletVault.Proofs.Keystore.Loading
import WalletVault.Proofs.Wallet.RoundTrip

/-!
# Reported paths

A write that returns reports its path. The data is there just in case the path
is no directory once its parent is made; into a directory the file is moved
under its temporary name.
-/

namespace WalletVault

namespace Wallet

theorem write_eq_ok_iff {wallet : Wallet} {data : Bytes} :
    wallet.write = .ok data <->
      wallet.kind = wallet.format.currentTag ∧
        layout (.current wallet.format.isSharded) KeyTag.current wallet = .ok data := by
  unfold write
  by_cases hkind : wallet.kind = wallet.format.currentTag
  · simp [hkind]
  · simp [hkind]

theorem read_eq_ok_of_write {wallet : Wallet} {data : Bytes} (h : wallet.write = .ok data) :
    read data = .ok wallet <->
      wallet.publicKey.length = 32 ∧ wallet.iv.length = 12 ∧ wallet.tag.length = 16 := by
  constructor
  · intro hread
    rcases read_eq_ok.mp hread with ⟨_, _, hfits, _, _⟩
    exact ⟨hfits.length_publicKey, hfits.length_iv, hfits.length_tag⟩
  · intro hwidths
    rcases hwidths with ⟨hpublicKey, hiv, htag⟩
    rcases write_eq_ok_iff.mp h with ⟨hkind, hlayout⟩
    rcases layout_eq_ok.mp hlayout with ⟨⟨hsingle, hhash⟩, _⟩
    have hfits : Fits (.current wallet.format.isSharded) wallet :=
      ⟨hkind, rfl, hsingle, hhash, fun hfirst => Bool.noConfusion hfirst, hpublicKey, hiv, htag⟩
    apply read_eq_ok.mpr
    exact ⟨_, KeyTag.current, hfits, fun htagged => Bool.noConfusion htagged, hlayout⟩

def blank (format : KeyFormat) : Wallet :=
  ⟨Bytes.zeros 32, Bytes.zeros 12, Bytes.zeros 16, [], format, format.currentTag⟩

def blankBasic : Wallet :=
  blank (.basic (.pbkdf2 PasswordHash.blankPbkdf2))

def blankPair : Wallet :=
  blank (.sharded ⟨.pbkdf2 PasswordHash.blankPbkdf2, ⟨2, 2, by decide, by decide, by decide⟩,
    [⟨1 :: Bytes.zeros 32, rfl⟩, ⟨2 :: Bytes.zeros 32, rfl⟩]⟩)

end Wallet

namespace FileSystem

/-- A file that is written to the path is placed there: the path is no directory once its parent
is made. -/
def Placeable (fs : FileSystem) (path : Path) : Prop :=
  (fs.makeDirectories path.parent).2.isDirectory path = false

theorem Tree.placeable_child_iff {fs : FileSystem} (htree : fs.Tree) {parent : Path}
    (hup : ".." ∉ parent.names) {name : String} (hname : name ≠ "..") :
    fs.Placeable (parent.child name) <-> fs.isDirectory (parent.child name) = false := by
  rw [Placeable, Path.parent_child, htree.isDirectory_child hup hname]

theorem Tree.placeable_iff {fs : FileSystem} (htree : fs.Tree) {path : Path}
    (hnames : path.names ≠ []) (hup : ".." ∉ path.names) :
    fs.Placeable path <-> fs.isDirectory path = false := by
  rw [← Path.child_name hnames] at hup ⊢
  rw [Path.child, List.mem_append, not_or, List.mem_singleton] at hup
  exact htree.placeable_child_iff hup.1 (Ne.symm hup.2)

end FileSystem

namespace Store

open FileSystem

section Writing

variable {ownerOnly force : Bool} {path : Path} {data : Bytes} {fs after : FileSystem}

theorem exists_child_of_writeBytes
    (h : writeBytes ownerOnly force path data fs = (.ok (), after)) :
    exists parent name, path = Path.child parent name := by
  rcases writeBytes_eq_ok.mp h with ⟨_, temp, _, _, htemp, _⟩
  by_cases hnames : path.names = []
  · rw [Path.extend, if_pos hnames] at htemp
    cases htemp
  · exact ⟨path.parent, path.name, (Path.child_name hnames).symm⟩

theorem names_ne_nil_of_writeBytes
    (h : writeBytes ownerOnly force path data fs = (.ok (), after)) : path.names ≠ [] := by
  rcases exists_child_of_writeBytes h with ⟨parent, name, hpath⟩
  rw [hpath]
  exact List.append_ne_nil_of_right_ne_nil _ (List.cons_ne_nil name [])

theorem placeable_of_readFile (h : writeBytes ownerOnly force path data fs = (.ok (), after))
    {content : Bytes} (hread : after.readFile path = .ok content) : fs.Placeable path := by
  rcases exists_child_of_writeBytes h with ⟨parent, name, hpath⟩
  rw [hpath] at h hread ⊢
  rw [Placeable, Path.parent_child,
    (returned_of_ending (writeBytes_ending h)).same.isDirectory_eq]
  by_contra hdirectory
  exact readFile_ne_ok_of_isDirectory ((Bool.not_eq_false _).mp hdirectory) content hread

/-- The data of a write that returned stands at its path, unless the path is a directory. -/
theorem readFile_iff_of_writeBytes
    (h : writeBytes ownerOnly force path data fs = (.ok (), after)) :
    after.readFile path = .ok data <-> fs.Placeable path := by
  constructor
  · intro hread
    exact placeable_of_readFile h hread
  · intro hplaceable
    rcases exists_child_of_writeBytes h with ⟨parent, name, hpath⟩
    rw [hpath] at h hplaceable ⊢
    rw [Placeable, Path.parent_child] at hplaceable
    cases writeBytes_ending h with
    | placed made _ source goal hmade hsource hgoal hmoved =>
        have hsame := hmoved.sameDirectories hsource.2.2 hgoal.2.2
        have hlocate := hsame.locate_eq_ok.mp hgoal.2.1
        rcases hmoved with ⟨_, owner, hentry⟩
        have hfile : after.entry? goal = some (.file owner data) := by
          rw [hentry, if_pos rfl]
        exact readFile_of_entry? hgoal.1 hlocate hfile
    | misplaced made _ source goal hmade hsource hdirectory hinside hgoal hne hmoved =>
        -- Only a directory takes the temporary file in.
        rw [hmade] at hplaceable
        exact absurd hdirectory ((Bool.not_eq_true _).mpr hplaceable)

end Writing

/-!
# Wallets
-/

section Wallets

variable {ownerOnly force : Bool} {output : String} {wallet : Wallet} {fs after : FileSystem}

theorem writeWallet_eq_ok {path : Path} :
    writeWallet ownerOnly force output wallet fs = (.ok path, after) <->
      path = Path.ofString output ∧ exists data, wallet.write = .ok data ∧
        writeBytes ownerOnly force path data fs = (.ok (), after) := by
  rw [writeWallet, Computation.bind_eq_ok]
  constructor
  · intro h
    rcases h with ⟨data, _, hdata, h⟩
    rcases Prod.mk.inj hdata with ⟨hwrite, hsame⟩
    rcases Computation.bind_eq_ok.mp h with ⟨_, written, hwritten, hlast⟩
    cases hlast
    rw [← hsame] at hwritten
    exact ⟨rfl, data, hwrite, hwritten⟩
  · intro h
    rcases h with ⟨hpath, data, hwrite, hwritten⟩
    rw [hpath] at hwritten ⊢
    refine ⟨data, fs, Prod.ext hwrite rfl, ?_⟩
    exact Computation.bind_eq_ok.mpr ⟨(), after, hwritten, rfl⟩

theorem readWallet_iff_of_writeWallet {path : Path}
    (h : writeWallet ownerOnly force output wallet fs = (.ok path, after)) :
    readWallet after output = .ok wallet <->
      fs.Placeable path ∧
        wallet.publicKey.length = 32 ∧ wallet.iv.length = 12 ∧ wallet.tag.length = 16 := by
  rcases writeWallet_eq_ok.mp h with ⟨hpath, data, hwrite, hwritten⟩
  rw [← Wallet.read_eq_ok_of_write hwrite, ← readFile_iff_of_writeBytes hwritten, hpath,
    readWallet_eq_ok]
  constructor
  · intro h
    rcases h with ⟨data', hfile, hread⟩
    rcases Wallet.write_of_read hread with ⟨kind, _, hwrite'⟩
    rw [hwrite] at hwrite'
    by_cases hthird : kind.generation = .third
    · rw [if_pos hthird] at hwrite'
      cases hwrite'
      exact ⟨hfile, hread⟩
    · rw [if_neg hthird] at hwrite'
      cases hwrite'
  · intro h
    rcases h with ⟨hfile, hread⟩
    exact ⟨data, hfile, hread⟩

/-!
# Shards
-/

theorem stored_iff_of_writeEach {parent : Path} {items : List (String × Wallet)}
    (hapart : Apart (items.map Prod.fst))
    (h : writeEach ownerOnly force (destinations parent items) fs = (.ok (), after)) :
    (forall item, item ∈ items -> exists data, item.2.write = .ok data ∧
        after.readFile (parent.child item.1) = .ok data) <->
      forall item, item ∈ items -> fs.Placeable (parent.child item.1) := by
  cases items with
  | nil =>
      exact ⟨fun _ _ hitem => (by cases hitem), fun _ _ hitem => (by cases hitem)⟩
  | cons first rest =>
      rcases writeEach_eq_ok (List.cons_ne_nil first rest) hapart h with
        ⟨made, hmade, hkeeps, hplaced⟩
      have hplaceable : forall item : String × Wallet, fs.Placeable (parent.child item.1) <->
          made.isDirectory (parent.child item.1) = false := by
        intro item
        rw [Placeable, Path.parent_child, hmade]
      simp only [hplaceable]
      constructor
      · intro hstored item hitem
        rcases hstored item hitem with ⟨data, _, hfile⟩
        by_contra hdirectory
        have hafter := hkeeps.isDirectory ((Bool.not_eq_false _).mp hdirectory)
        exact readFile_ne_ok_of_isDirectory hafter data hfile
      · intro hfree item hitem
        rcases hplaced hfree with ⟨directory, _, hdone⟩
        rcases hdone.stored item hitem with ⟨hnull, hlocate, owner, data, hwrite, hentry⟩
        exact ⟨data, hwrite, readFile_of_entry? hnull (hdone.keeps.locate hlocate) hentry⟩

def Stored (fs : FileSystem) : List Path -> List Wallet -> Prop :=
  List.Forall₂ (fun path shard => exists data, shard.write = .ok data ∧ fs.readFile path = .ok data)

theorem stored_numbered_iff {output : Path} {shards : List Wallet} :
    Stored fs ((List.range shards.length).map output.shardPath) shards <->
      forall item, item ∈ numberedShards output shards -> exists data, item.2.write = .ok data ∧
        fs.readFile (output.parent.child item.1) = .ok data := by
  unfold Stored
  rw [map_shardPath, List.forall₂_map_left_iff, List.forall₂_iff_zip]
  constructor
  · intro h item hitem
    exact h.2 hitem
  · intro h
    refine ⟨by simp, ?_⟩
    intro name shard hitem
    exact h (name, shard) hitem

theorem stored_iff_of_writeShards {paths : List Path}
    (h : writeShards ownerOnly force output wallet fs = (.ok paths, after)) :
    exists shards, wallet.shards = .ok shards ∧
      paths = (List.range shards.length).map (Path.ofString output).shardPath ∧
      (Stored after paths shards <-> forall path, path ∈ paths -> fs.Placeable path) := by
  rcases writeShards_cases h with ⟨⟨_, hfault⟩, _⟩ | ⟨shards, ended, hshards, _, hwritten, hpaths⟩
  · cases hfault
  rcases ended with fault | _
  · cases hpaths
  cases hpaths
  refine ⟨shards, hshards, rfl, ?_⟩
  rw [stored_numbered_iff, stored_iff_of_writeEach (apart_numberedShards _ _) hwritten,
    forall_mem_numberedShards]

end Wallets

theorem exists_write_blankBasic : exists data, Wallet.blankBasic.write = .ok data :=
  ⟨_, rfl⟩

theorem exists_write_blankPair :
    exists first second data data', Wallet.blankPair.shards = .ok [first, second] ∧
      first.write = .ok data ∧ second.write = .ok data' :=
  ⟨_, _, _, _, rfl, rfl, rfl⟩

theorem writeShards_blankPair :
    exists shards data data', Wallet.blankPair.shards = .ok shards ∧
      writeShards true false "w" Wallet.blankPair (.ofEntries []) =
        (.ok [⟨"", ["w.1"]⟩, ⟨"", ["w.2"]⟩],
          .ofEntries [(["w.2"], .file true data'), (["w.1"], .file true data)]) := by
  rcases exists_write_blankPair with ⟨first, second, data, data', hshards, hdata, hdata'⟩
  have hfirst : writeBytes true false ⟨"", ["w.1"]⟩ data (.ofEntries []) =
      (.ok (), .ofEntries [(["w.1"], .file true data)]) :=
    writeBytes_of_isDirectory rfl rfl rfl rfl rfl rfl
  have hsecond : writeBytes true false ⟨"", ["w.2"]⟩ data'
      (.ofEntries [(["w.1"], .file true data)]) =
      (.ok (), .ofEntries [(["w.2"], .file true data'), (["w.1"], .file true data)]) :=
    writeBytes_of_isDirectory rfl rfl rfl rfl rfl rfl
  have hpaths : Path.shardPaths "w" 2 = .ok [⟨"", ["w.1"]⟩, ⟨"", ["w.2"]⟩] := rfl
  have hwritten : writeEach true false
      [(⟨"", ["w.1"]⟩, first), (⟨"", ["w.2"]⟩, second)] (.ofEntries []) =
        (.ok (), .ofEntries [(["w.2"], .file true data'), (["w.1"], .file true data)]) :=
    writeEach_cons_eq_ok.mpr ⟨data, _, hdata, hfirst,
      writeEach_cons_eq_ok.mpr ⟨data', _, hdata', hsecond, rfl⟩⟩
  exact ⟨_, data, data', hshards,
    writeShards_of_writeEach hshards hpaths (fun _ => rfl) hwritten⟩

/-- What is reported as written can be read at its path, just in case the path is no directory
once its parent is made. In a tree that is told before the write, unless the path goes up. -/
theorem reported_files_readable (ownerOnly force : Bool) (output : String) (wallet : Wallet)
    (fs after : FileSystem) :
    (forall path, writeWallet ownerOnly force output wallet fs = (.ok path, after) ->
      path = Path.ofString output ∧ exists data, wallet.write = .ok data ∧
        (after.readFile path = .ok data <-> fs.Placeable path) ∧
        (readWallet after output = .ok wallet <->
          fs.Placeable path ∧
            wallet.publicKey.length = 32 ∧ wallet.iv.length = 12 ∧ wallet.tag.length = 16) ∧
        (fs.Tree -> ".." ∉ path.names ->
          (fs.Placeable path <-> fs.isDirectory path = false))) ∧
    (forall paths, writeShards ownerOnly force output wallet fs = (.ok paths, after) ->
      exists shards, wallet.shards = .ok shards ∧
        paths = (List.range shards.length).map (Path.ofString output).shardPath ∧
        (Stored after paths shards <-> forall path, path ∈ paths -> fs.Placeable path) ∧
        (fs.Tree -> ".." ∉ (Path.ofString output).parent.names ->
          forall path, path ∈ paths -> (fs.Placeable path <-> fs.isDirectory path = false))) := by
  constructor
  · intro path hrun
    rcases writeWallet_eq_ok.mp hrun with ⟨hpath, data, hwrite, hwritten⟩
    refine ⟨hpath, data, hwrite, readFile_iff_of_writeBytes hwritten,
      readWallet_iff_of_writeWallet hrun, ?_⟩
    intro htree hup
    exact htree.placeable_iff (names_ne_nil_of_writeBytes hwritten) hup
  · intro paths hrun
    rcases stored_iff_of_writeShards hrun with ⟨shards, hshards, hpaths, hstored⟩
    refine ⟨shards, hshards, hpaths, hstored, ?_⟩
    intro htree hup path hpath
    rw [hpaths] at hpath
    rcases List.mem_map.mp hpath with ⟨i, hi, hsame⟩
    rw [← hsame]
    apply htree.placeable_child_iff hup
    exact (Path.apart_shardNames _ _).ne_up _ (List.mem_map_of_mem hi)

theorem reported_files_readable_empty :
    (exists path after,
      writeWallet true false "w" Wallet.blankBasic (.ofEntries []) = (.ok path, after) ∧
        readWallet after "w" = .ok Wallet.blankBasic) ∧
    (exists shards first second after,
      Wallet.blankPair.shards = .ok shards ∧
        writeShards true false "w" Wallet.blankPair (.ofEntries []) = (.ok [first, second], after) ∧
        Stored after [first, second] shards) := by
  constructor
  · have hdata : exists data, Wallet.blankBasic.write = .ok data := ⟨_, rfl⟩
    rcases hdata with ⟨data, hdata⟩
    have hwritten : writeBytes true false ⟨"", ["w"]⟩ data (.ofEntries []) =
        (.ok (), .ofEntries [(["w"], .file true data)]) :=
      writeBytes_of_isDirectory rfl rfl rfl rfl rfl rfl
    have hrun := writeWallet_eq_ok.mpr ⟨(rfl : _ = Path.ofString "w"), data, hdata, hwritten⟩
    rcases (reported_files_readable true false "w" Wallet.blankBasic (.ofEntries []) _).1 _
      hrun with ⟨_, _, _, _, hread, hplaceable⟩
    refine ⟨_, _, hrun, hread.mpr ⟨(hplaceable (tree_empty rfl) (by decide)).mpr rfl, ?_⟩⟩
    exact ⟨rfl, rfl, rfl⟩
  · rcases writeShards_blankPair with ⟨_, _, _, _, hrun⟩
    rcases (reported_files_readable true false "w" Wallet.blankPair (.ofEntries []) _).2 _ hrun with
      ⟨shards, hsame, _, hstored, hplaceable⟩
    refine ⟨shards, _, _, _, hsame, hrun, hstored.mpr ?_⟩
    intro path hpath
    apply (hplaceable (tree_empty rfl) (by decide) path hpath).mpr
    rcases List.mem_cons.mp hpath with hsame | hpath
    · rw [hsame]
      rfl
    · rw [List.mem_singleton.mp hpath]
      rfl

/-- A directory takes the file in under its temporary name. -/
theorem writeWallet_into_directory :
    exists path after,
      writeWallet true true "w" Wallet.blankBasic (.ofEntries [(["w"], .directory)]) =
          (.ok path, after) ∧
        path.toString = "w" ∧
        readWallet after "w" =
          .error (.file (.unread "w" (.refused .isDirectory "w"))) := by
  rcases exists_write_blankBasic with ⟨data, hdata⟩
  have hwritten : writeBytes true true ⟨"", ["w"]⟩ data (.ofEntries [(["w"], .directory)]) =
      (.ok (), .ofEntries [(["w", "w.temp"], .file true data), (["w"], .directory)]) :=
    writeBytes_of_isDirectory rfl rfl rfl rfl rfl rfl
  exact ⟨_, _, writeWallet_eq_ok.mpr ⟨(rfl : _ = Path.ofString "w"), data, hdata, hwritten⟩,
    rfl, rfl⟩

end Store
end WalletVault
