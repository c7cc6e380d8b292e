import WalletVault.Proofs.Computation
import WalletVault.Proofs.Files.Placement

/-!
# Writing the files of several shards

The files are written one after the other into one directory. None of them gets
in the way of another, so in the end each name holds its shard, no temporary
name is left and every other location is as it was.
-/

namespace WalletVault
namespace Store

open FileSystem

/-- Names that get in the way neither of each other nor of each other's temporary names. -/
structure Apart (names : List String) : Prop where
  nodup : names.Nodup
  ne_up : forall name, name ∈ names -> name ≠ ".."
  ne_temp : forall name, name ∈ names -> forall other, other ∈ names ->
    name ≠ other ++ ".temp"

theorem Apart.sublist {names some : List String} (h : Apart names) (hsome : some.Sublist names) :
    Apart some where
  nodup := h.nodup.sublist hsome
  ne_up := fun name hname => h.ne_up name (hsome.subset hname)
  ne_temp := fun name hname other hother =>
    h.ne_temp name (hsome.subset hname) other (hsome.subset hother)

theorem Apart.tail {name : String} {names : List String} (h : Apart (name :: names)) :
    Apart names :=
  h.sublist (List.sublist_cons_self name names)

/-- The shards stand under their names in a directory; elsewhere nothing changed, but that
temporary names may have become free. -/
structure Placed (parent : Path) (directory : Location) (items : List (String × Wallet))
    (before after : FileSystem) : Prop where
  keeps : before.Keeps after
  kept : after.Keeps before
  stored : forall item, item ∈ items ->
    hasNull (parent.child item.1) = false ∧
      before.locate (parent.child item.1) = .ok (directory ++ [item.1]) ∧
      exists ownerOnly data, item.2.write = .ok data ∧
        after.entry? (directory ++ [item.1]) = some (.file ownerOnly data)
  frame : forall location,
    (forall item, item ∈ items ->
      location ≠ directory ++ [item.1] ∧ location ≠ directory ++ [item.1 ++ ".temp"]) ->
    after.entry? location = before.entry? location
  settled : forall location,
    (forall item, item ∈ items -> location ≠ directory ++ [item.1]) ->
    after.entry? location = before.entry? location ∨ after.entry? location = none

theorem placed_nil (parent : Path) (directory : Location) (fs : FileSystem) :
    Placed parent directory [] fs fs where
  keeps := Keeps.refl fs
  kept := Keeps.refl fs
  stored := fun _ hitem => by cases hitem
  frame := fun _ _ => rfl
  settled := fun _ _ => Or.inl rfl

theorem append_name_inj {directory : Location} {name other : String}
    (h : directory ++ [name] = directory ++ [other]) : name = other := by
  have hnames := List.append_cancel_left h
  cases hnames
  rfl

section Sequence

variable {parent : Path} {directory : Location} {item : String × Wallet}
  {items : List (String × Wallet)} {before middle after : FileSystem}

theorem Placed.cons (hapart : Apart ((item :: items).map Prod.fst))
    (hhead : Placed parent directory [item] before middle)
    (htail : Placed parent directory items middle after) :
    Placed parent directory (item :: items) before after where
  keeps := hhead.keeps.trans htail.keeps
  kept := htail.kept.trans hhead.kept
  stored := by
    intro other hother
    rcases List.mem_cons.mp hother with hsame | hrest
    · rw [hsame]
      rcases hhead.stored item List.mem_cons_self with
        ⟨hnull, hlocate, ownerOnly, data, hwrite, hentry⟩
      refine ⟨hnull, hlocate, ownerOnly, data, hwrite, ?_⟩
      rw [htail.frame, hentry]
      intro next hnext
      have hmem : next.1 ∈ items.map Prod.fst := List.mem_map_of_mem hnext
      constructor
      · intro hlocation
        apply (List.nodup_cons.mp hapart.nodup).1
        rw [append_name_inj hlocation]
        exact hmem
      · intro hlocation
        exact hapart.ne_temp item.1 List.mem_cons_self next.1 (List.mem_cons_of_mem _ hmem)
          (append_name_inj hlocation)
    · rcases htail.stored other hrest with ⟨hnull, hlocate, hstored⟩
      exact ⟨hnull, hhead.kept.locate hlocate, hstored⟩
  frame := by
    intro location hlocation
    rw [htail.frame location (fun next hnext => hlocation next (List.mem_cons_of_mem item hnext))]
    apply hhead.frame
    intro next hnext
    rw [List.mem_singleton.mp hnext]
    exact hlocation item List.mem_cons_self
  settled := by
    intro location hlocation
    have hrest := htail.settled location
      (fun next hnext => hlocation next (List.mem_cons_of_mem item hnext))
    have hfirst := hhead.settled location (by
      intro next hnext
      rw [List.mem_singleton.mp hnext]
      exact hlocation item List.mem_cons_self)
    rcases hrest with hsame | hfree
    · rw [hsame]
      exact hfirst
    · exact Or.inr hfree

end Sequence

/-!
# One shard
-/

section Writing

variable {ownerOnly force : Bool} {parent : Path} {fs fs' : FileSystem}

theorem placed_of_writeBytes {name : String} (hname : name ≠ "..") {wallet : Wallet}
    {data : Bytes} (hdata : wallet.write = .ok data)
    (h : writeBytes ownerOnly force (parent.child name) data fs = (.ok (), fs')) :
    hasNull parent = false ∧
      exists made, fs.makeDirectories parent = (.ok (), made) ∧ made.Keeps fs' ∧
        (made.isDirectory (parent.child name) = false ->
          exists directory, made.walk (made.startOf parent) parent.names = .ok directory ∧
            Placed parent directory [(name, wallet)] made fs') := by
  rcases writeBytes_child_eq_ok hname h with ⟨hnull, hnullName, made, hmade, hkeeps, hfree⟩
  refine ⟨hnull, made, hmade, hkeeps, ?_⟩
  intro hnone
  rcases hfree hnone with ⟨hkept, directory, owner, hwalk, hlocate, hentry⟩
  have hfile : fs'.entry? (directory ++ [name]) = some (.file owner data) := by
    rw [hentry, if_pos rfl]
  refine ⟨directory, hwalk, hkeeps, hkept, ?_, ?_, ?_⟩
  · intro item hitem
    rw [List.mem_singleton.mp hitem]
    exact ⟨hnullName, hlocate, owner, data, hdata, hfile⟩
  · intro location hlocation
    rcases hlocation (name, wallet) List.mem_cons_self with ⟨hne, hneTemp⟩
    rw [hentry, if_neg hne, if_neg hneTemp]
  · intro location hlocation
    rw [hentry, if_neg (hlocation (name, wallet) List.mem_cons_self)]
    by_cases hsame : location = directory ++ [name ++ ".temp"]
    · exact Or.inr (if_pos hsame)
    · exact Or.inl (if_neg hsame)

/-!
# All shards
-/

def destinations (parent : Path) (items : List (String × Wallet)) : List (Path × Wallet) :=
  items.map (fun item => (parent.child item.1, item.2))

theorem writeEach_cons_eq_ok {path : Path} {shard : Wallet} {rest : List (Path × Wallet)} :
    writeEach ownerOnly force ((path, shard) :: rest) fs = (.ok (), fs') <->
      exists data middle, shard.write = .ok data ∧
        writeBytes ownerOnly force path data fs = (.ok (), middle) ∧
        writeEach ownerOnly force rest middle = (.ok (), fs') := by
  rw [writeEach, Computation.bind_eq_ok]
  constructor
  · intro h
    rcases h with ⟨data, _, hdata, h⟩
    rcases Prod.mk.inj hdata with ⟨hok, hsame⟩
    rcases Computation.bind_eq_ok.mp h with ⟨_, middle, hwrite, hrest⟩
    rw [← hsame] at hwrite
    exact ⟨data, middle, hok, hwrite, hrest⟩
  · intro h
    rcases h with ⟨data, middle, hok, hwrite, hrest⟩
    exact ⟨data, fs, Prod.ext hok rfl, Computation.bind_eq_ok.mpr ⟨(), middle, hwrite, hrest⟩⟩

/-- Once the directory is there, each further shard finds it as the first one did. -/
theorem placed_of_writeEach {items : List (String × Wallet)}
    (hapart : Apart (items.map Prod.fst)) {directory : Location}
    (hparent : fs.isDirectory parent = true)
    (hwalk : fs.walk (fs.startOf parent) parent.names = .ok directory)
    (hfree : forall item, item ∈ items -> fs.isDirectory (parent.child item.1) = false)
    (h : writeEach ownerOnly force (destinations parent items) fs = (.ok (), fs')) :
    Placed parent directory items fs fs' := by
  induction items generalizing fs with
  | nil =>
      cases h
      exact placed_nil parent directory _
  | cons item items ih =>
      rcases writeEach_cons_eq_ok.mp h with ⟨data, middle, hdata, hwrite, hrest⟩
      have hup := hapart.ne_up item.1 List.mem_cons_self
      rcases placed_of_writeBytes hup hdata hwrite with ⟨_, made, hmade, _, hplaced⟩
      rw [makeDirectories_of_isDirectory hparent] at hmade
      rcases Prod.mk.inj hmade with ⟨_, hsame⟩
      subst hsame
      rcases hplaced (hfree item List.mem_cons_self) with ⟨directory', hwalk', hhead⟩
      rw [hwalk] at hwalk'
      cases hwalk'
      apply Placed.cons hapart hhead
      apply ih hapart.tail (hhead.keeps.isDirectory hparent) _ _ hrest
      · rw [hhead.keeps.startOf]
        exact hhead.keeps.walk hwalk
      · intro next hnext
        exact hhead.kept.not_isDirectory (hfree next (List.mem_cons_of_mem item hnext))

theorem keeps_of_writeEach {items : List (String × Wallet)}
    (hapart : Apart (items.map Prod.fst))
    (h : writeEach ownerOnly force (destinations parent items) fs = (.ok (), fs')) :
    fs.Keeps fs' := by
  induction items generalizing fs with
  | nil =>
      cases h
      exact Keeps.refl _
  | cons item items ih =>
      rcases writeEach_cons_eq_ok.mp h with ⟨data, middle, hdata, hwrite, hrest⟩
      have hup := hapart.ne_up item.1 List.mem_cons_self
      rcases placed_of_writeBytes hup hdata hwrite with ⟨_, made, hmade, hkeeps, _⟩
      have hmaking := keeps_makeDirectories fs parent
      rw [hmade] at hmaking
      exact (hmaking.trans hkeeps).trans (ih hapart.tail hrest)

/-- The first shard makes the directory. Directories then stay, and if no destination is one, all
shards are placed. -/
theorem writeEach_eq_ok {items : List (String × Wallet)} (hitems : items ≠ [])
    (hapart : Apart (items.map Prod.fst))
    (h : writeEach ownerOnly force (destinations parent items) fs = (.ok (), fs')) :
    exists made, fs.makeDirectories parent = (.ok (), made) ∧ made.Keeps fs' ∧
      ((forall item, item ∈ items -> made.isDirectory (parent.child item.1) = false) ->
        exists directory, made.walk (made.startOf parent) parent.names = .ok directory ∧
          Placed parent directory items made fs') := by
  cases items with
  | nil =>
      exact absurd rfl hitems
  | cons item items =>
      rcases writeEach_cons_eq_ok.mp h with ⟨data, middle, hdata, hwrite, hrest⟩
      have hup := hapart.ne_up item.1 List.mem_cons_self
      rcases placed_of_writeBytes hup hdata hwrite with ⟨hnull, made, hmade, hkeeps, hplaced⟩
      refine ⟨made, hmade, hkeeps.trans (keeps_of_writeEach hapart.tail hrest), ?_⟩
      intro hfree
      rcases hplaced (hfree item List.mem_cons_self) with ⟨directory, hwalk, hhead⟩
      refine ⟨directory, hwalk, Placed.cons hapart hhead ?_⟩
      have hparent := hhead.keeps.isDirectory (isDirectory_of_makeDirectories hnull hmade)
      apply placed_of_writeEach hapart.tail hparent _ _ hrest
      · rw [hhead.keeps.startOf]
        exact hhead.keeps.walk hwalk
      · intro next hnext
        exact hhead.kept.not_isDirectory (hfree next (List.mem_cons_of_mem item hnext))

end Writing

end Store
end WalletVault
