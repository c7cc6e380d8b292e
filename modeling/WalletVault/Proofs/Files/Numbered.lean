import WalletVault.Proofs.Files.Endings

/-!
# Numbered files

The shards of a wallet go to numbered names beside the output. They are all
refused before the first is written, or they are written one after the other
until one of them fails.
-/

namespace WalletVault
namespace Store

open FileSystem

def numberedShards (output : Path) (shards : List Wallet) : List (String × Wallet) :=
  ((List.range shards.length).map output.shardName).zip shards

section Items

variable {output : Path} {shards : List Wallet}

theorem getElem?_numberedShards_eq_some {i : Nat} {item : String × Wallet} :
    (numberedShards output shards)[i]? = some item <->
      item.1 = output.shardName i ∧ shards[i]? = some item.2 := by
  unfold numberedShards
  rw [List.getElem?_zip_eq_some]
  constructor
  · intro h
    rcases h with ⟨hname, hshard⟩
    rw [List.getElem?_map, List.getElem?_range (List.getElem?_eq_some_iff.mp hshard).1] at hname
    exact ⟨(Option.some.inj hname).symm, hshard⟩
  · intro h
    rcases h with ⟨hname, hshard⟩
    rw [List.getElem?_map, List.getElem?_range (List.getElem?_eq_some_iff.mp hshard).1, hname]
    exact ⟨rfl, hshard⟩

theorem exists_of_mem_numberedShards {item : String × Wallet}
    (h : item ∈ numberedShards output shards) :
    exists i, item.1 = output.shardName i ∧ shards[i]? = some item.2 := by
  rcases List.mem_iff_getElem?.mp h with ⟨i, hi⟩
  exact ⟨i, getElem?_numberedShards_eq_some.mp hi⟩

theorem length_numberedShards (output : Path) (shards : List Wallet) :
    (numberedShards output shards).length = shards.length := by
  simp [numberedShards]

theorem map_fst_numberedShards (output : Path) (shards : List Wallet) :
    (numberedShards output shards).map Prod.fst =
      (List.range shards.length).map output.shardName :=
  List.map_fst_zip (by simp)

theorem apart_numberedShards (output : Path) (shards : List Wallet) :
    Apart ((numberedShards output shards).map Prod.fst) := by
  rw [map_fst_numberedShards]
  exact Path.apart_shardNames output shards.length

theorem map_shardPath (output : Path) (count : Nat) :
    (List.range count).map output.shardPath =
      ((List.range count).map output.shardName).map output.parent.child := by
  rw [List.map_map]
  rfl

theorem destinations_numberedShards (output : Path) (shards : List Wallet) :
    destinations output.parent (numberedShards output shards) =
      ((List.range shards.length).map output.shardPath).zip shards := by
  rw [map_shardPath, List.zip_map_left]
  rfl

theorem forall_mem_numberedShards {p : Path -> Prop} :
    (forall path, path ∈ (List.range shards.length).map output.shardPath -> p path) <->
      forall item, item ∈ numberedShards output shards -> p (output.parent.child item.1) := by
  rw [map_shardPath, ← map_fst_numberedShards]
  simp only [List.forall_mem_map]

end Items

/-!
# Runs
-/

section Runs

variable {ownerOnly force : Bool} {fs after : FileSystem}

theorem look_of_existing {paths : List Path} (h : existing fs paths = .ok []) :
    forall path, path ∈ paths -> fs.look path = .ok none := by
  induction paths with
  | nil =>
      intro path hpath
      cases hpath
  | cons path rest ih =>
      unfold existing at h
      rcases hlook : fs.look path with fault | found
      · rw [hlook] at h
        cases h
      · rw [hlook] at h
        rcases hrest : existing fs rest with fault | taken
        · simp only [hrest] at h
          cases h
        · simp only [hrest, Except.map, Except.ok.injEq] at h
          by_cases hsome : found.isSome = true
          · rw [if_pos hsome] at h
            cases h
          · rw [if_neg hsome] at h
            rw [h] at hrest
            intro other hother
            rcases List.mem_cons.mp hother with hsame | hmem
            · rw [hsame, hlook, Option.not_isSome_iff_eq_none.mp hsome]
            · exact ih hrest other hmem

theorem writeShards_of_writeEach {output : String} {wallet : Wallet} {shards : List Wallet}
    {paths : List Path} {ended : Except Fault Unit} (hshards : wallet.shards = .ok shards)
    (hpaths : Path.shardPaths output shards.length = .ok paths)
    (hfree : force = false -> existing fs paths = .ok [])
    (h : writeEach ownerOnly force (paths.zip shards) fs = (ended, after)) :
    writeShards ownerOnly force output wallet fs = (ended.map (fun _ => paths), after) := by
  have hwriting : (writeEach ownerOnly force (paths.zip shards) >>= fun _ => pure paths :
      Filing (List Path)) fs = (ended.map (fun _ => paths), after) := by
    rw [Computation.bind_apply, h]
    cases ended <;> rfl
  rw [writeShards, Computation.bind_apply, Computation.mk_apply, hshards]
  dsimp only
  rw [Computation.bind_apply, Computation.mk_apply, hpaths]
  dsimp only
  cases force with
  | true =>
      exact hwriting
  | false =>
      rw [if_pos (by decide), Computation.bind_apply, Computation.get_apply]
      dsimp only
      simpa only [hfree rfl] using hwriting

/-- The shards are refused together, or they are written in order. -/
theorem writeShards_cases {output : String} {wallet : Wallet} {result : Except Fault (List Path)}
    (h : writeShards ownerOnly force output wallet fs = (result, after)) :
    ((exists fault, result = .error fault) ∧ after = fs ∧ wallet.shards ≠ .ok []) ∨
      exists shards ended, wallet.shards = .ok shards ∧
        (force = false -> forall i, i < shards.length ->
          fs.look ((Path.ofString output).shardPath i) = .ok none) ∧
        writeEach ownerOnly force (destinations (Path.ofString output).parent
          (numberedShards (Path.ofString output) shards)) fs = (ended, after) ∧
        result = ended.map
          (fun _ => (List.range shards.length).map (Path.ofString output).shardPath) := by
  rw [writeShards, Computation.bind_apply, Computation.mk_apply] at h
  rcases hshards : wallet.shards with fault | shards
  · rw [hshards] at h
    cases h
    exact Or.inl ⟨⟨_, rfl⟩, rfl, fun hnone => (by cases hnone)⟩
  rw [hshards] at h
  dsimp only at h
  rw [Computation.bind_apply, Computation.mk_apply] at h
  rcases hpaths : Path.shardPaths output shards.length with fault | paths
  · rw [hpaths] at h
    cases h
    refine Or.inl ⟨⟨_, rfl⟩, rfl, fun hnone => ?_⟩
    cases hnone
    cases hpaths
  have hnumbered := Path.eq_map_of_shardPaths hpaths
  rw [hpaths] at h
  dsimp only at h
  have hwriting : (writeEach ownerOnly force (paths.zip shards) >>= fun _ => pure paths) fs =
      (result, after) ->
      exists ended, writeEach ownerOnly force (destinations (Path.ofString output).parent
          (numberedShards (Path.ofString output) shards)) fs = (ended, after) ∧
        result = ended.map
          (fun _ => (List.range shards.length).map (Path.ofString output).shardPath) := by
    intro hrun
    rw [destinations_numberedShards, ← hnumbered]
    rw [Computation.bind_apply] at hrun
    rcases hended : writeEach ownerOnly force (paths.zip shards) fs with ⟨fault | _, ended⟩
    · rw [hended] at hrun
      cases hrun
      exact ⟨_, rfl, rfl⟩
    · rw [hended] at hrun
      cases hrun
      exact ⟨_, rfl, rfl⟩
  cases force with
  | true =>
      rcases hwriting h with ⟨ended, hended, hresult⟩
      exact Or.inr ⟨shards, ended, rfl, fun hforce => Bool.noConfusion hforce, hended, hresult⟩
  | false =>
      rw [if_pos (by decide), Computation.bind_apply, Computation.get_apply] at h
      dsimp only at h
      rcases hexisting : existing fs paths with fault | taken
      · simp only [hexisting] at h
        cases h
        refine Or.inl ⟨⟨_, rfl⟩, rfl, fun hnone => ?_⟩
        cases hnone
        cases hpaths
        cases hexisting
      · cases taken with
        | nil =>
            simp only [hexisting] at h
            rcases hwriting h with ⟨ended, hended, hresult⟩
            refine Or.inr ⟨shards, ended, rfl, ?_, hended, hresult⟩
            intro _ i hi
            apply look_of_existing hexisting
            rw [hnumbered]
            exact List.mem_map_of_mem (List.mem_range.mpr hi)
        | cons path rest =>
            simp only [hexisting] at h
            cases h
            refine Or.inl ⟨⟨_, rfl⟩, rfl, fun hnone => ?_⟩
            cases hnone
            cases hpaths
            cases hexisting

end Runs

end Store
end WalletVault
