import WalletVault.Proofs.Files.Interruption

/-!
# What written files hold

Whatever can be read at a path behind a write that returned is what was written
there. A path may be a directory and hold nothing, but it never holds anything
else.
-/

namespace WalletVault
namespace Store

open FileSystem

section Writing

variable {ownerOnly force : Bool} {parent path : Path} {data content : Bytes}
  {fs after : FileSystem}

theorem standing_of_readFile (h : fs.readFile path = .ok content) :
    exists owner, fs.standing path = some (.file owner content) := by
  unfold readFile at h
  split at h
  · cases h
  rename_i hnull
  split at h
  · cases h
  rename_i location hlocate
  split at h
  · cases h
  · cases h
  · rename_i owner _ hentry
    cases h
    exact ⟨owner, standing_eq_some.mpr ⟨by simpa using hnull, location, hlocate, hentry⟩⟩

theorem eq_of_readFile_of_writeBytes
    (h : writeBytes ownerOnly force path data fs = (.ok (), after))
    (hread : after.readFile path = .ok content) : content = data := by
  rw [(readFile_iff_of_writeBytes h).mpr (placeable_of_readFile h hread)] at hread
  exact (Except.ok.inj hread).symm

theorem standing_eq_of_writeEach {items : List (String × Wallet)}
    (hapart : Apart (items.map Prod.fst)) {other : String} (hother : other ≠ "..")
    (hne : forall item, item ∈ items -> other ≠ item.1 ∧ other ≠ item.1 ++ ".temp")
    (hparent : fs.isDirectory parent = true)
    (h : writeEach ownerOnly force (destinations parent items) fs = (.ok (), after)) :
    after.standing (parent.child other) = fs.standing (parent.child other) := by
  induction items generalizing fs with
  | nil =>
      cases h
      rfl
  | cons item items ih =>
      rcases writeEach_cons_eq_ok.mp h with ⟨data, middle, _, hwrite, hrest⟩
      have hreturned := returned_of_ending (writeBytes_ending hwrite)
      rw [makeDirectories_of_isDirectory hparent] at hreturned
      have hlater := ih hapart.tail (fun next hnext => hne next (List.mem_cons_of_mem _ hnext))
        hreturned.isDirectory_parent hrest
      rcases hne item List.mem_cons_self with ⟨hname, htemp⟩
      rw [hlater]
      exact hreturned.frame (hapart.ne_up item.1 List.mem_cons_self) other hother hname htemp

theorem write_of_readFile_of_writeEach {items : List (String × Wallet)}
    (hapart : Apart (items.map Prod.fst))
    (h : writeEach ownerOnly force (destinations parent items) fs = (.ok (), after))
    {item : String × Wallet} (hitem : item ∈ items)
    (hread : after.readFile (parent.child item.1) = .ok content) :
    item.2.write = .ok content := by
  induction items generalizing fs with
  | nil =>
      cases hitem
  | cons first items ih =>
      rcases writeEach_cons_eq_ok.mp h with ⟨data, middle, hdata, hwrite, hrest⟩
      rcases List.mem_cons.mp hitem with hfirst | hlater
      · rw [hfirst] at hread ⊢
        have hreturned := returned_of_ending (writeBytes_ending hwrite)
        -- The later names are apart from the first one, so its file is still the one that was
        -- written.
        have hkept : after.standing (parent.child first.1) =
            middle.standing (parent.child first.1) := by
          apply standing_eq_of_writeEach hapart.tail
            (hapart.ne_up first.1 List.mem_cons_self) _ hreturned.isDirectory_parent hrest
          intro next hnext
          have hmem : next.1 ∈ items.map Prod.fst := List.mem_map_of_mem hnext
          constructor
          · intro hsame
            exact (List.nodup_cons.mp hapart.nodup).1 (hsame ▸ hmem)
          · exact hapart.ne_temp first.1 List.mem_cons_self next.1 (List.mem_cons_of_mem _ hmem)
        rcases standing_of_readFile hread with ⟨owner, hstanding⟩
        rw [hkept] at hstanding
        rw [eq_of_readFile_of_writeBytes hwrite (readFile_of_standing hstanding)]
        exact hdata
      · exact ih hapart.tail hrest hlater

theorem write_of_readFile_of_writeShards {output : String} {wallet shard : Wallet}
    {shards : List Wallet} {paths : List Path} (hshards : wallet.shards = .ok shards)
    (h : writeShards ownerOnly force output wallet fs = (.ok paths, after)) {i : Nat}
    (hshard : shards[i]? = some shard)
    (hread : after.readFile ((Path.ofString output).shardPath i) = .ok content) :
    shard.write = .ok content := by
  rcases writeShards_cases h with ⟨⟨_, hfault⟩, _⟩ | ⟨written, ended, hwritten, _, hended, hresult⟩
  · cases hfault
  rw [hshards] at hwritten
  cases hwritten
  rcases ended with fault | _
  · cases hresult
  have hitem : ((Path.ofString output).shardName i, shard) ∈
      numberedShards (Path.ofString output) shards :=
    List.mem_of_getElem? (getElem?_numberedShards_eq_some.mpr ⟨rfl, hshard⟩)
  exact write_of_readFile_of_writeEach (apart_numberedShards _ _) hended hitem hread

end Writing

end Store
end WalletVault
