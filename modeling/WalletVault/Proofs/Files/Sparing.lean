import WalletVault.Proofs.Files.Interruption

/-!
# Files that are spared

A write takes the file under its temporary name away, and without force it
replaces no file that it can see. Every other file keeps its bytes, whether the
write returns or fails.
-/

namespace WalletVault

namespace FileSystem

/-- A write to the path can touch the location: there, once the parent is made, a file can be
stored under the temporary name or under the name itself. -/
def Exposed (fs : FileSystem) (path : Path) (location : Location) : Prop :=
  (fs.makeDirectories path.parent).2.WritableAt path.temp location ∨
    (fs.makeDirectories path.parent).2.WritableAt path location

/-- Regular files stay as they are, but for those at some locations. -/
def SparesExcept (before after : FileSystem) (touched : Location -> Prop) : Prop :=
  forall location ownerOnly content, before.entry? location = some (.file ownerOnly content) ->
    ¬ touched location -> after.entry? location = some (.file ownerOnly content)

theorem ne_of_not_writableAt {fs : FileSystem} {path : Path} {location other : Location}
    (h : ¬ fs.WritableAt path location) (hother : fs.WritableAt path other) : location ≠ other := by
  intro hsame
  rw [hsame] at h
  exact h hother

theorem sparesExcept_refl (fs : FileSystem) (touched : Location -> Prop) :
    fs.SparesExcept fs touched :=
  fun _ _ _ hfile _ => hfile

/-- In a tree a write that goes up nowhere touches no regular file but the one under its temporary
name, unless one stands at the path. -/
theorem Tree.writableAt_of_exposed {fs : FileSystem} (htree : fs.Tree) {parent : Path}
    {name : String}
    (hup : ".." ∉ (parent.child name).names) {location : Location} {ownerOnly : Bool}
    {content : Bytes} (hfile : fs.entry? location = some (.file ownerOnly content))
    (hfree : fs.standing (parent.child name) = none)
    (h : fs.Exposed (parent.child name) location) :
    fs.WritableAt (parent.child name).temp location := by
  rw [Path.child, List.mem_append, not_or, List.mem_singleton] at hup
  rw [Exposed, Path.parent_child, Path.temp_child] at h
  rw [Path.temp_child]
  have hkeeps := keeps_makeDirectories fs parent
  have hkept : FileSystem.entry? (fs.makeDirectories parent).2 location =
      some (.file ownerOnly content) := by
    rcases entry?_makeDirectories fs parent location with hsame | ⟨hnone, _⟩
    · rw [hsame, hfile]
    · rw [hnone] at hfile
      cases hfile
  -- In a tree, making the parent does not change what stands under a name of it.
  rcases h with ⟨hnull, hlocate, _⟩ | ⟨hnull, hlocate, _⟩
  · have hstanding := standing_eq_some.mpr ⟨hnull, location, hlocate, hkept⟩
    rw [htree.standing_child hup.1 (Store.temp_ne_up name)] at hstanding
    rcases standing_eq_some.mp hstanding with ⟨_, location', hlocate', _⟩
    have hboth := hkeeps.locate hlocate'
    rw [hlocate] at hboth
    cases hboth
    refine ⟨hnull, hlocate', ?_⟩
    rw [hfile]
    simp
  · have hstanding := standing_eq_some.mpr ⟨hnull, location, hlocate, hkept⟩
    rw [htree.standing_child hup.1 (Ne.symm hup.2), hfree] at hstanding
    cases hstanding

end FileSystem

namespace Store

open FileSystem

section Writing

variable {ownerOnly force : Bool} {parent : Path} {name : String} {data : Bytes}
  {fs made after : FileSystem} {result : Except Fault Unit}

theorem spares_of_ending (h : Ending force parent name data fs result after) :
    fs.SparesExcept after (fs.Exposed (parent.child name)) := by
  intro location owner content hfile hexposed
  have hkept : FileSystem.entry? (fs.makeDirectories parent).2 location =
      some (.file owner content) := by
    rcases entry?_makeDirectories fs parent location with hsame | ⟨hnone, _⟩
    · rw [hsame, hfile]
    · rw [hnone] at hfile
      cases hfile
  rw [Exposed, Path.parent_child, Path.temp_child, not_or] at hexposed
  rcases hexposed with ⟨htemp, hpath⟩
  have hcleared : forall {made : FileSystem} {source : Location}, made.ClearedAt after source ->
      location ≠ source -> after.entry? location = made.entry? location := by
    intro made source hcleared hne
    rw [hcleared.2, if_neg hne]
  cases h with
  | refused fault cause =>
      exact hfile
  | unmade fault refusal made _ hmade hcleaned =>
      rw [hmade] at hkept htemp
      rcases hcleaned with hsame | ⟨source, hsource, hfreed⟩
      · rw [hsame, hkept]
      · rw [hcleared hfreed (ne_of_not_writableAt htemp hsource), hkept]
  | unstored fault _ hmade hwritable =>
      rw [hmade] at hkept
      exact hkept
  | unmoved cause made _ source hmade hsource hdirectory hfreed =>
      rw [hmade] at hkept htemp
      rw [hcleared hfreed (ne_of_not_writableAt htemp hsource), hkept]
  | placed made _ source goal hmade hsource hgoal hmoved =>
      rw [hmade] at hkept htemp hpath
      rcases hmoved with ⟨_, _, hentry⟩
      rw [hentry, if_neg (ne_of_not_writableAt hpath hgoal),
        if_neg (ne_of_not_writableAt htemp hsource), hkept]
  | misplaced made _ source goal hmade hsource hdirectory hinside hgoal hne hmoved =>
      rw [hmade] at hkept htemp
      have hother : location ≠ goal := by
        intro hsame
        rw [hsame, hgoal] at hkept
        cases hkept
      rcases hmoved with ⟨_, _, hentry⟩
      rw [hentry, if_neg hother, if_neg (ne_of_not_writableAt htemp hsource), hkept]

end Writing

/-!
# Series of writes
-/

section Series

variable {ownerOnly force : Bool} {parent : Path} {fs after : FileSystem}
  {items : List (String × Wallet)}

theorem Returned.exposed_iff {name other : String} {middle : FileSystem} {location : Location}
    (h : Returned parent name (fs.makeDirectories parent).2 middle) :
    middle.Exposed (parent.child other) location <-> fs.Exposed (parent.child other) location := by
  rw [Exposed, Exposed, Path.parent_child, h.makeDirectories_eq, ← h.same.writableAt_iff,
    ← h.same.writableAt_iff]

theorem spares_of_writeEach {result : Except Fault Unit}
    (h : writeEach ownerOnly force (destinations parent items) fs = (result, after)) :
    fs.SparesExcept after
      (fun location => exists item, item ∈ items ∧ fs.Exposed (parent.child item.1) location) := by
  induction items generalizing fs with
  | nil =>
      cases h
      exact sparesExcept_refl _ _
  | cons item items ih =>
      rcases hdata : item.2.write with fault | data
      · rw [writeEach_of_write_error hdata] at h
        cases h
        exact sparesExcept_refl _ _
      · rw [destinations, List.map_cons, writeEach_cons_apply hdata] at h
        rcases hwrite : writeBytes ownerOnly force (parent.child item.1) data fs with
          ⟨ended, middle⟩
        rw [hwrite] at h
        have hending := writeBytes_ending hwrite
        intro location owner content hfile htouched
        have hhead := spares_of_ending hending location owner content hfile
          (fun hexposed => htouched ⟨item, List.mem_cons_self, hexposed⟩)
        rcases ended with fault | _
        · cases h
          exact hhead
        · have hreturned := returned_of_ending hending
          apply ih h location owner content hhead
          -- The parent stands by now, so the later items expose what they did before.
          intro hlater
          rcases hlater with ⟨next, hnext, hexposed⟩
          exact htouched ⟨next, List.mem_cons_of_mem _ hnext, hreturned.exposed_iff.mp hexposed⟩

theorem standing_eq_none_of_writeEach (hapart : Apart (items.map Prod.fst)) {other : String}
    (hother : other ≠ "..") (hne : forall item, item ∈ items -> other ≠ item.1)
    (hparent : fs.isDirectory parent = true) (hfree : fs.standing (parent.child other) = none)
    (h : writeEach ownerOnly force (destinations parent items) fs = (.ok (), after)) :
    after.standing (parent.child other) = none := by
  induction items generalizing fs with
  | nil =>
      cases h
      exact hfree
  | cons item items ih =>
      rcases writeEach_cons_eq_ok.mp h with ⟨data, middle, hdata, hwrite, hrest⟩
      have hreturned := returned_of_ending (writeBytes_ending hwrite)
      rw [makeDirectories_of_isDirectory hparent] at hreturned
      apply ih hapart.tail (fun next hnext => hne next (List.mem_cons_of_mem _ hnext)) _ _ hrest
      · rw [← hreturned.same.isDirectory_eq]
        exact hparent
      · by_cases htemp : other = item.1 ++ ".temp"
        · rw [htemp]
          exact hreturned.cleared
        · rw [hreturned.frame (hapart.ne_up item.1 List.mem_cons_self) other hother
            (hne item List.mem_cons_self) htemp]
          exact hfree

theorem cleared_of_writeEach (hapart : Apart (items.map Prod.fst))
    (h : writeEach ownerOnly force (destinations parent items) fs = (.ok (), after)) :
    forall item, item ∈ items -> after.standing (parent.child item.1).temp = none := by
  induction items generalizing fs with
  | nil =>
      intro item hitem
      cases hitem
  | cons item items ih =>
      rcases writeEach_cons_eq_ok.mp h with ⟨data, middle, hdata, hwrite, hrest⟩
      have hreturned := returned_of_ending (writeBytes_ending hwrite)
      intro next hnext
      rcases List.mem_cons.mp hnext with hfirst | hlater
      · -- The first write frees its temporary name, and no later name or temporary name is that.
        rw [hfirst, Path.temp_child]
        apply standing_eq_none_of_writeEach hapart.tail (temp_ne_up item.1) _ _ _ hrest
        · intro other hother hsame
          have hmem : other.1 ∈ items.map Prod.fst := List.mem_map_of_mem hother
          exact hapart.ne_temp other.1 (List.mem_cons_of_mem _ hmem) item.1 List.mem_cons_self
            hsame.symm
        · exact hreturned.isDirectory_parent
        · exact hreturned.cleared
      · exact ih hapart.tail hrest next hlater

end Series

/-!
# Runs
-/

/-- What a run leaves of the files that were there before. Without force it leaves all of them in a
tree, but for those under the temporary names of its targets; and when it returns, nothing stands
under these. -/
structure Spares (force : Bool) (targets : List Path) (before after : FileSystem)
    (result : Except Fault Unit) : Prop where
  unexposed : before.SparesExcept after
    (fun location => exists target, target ∈ targets ∧ before.Exposed target location)
  unforced : force = false -> before.Tree -> (forall target, target ∈ targets ->
      ".." ∉ target.names) ->
    before.SparesExcept after
      (fun location => exists target, target ∈ targets ∧ before.WritableAt target.temp location)
  keeps : result = .ok () -> before.Keeps after
  cleared : result = .ok () -> forall target, target ∈ targets ->
    after.standing target.temp = none

theorem spares_of_refused {force : Bool} {targets : List Path} {fs : FileSystem}
    {result : Except Fault Unit} (h : exists fault, result = .error fault) :
    Spares force targets fs fs result where
  unexposed := sparesExcept_refl fs _
  unforced := fun _ _ _ => sparesExcept_refl fs _
  keeps := fun _ => Keeps.refl fs
  cleared := by
    intro hok
    rcases h with ⟨fault, hfault⟩
    rw [hfault] at hok
    cases hok

theorem Spares.spared_iff {targets : List Path} {before after : FileSystem}
    (h : Spares false targets before after (.ok ())) (htree : before.Tree)
    (hup : forall target, target ∈ targets -> ".." ∉ target.names) :
    before.SparesExcept after (fun _ => False) <->
      forall target, target ∈ targets -> forall ownerOnly content,
        before.standing target.temp ≠ some (.file ownerOnly content) := by
  constructor
  · intro hspared target htarget ownerOnly content hstanding
    rcases standing_eq_some.mp hstanding with ⟨hnull, location, hlocate, hfile⟩
    have hkept := hspared location ownerOnly content hfile id
    have hleft := standing_eq_some.mpr ⟨hnull, location, (h.keeps rfl).locate hlocate, hkept⟩
    rw [h.cleared rfl target htarget] at hleft
    cases hleft
  · intro hnone location ownerOnly content hfile _
    apply h.unforced rfl htree hup location ownerOnly content hfile
    intro htouched
    rcases htouched with ⟨target, htarget, hnull, hlocate, _⟩
    exact hnone target htarget ownerOnly content
      (standing_eq_some.mpr ⟨hnull, location, hlocate, hfile⟩)

section Runs

variable {ownerOnly force : Bool} {output : String} {wallet : Wallet} {fs after : FileSystem}

theorem spares_of_free {targets : List Path} {result : Except Fault Unit}
    (hunexposed : fs.SparesExcept after
      (fun location => exists target, target ∈ targets ∧ fs.Exposed target location))
    (hfree : force = false -> forall target, target ∈ targets ->
      (exists parent name, target = Path.child parent name) ∧ fs.standing target = none)
    (hkeeps : result = .ok () -> fs.Keeps after)
    (hcleared : result = .ok () -> forall target, target ∈ targets ->
      after.standing target.temp = none) :
    Spares force targets fs after result where
  unexposed := hunexposed
  unforced := by
    intro hforce htree hup location owner content hfile htouched
    apply hunexposed location owner content hfile
    intro hexposed
    rcases hexposed with ⟨target, htarget, hexposed⟩
    rcases hfree hforce target htarget with ⟨⟨parent, name, hsame⟩, hnone⟩
    have hupTarget := hup target htarget
    rw [hsame] at hexposed hnone hupTarget
    apply htouched
    refine ⟨target, htarget, ?_⟩
    rw [hsame]
    exact htree.writableAt_of_exposed hupTarget hfile hnone hexposed
  keeps := hkeeps
  cleared := hcleared

theorem writeBytes_of_no_names {path : Path} (hnames : path.names = []) (data : Bytes)
    (fs : FileSystem) :
    exists fault, writeBytes ownerOnly force path data fs = (.error fault, fs) := by
  have htemp : path.extend ".temp" = .error (.misuse (.emptyName path.toString)) := if_pos hnames
  unfold writeBytes
  rw [htemp]
  rcases fs.look path with fault | found
  · exact ⟨_, rfl⟩
  · dsimp only
    by_cases htaken : (found.isSome && !force) = true
    · rw [if_pos htaken]
      exact ⟨_, rfl⟩
    · rw [if_neg htaken]
      exact ⟨_, rfl⟩

theorem writeBytes_of_taken {path : Path} {entry : Entry} (hlook : fs.look path = .ok (some entry))
    (data : Bytes) :
    writeBytes ownerOnly false path data fs = (.error (.file (.taken [path.toString])), fs) := by
  unfold writeBytes
  rw [hlook]
  rfl

theorem spares_of_writeBytes {path : Path} {data : Bytes} {result : Except Fault Unit}
    (h : writeBytes ownerOnly force path data fs = (result, after)) :
    Spares force [path] fs after result := by
  by_cases hnames : path.names = []
  · rcases writeBytes_of_no_names hnames data fs with ⟨fault, hrefused⟩
    rw [hrefused] at h
    cases h
    exact spares_of_refused ⟨fault, rfl⟩
  have hpath := Path.child_name hnames
  by_cases htaken : force = false ∧ exists entry, fs.standing path = some entry
  · rcases htaken with ⟨hforce, entry, hstanding⟩
    rw [hforce, writeBytes_of_taken (look_eq_ok_some.mpr hstanding)] at h
    cases h
    exact spares_of_refused ⟨_, rfl⟩
  · rw [← hpath] at h
    have hending := writeBytes_ending h
    apply spares_of_free
    · intro location owner content hfile htouched
      apply spares_of_ending hending location owner content hfile
      rw [hpath]
      exact fun hexposed => htouched ⟨path, List.mem_cons_self, hexposed⟩
    · intro hforce target htarget
      rw [List.mem_singleton.mp htarget]
      refine ⟨⟨_, _, hpath.symm⟩, ?_⟩
      by_contra hnone
      exact htaken ⟨hforce, Option.ne_none_iff_exists'.mp hnone⟩
    · intro hok
      rw [hok] at hending
      exact (keeps_makeDirectories fs _).trans (returned_of_ending hending).same.1
    · intro hok target htarget
      rw [List.mem_singleton.mp htarget]
      rw [hok] at hending
      exact (returned_of_ending hending).cleared

theorem spares_of_writeShards {shards : List Wallet} (hshards : wallet.shards = .ok shards)
    {result : Except Fault (List Path)}
    (h : writeShards ownerOnly force output wallet fs = (result, after)) :
    Spares force ((List.range shards.length).map (Path.ofString output).shardPath) fs after
      (result.map (fun _ => ())) := by
  rcases writeShards_cases h with
    ⟨⟨fault, hfault⟩, hsame, _⟩ | ⟨shards', ended, hshards', hopen, hended, hresult⟩
  · rw [hfault, hsame]
    exact spares_of_refused ⟨fault, rfl⟩
  rw [hshards] at hshards'
  cases hshards'
  apply spares_of_free
  · intro location owner content hfile htouched
    apply spares_of_writeEach hended location owner content hfile
    intro hitem
    rcases hitem with ⟨item, hmem, hexposed⟩
    have hnone : forall target, target ∈
        (List.range shards.length).map (Path.ofString output).shardPath ->
          ¬ fs.Exposed target location :=
      fun target htarget hexposed => htouched ⟨target, htarget, hexposed⟩
    exact forall_mem_numberedShards.mp hnone item hmem hexposed
  · intro hforce target htarget
    rcases List.mem_map.mp htarget with ⟨i, hi, hsame⟩
    rw [← hsame]
    exact ⟨⟨_, _, rfl⟩, standing_of_look (hopen hforce i (List.mem_range.mp hi))⟩
  · intro hok
    rcases ended with fault | _
    · rw [hresult] at hok
      cases hok
    · exact keeps_of_writeEach (apart_numberedShards _ _) hended
  · intro hok
    rcases ended with fault | _
    · rw [hresult] at hok
      cases hok
    · exact forall_mem_numberedShards.mpr
        (cleared_of_writeEach (apart_numberedShards _ _) hended)

theorem spares_of_writeWallet {result : Except Fault Path}
    (h : writeWallet ownerOnly force output wallet fs = (result, after)) :
    Spares force [Path.ofString output] fs after (result.map (fun _ => ())) := by
  rw [writeWallet, Computation.bind_apply, Computation.mk_apply] at h
  rcases hdata : wallet.write with fault | data
  · rw [hdata] at h
    cases h
    exact spares_of_refused ⟨fault, rfl⟩
  rw [hdata] at h
  dsimp only at h
  rw [Computation.bind_apply] at h
  rcases hwrite : writeBytes ownerOnly force (Path.ofString output) data fs with ⟨ended, written⟩
  have hspares := spares_of_writeBytes hwrite
  rw [hwrite] at h
  rcases ended with fault | _
  · cases h
    exact hspares
  · cases h
    exact hspares

end Runs

end Store
end WalletVault
