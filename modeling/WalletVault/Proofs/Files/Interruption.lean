import WalletVault.Proofs.Files.Reported

/-!
# Interrupted series of writes

Shards are written one after the other, and what was written stays when a later
one fails. So a run leaves the first few shards in their places and the other
paths as they were. It stops at the first temporary file that cannot be stored.
-/

namespace WalletVault

namespace Wallet

theorem exists_write_iff_of_mem_shards {wallet shard : Wallet} {shards : List Wallet}
    (hshards : wallet.shards = .ok shards) (hshard : shard ∈ shards) :
    (exists data, shard.write = .ok data) <->
      wallet.kind = (WalletKind.current true).tag ∧ wallet.format.hash.Fits := by
  rcases Computation.except_map_eq_ok.mp hshards with ⟨format, hformat, hlist⟩
  have hsharded := KeyFormat.toSharded_eq_ok.mp hformat
  rw [← hlist] at hshard
  rcases List.mem_map.mp hshard with ⟨single, hsingle, hsame⟩
  rcases List.mem_map.mp hsingle with ⟨share, _, hshare⟩
  rw [← hsame, ← hshare, hsharded]
  constructor
  · intro h
    rcases h with ⟨data, hdata⟩
    rcases write_eq_ok_iff.mp hdata with ⟨hkind, hlayout⟩
    exact ⟨hkind, (layout_eq_ok.mp hlayout).1.2⟩
  · intro h
    rcases h with ⟨hkind, hfits⟩
    exact ⟨_, write_eq_ok_iff.mpr ⟨hkind, layout_eq_ok.mpr ⟨⟨rfl, hfits⟩, rfl⟩⟩⟩

end Wallet

namespace Store

open FileSystem

theorem readFile_of_standing {fs : FileSystem} {path : Path} {ownerOnly : Bool} {data : Bytes}
    (h : fs.standing path = some (.file ownerOnly data)) : fs.readFile path = .ok data := by
  rcases standing_eq_some.mp h with ⟨hnull, location, hlocate, hentry⟩
  exact readFile_of_entry? hnull hlocate hentry

/-!
# Names in one directory
-/

section Names

variable {parent : Path} {name other : String} {before after : FileSystem}

theorem standing_eq_of_cleaned (hne : other ≠ name ++ ".temp")
    (h : Cleaned (parent.child (name ++ ".temp")) before after) :
    after.standing (parent.child other) = before.standing (parent.child other) := by
  rcases h with hsame | ⟨source, hsource, hcleared⟩
  · rw [hsame]
  · apply (hcleared.sameDirectories hsource.2.2).standing_eq
    intro location hlocate
    rw [hcleared.2, if_neg]
    exact ne_of_locate_child (temp_ne_up name) hne hlocate hsource.2.1

end Names

/-!
# One write
-/

section Writing

variable {ownerOnly force : Bool} {parent : Path} {name : String} {data : Bytes}
  {fs after : FileSystem}

/-- In a directory that is there, a write of a free name fails only if its temporary file cannot be
stored. -/
theorem not_writable_of_failed {fault : Fault} (hparent : fs.isDirectory parent = true)
    (hfree : fs.isDirectory (parent.child name) = false)
    (hopen : force = false -> fs.standing (parent.child name) = none)
    (h : Ending force parent name data fs (.error fault) after) :
    ¬ fs.Writable (parent.child (name ++ ".temp")) := by
  have hmaking := makeDirectories_of_isDirectory hparent
  cases h with
  | refused _ cause =>
      intro hwritable
      rcases hwritable with ⟨source, hnull, hlocate, _⟩
      rcases cause with ⟨refusal, hlook⟩ | ⟨hforce, entry, hlook⟩ | hnullParent
      · rcases exists_locate_of_append (temp_ne_up name) hlocate with ⟨goal, hgoal⟩
        rw [look_of_locate (hasNull_child_append hnull) hgoal] at hlook
        cases hlook
      · rw [look_eq_ok_some, hopen hforce] at hlook
        cases hlook
      · rw [(isDirectory_iff.mp hparent).1] at hnullParent
        cases hnullParent
  | unmade _ refusal made _ hmade hcleaned =>
      rw [hmaking] at hmade
      cases hmade
  | unstored _ _ hmade hwritable =>
      rw [hmaking] at hmade
      cases hmade
      exact hwritable
  | unmoved cause made _ source hmade hsource hdirectory hcleared =>
      rw [hmaking] at hmade
      cases hmade
      rw [hfree] at hdirectory
      cases hdirectory

theorem standing_of_failed {other : String} {fault : Fault} (hne : other ≠ name ++ ".temp")
    (hsettled : (fs.makeDirectories parent).2.standing (parent.child other) =
      fs.standing (parent.child other))
    (h : Ending force parent name data fs (.error fault) after) :
    after.standing (parent.child other) = fs.standing (parent.child other) := by
  cases h with
  | refused _ cause =>
      rfl
  | unmade _ refusal made _ hmade hcleaned =>
      rw [hmade] at hsettled
      exact (standing_eq_of_cleaned hne hcleaned).trans hsettled
  | unstored _ _ hmade hwritable =>
      rw [hmade] at hsettled
      exact hsettled
  | unmoved cause made _ source hmade hsource hdirectory hcleared =>
      rw [hmade] at hsettled
      have hcleaned : Cleaned (parent.child (name ++ ".temp")) made after :=
        Or.inr ⟨source, hsource, hcleared⟩
      exact (standing_eq_of_cleaned hne hcleaned).trans hsettled

theorem stored_of_ending
    (hfree : (fs.makeDirectories parent).2.isDirectory (parent.child name) = false)
    (h : Ending force parent name data fs (.ok ()) after) :
    exists ownerOnly, after.standing (parent.child name) = some (.file ownerOnly data) := by
  cases h with
  | placed made _ source goal hmade hsource hgoal hmoved =>
      have hsame := hmoved.sameDirectories hsource.2.2 hgoal.2.2
      rcases hmoved with ⟨_, owner, hentry⟩
      refine ⟨owner, standing_eq_some.mpr ⟨hgoal.1, goal, hsame.locate_eq_ok.mp hgoal.2.1, ?_⟩⟩
      rw [hentry, if_pos rfl]
  | misplaced made _ source goal hmade hsource hdirectory hinside hgoal hne hmoved =>
      rw [hmade, hdirectory] at hfree
      cases hfree

end Writing

/-!
# Series of writes
-/

section Series

variable {ownerOnly force : Bool} {parent : Path} {fs after : FileSystem}

theorem writeEach_cons_apply {path : Path} {shard : Wallet} {rest : List (Path × Wallet)}
    {data : Bytes} (hdata : shard.write = .ok data) :
    writeEach ownerOnly force ((path, shard) :: rest) fs =
      match writeBytes ownerOnly force path data fs with
      | (.ok _, middle) => writeEach ownerOnly force rest middle
      | (.error fault, middle) => (.error fault, middle) := by
  rw [writeEach, Computation.bind_apply, Computation.mk_apply, hdata]
  dsimp only
  rw [Computation.bind_apply]
  rcases writeBytes ownerOnly force path data fs with ⟨_ | _, middle⟩ <;> rfl

/-- How far a series of writes went: the first items stand under their names, and under the other
names is what was there. After the first, it stops only where a temporary file cannot be stored. -/
structure Progress (parent : Path) (names : List String) (written rest : List (String × Wallet))
    (before made after : FileSystem) (result : Except Fault Unit) : Prop where
  stored : forall item, item ∈ written -> exists ownerOnly data, item.2.write = .ok data ∧
    after.standing (parent.child item.1) = some (.file ownerOnly data)
  kept : forall name, name ∈ names -> name ∉ written.map Prod.fst ->
    after.standing (parent.child name) = before.standing (parent.child name)
  writable : forall item, item ∈ written -> made.Writable (parent.child (item.1 ++ ".temp"))
  result_eq : result = .ok () <-> rest = []
  blocked : forall item, rest.head? = some item ->
    before.isDirectory parent = true ∨ written ≠ [] ->
      ¬ made.Writable (parent.child (item.1 ++ ".temp"))

section Steps

variable {names : List String} (hapart : Apart names) {item : String × Wallet}
  (hmem : item.1 ∈ names) {data : Bytes} {made middle : FileSystem}
include hapart hmem

theorem standing_of_returned (hreturned : Returned parent item.1 made middle)
    (hsettled : forall name, name ∈ names ->
      made.standing (parent.child name) = fs.standing (parent.child name))
    {name : String} (hname : name ∈ names) (hne : name ≠ item.1) :
    middle.standing (parent.child name) = fs.standing (parent.child name) := by
  rw [hreturned.frame (hapart.ne_up item.1 hmem) name (hapart.ne_up name hname) hne
    (hapart.ne_temp name hname item.1 hmem)]
  exact hsettled name hname

theorem progress_of_failed {items : List (String × Wallet)} {fault : Fault}
    (hfree : fs.isDirectory (parent.child item.1) = false)
    (hopen : force = false -> fs.standing (parent.child item.1) = none)
    (hsettled : forall name, name ∈ names ->
      (fs.makeDirectories parent).2.standing (parent.child name) =
        fs.standing (parent.child name))
    (h : Ending force parent item.1 data fs (.error fault) after) :
    Progress parent names [] (item :: items) fs (fs.makeDirectories parent).2 after
      (.error fault) where
  stored := fun _ hnone => (by cases hnone)
  kept := by
    intro name hname _
    exact standing_of_failed (hapart.ne_temp name hname item.1 hmem) (hsettled name hname) h
  writable := fun _ hnone => (by cases hnone)
  result_eq := ⟨fun hok => (by cases hok), fun hnone => (by cases hnone)⟩
  blocked := by
    intro stopped hstopped hparent
    cases hstopped
    rcases hparent with hparent | hnone
    · rw [makeDirectories_of_isDirectory hparent]
      exact not_writable_of_failed hparent hfree hopen h
    · exact absurd rfl hnone

theorem Progress.cons {written rest : List (String × Wallet)} {result : Except Fault Unit}
    (hreturned : Returned parent item.1 made middle) (hdata : item.2.write = .ok data)
    (hstored :
      exists ownerOnly, middle.standing (parent.child item.1) = some (.file ownerOnly data))
    (hsettled : forall name, name ∈ names ->
      made.standing (parent.child name) = fs.standing (parent.child name))
    (hnot : item.1 ∉ written.map Prod.fst)
    (htail : Progress parent names written rest middle middle after result) :
    Progress parent names (item :: written) rest fs made after result where
  stored := by
    intro next hnext
    rcases List.mem_cons.mp hnext with hfirst | hrest
    · rcases hstored with ⟨owner, hstored⟩
      rw [hfirst, htail.kept item.1 hmem hnot]
      exact ⟨owner, data, hdata, hstored⟩
    · exact htail.stored next hrest
  kept := by
    intro name hname hnone
    rw [List.map_cons, List.mem_cons, not_or] at hnone
    rw [htail.kept name hname hnone.2]
    exact standing_of_returned hapart hmem hreturned hsettled hname hnone.1
  writable := by
    intro next hnext
    rcases List.mem_cons.mp hnext with hfirst | hrest
    · rw [hfirst]
      exact hreturned.writable
    · exact hreturned.same.writable_iff.mpr (htail.writable next hrest)
  result_eq := htail.result_eq
  blocked := by
    intro stopped hstopped _ hwritable
    have hparent := hreturned.isDirectory_parent
    exact htail.blocked stopped hstopped (Or.inl hparent) (hreturned.same.writable_iff.mp hwritable)

end Steps

theorem exists_progress {names : List String} (hapart : Apart names)
    {items : List (String × Wallet)} (hitems : (items.map Prod.fst).Sublist names)
    {result : Except Fault Unit}
    (hfree : forall item, item ∈ items -> fs.isDirectory (parent.child item.1) = false)
    (hopen : force = false -> forall item, item ∈ items ->
      fs.standing (parent.child item.1) = none)
    (hsettled : forall name, name ∈ names ->
      (fs.makeDirectories parent).2.standing (parent.child name) =
        fs.standing (parent.child name))
    (hdata : forall item, item ∈ items -> exists data, item.2.write = .ok data)
    (h : writeEach ownerOnly force (destinations parent items) fs = (result, after)) :
    exists written rest, items = written ++ rest ∧
      Progress parent names written rest fs (fs.makeDirectories parent).2 after result := by
  -- The names are apart, so every later item finds its name as the first write found it.
  induction items generalizing fs with
  | nil =>
      cases h
      exact ⟨[], [], rfl, fun _ hitem => (by cases hitem), fun _ _ _ => rfl,
        fun _ hitem => (by cases hitem), Iff.intro (fun _ => rfl) (fun _ => rfl),
        fun _ hitem => (by cases hitem)⟩
  | cons item items ih =>
      rcases hdata item List.mem_cons_self with ⟨data, hitem⟩
      have hmem : item.1 ∈ names := hitems.subset List.mem_cons_self
      rw [destinations, List.map_cons, writeEach_cons_apply hitem] at h
      rcases hwrite : writeBytes ownerOnly force (parent.child item.1) data fs with ⟨ended, middle⟩
      rw [hwrite] at h
      have hending := writeBytes_ending hwrite
      rcases ended with fault | _
      · cases h
        exact ⟨[], item :: items, rfl, progress_of_failed hapart hmem
          (hfree item List.mem_cons_self) (fun hforce => hopen hforce item List.mem_cons_self)
          hsettled hending⟩
      · have hmadeFree := (isDirectory_congr (hsettled item.1 hmem)).trans
          (hfree item List.mem_cons_self)
        have hreturned := returned_of_ending hending
        have hnodup := List.nodup_cons.mp (hapart.sublist hitems).nodup
        have hlater : forall next, next ∈ items ->
            middle.standing (parent.child next.1) = fs.standing (parent.child next.1) := by
          intro next hnext
          have hnextMem : next.1 ∈ items.map Prod.fst := List.mem_map_of_mem hnext
          apply standing_of_returned hapart hmem hreturned hsettled
          · exact hitems.subset (List.mem_cons_of_mem _ hnextMem)
          · exact fun hsame => hnodup.1 (hsame ▸ hnextMem)
        have hmiddle := hreturned.makeDirectories_eq
        have htail := ih ((List.sublist_cons_self _ _).trans hitems)
          (fun next hnext => (isDirectory_congr (hlater next hnext)).trans
            (hfree next (List.mem_cons_of_mem _ hnext)))
          (fun hforce next hnext => (hlater next hnext).trans
            (hopen hforce next (List.mem_cons_of_mem _ hnext)))
          (fun name _ => by rw [hmiddle])
          (fun next hnext => hdata next (List.mem_cons_of_mem _ hnext)) h
        rcases htail with ⟨written, rest, hsplit, hprogress⟩
        rw [hmiddle] at hprogress
        have hnot : item.1 ∉ written.map Prod.fst := by
          intro hagain
          apply hnodup.1
          rw [hsplit, List.map_append]
          exact List.mem_append_left _ hagain
        exact ⟨item :: written, rest, by rw [hsplit, List.cons_append],
          hprogress.cons hapart hmem hreturned hitem (stored_of_ending hmadeFree hending) hsettled
            hnot⟩

end Series

/-!
# Shards
-/

/-- The first `count` shards stand at their paths, and at the other paths is what was there. -/
structure Begun (output : Path) (shards : List Wallet) (count : Nat) (before after : FileSystem) :
    Prop where
  stored : forall i shard, i < count -> shards[i]? = some shard -> exists data,
    shard.write = .ok data ∧ after.readFile (output.shardPath i) = .ok data
  kept : forall i, count <= i -> i < shards.length ->
    after.standing (output.shardPath i) = before.standing (output.shardPath i)

/-- A run that has written `count` shards. If these are some but not all, the next temporary file
cannot be stored. -/
structure Reached (output : Path) (shards : List Wallet) (count : Nat)
    (before after : FileSystem) (result : Except Fault (List Path)) : Prop where
  count_le : count <= shards.length
  begun : Begun output shards count before after
  returned : (exists paths, result = .ok paths) <-> count = shards.length
  writable : forall i, i < count ->
    (before.makeDirectories output.parent).2.Writable (output.shardPath i).temp
  blocked : 0 < count -> count < shards.length ->
    ¬ (before.makeDirectories output.parent).2.Writable (output.shardPath count).temp

theorem begun_zero (output : Path) (shards : List Wallet) (fs : FileSystem) :
    Begun output shards 0 fs fs :=
  ⟨fun _ _ hi => (by omega), fun _ _ _ => rfl⟩

/-- Making the directory of the output does not show at the paths of the shards, and none of these
is a directory that may be replaced. -/
def Settled (force : Bool) (fs : FileSystem) (output : Path) (count : Nat) : Prop :=
  forall i, i < count ->
    (fs.makeDirectories output.parent).2.standing (output.shardPath i) =
        fs.standing (output.shardPath i) ∧
      (force = true -> fs.isDirectory (output.shardPath i) = false)

theorem settled_of_tree {force : Bool} {fs : FileSystem} (htree : fs.Tree) {output : Path}
    (hup : ".." ∉ output.parent.names) {count : Nat}
    (hfree : force = true -> forall i, i < count -> fs.isDirectory (output.shardPath i) = false) :
    Settled force fs output count := by
  intro i hi
  have hname := (Path.apart_shardNames output count).ne_up (output.shardName i)
    (List.mem_map_of_mem (List.mem_range.mpr hi))
  exact ⟨htree.standing_child hup hname, fun hforce => hfree hforce i hi⟩

section Shards

variable {output : Path} {shards : List Wallet} {written rest : List (String × Wallet)}
  {fs made after : FileSystem} {result : Except Fault Unit}
  (hsplit : numberedShards output shards = written ++ rest)
include hsplit

theorem getElem?_written_eq_some {i : Nat} {item : String × Wallet}
    (h : written[i]? = some item) : item.1 = output.shardName i ∧ shards[i]? = some item.2 := by
  apply getElem?_numberedShards_eq_some.mp
  have hi := (List.getElem?_eq_some_iff.mp h).1
  rw [hsplit, List.getElem?_append_left hi, h]

theorem length_eq_iff : written.length = shards.length <-> rest = [] := by
  have hlength := congrArg List.length hsplit
  rw [length_numberedShards, List.length_append] at hlength
  rw [← List.length_eq_zero_iff]
  omega

variable (h : Progress output.parent ((List.range shards.length).map output.shardName) written rest
  fs made after result)
include h

theorem begun_of_progress : Begun output shards written.length fs after where
  stored := by
    intro i shard hi hshard
    have hitem := List.getElem?_eq_getElem hi
    rcases getElem?_written_eq_some hsplit hitem with ⟨hname, hsame⟩
    rw [hsame] at hshard
    cases hshard
    rcases h.stored _ (List.getElem_mem hi) with ⟨owner, data, hdata, hstanding⟩
    rw [hname] at hstanding
    exact ⟨data, hdata, readFile_of_standing hstanding⟩
  kept := by
    intro i hi hlength
    apply h.kept (output.shardName i) (List.mem_map_of_mem (List.mem_range.mpr hlength))
    intro hwritten
    rcases List.mem_map.mp hwritten with ⟨item, hitem, hname⟩
    rcases List.mem_iff_getElem?.mp hitem with ⟨j, hj⟩
    have hbound := (List.getElem?_eq_some_iff.mp hj).1
    rw [(getElem?_written_eq_some hsplit hj).1] at hname
    have hsame := output.shardName_injective hname
    omega

theorem writable_of_progress {i : Nat} (hi : i < written.length) :
    made.Writable (output.shardPath i).temp := by
  have hname := (getElem?_written_eq_some hsplit (List.getElem?_eq_getElem hi)).1
  have hwritable := h.writable _ (List.getElem_mem hi)
  rw [hname] at hwritable
  rwa [Path.shardPath, Path.temp_child]

theorem not_writable_of_progress (hpos : 0 < written.length)
    (hlength : written.length < shards.length) :
    ¬ made.Writable (output.shardPath written.length).temp := by
  cases rest with
  | nil =>
      have hall := (length_eq_iff hsplit).mpr rfl
      omega
  | cons item rest =>
      have hitem : (numberedShards output shards)[written.length]? = some item := by
        rw [hsplit, List.getElem?_append_right (Nat.le_refl _), Nat.sub_self]
        rfl
      have hname := (getElem?_numberedShards_eq_some.mp hitem).1
      have hblocked := h.blocked item rfl (Or.inr (List.length_pos_iff.mp hpos))
      rw [hname] at hblocked
      rwa [Path.shardPath, Path.temp_child]

end Shards

section Runs

variable {ownerOnly force : Bool} {output : String} {wallet : Wallet} {shards : List Wallet}
  {fs after : FileSystem} {result : Except Fault (List Path)}

theorem writeEach_of_write_error {item : String × Wallet} {items : List (String × Wallet)}
    {parent : Path} {fault : Fault} (hfault : item.2.write = .error fault) :
    writeEach ownerOnly force (destinations parent (item :: items)) fs = (.error fault, fs) := by
  rw [destinations, List.map_cons, writeEach, Computation.bind_apply, Computation.mk_apply, hfault]

/-- The shards differ in their shares alone. So all of them can be written, or the first one is
refused already. -/
theorem writable_or_refused (hshards : wallet.shards = .ok shards) {path : Path}
    {ended : Except Fault Unit}
    (hended : writeEach ownerOnly force (destinations path.parent (numberedShards path shards)) fs =
      (ended, after)) :
    (forall item, item ∈ numberedShards path shards -> exists data, item.2.write = .ok data) ∨
      (exists fault, ended = .error fault) ∧ after = fs ∧ shards ≠ [] := by
  have hwritable : forall item, item ∈ numberedShards path shards ->
      ((exists data, item.2.write = .ok data) <->
        wallet.kind = (WalletKind.current true).tag ∧ wallet.format.hash.Fits) := by
    intro item hitem
    rcases exists_of_mem_numberedShards hitem with ⟨i, _, hshard⟩
    exact Wallet.exists_write_iff_of_mem_shards hshards (List.mem_of_getElem? hshard)
  rcases hitems : numberedShards path shards with _ | ⟨first, items⟩
  · exact Or.inl (fun item hitem => (by cases hitem))
  rw [hitems] at hwritable hended
  have hfirst := hwritable first List.mem_cons_self
  rcases hwrite : first.2.write with fault | data
  · rw [writeEach_of_write_error hwrite] at hended
    cases hended
    refine Or.inr ⟨⟨fault, rfl⟩, rfl, ?_⟩
    intro hnone
    rw [hnone] at hitems
    cases hitems
  · exact Or.inl (fun item hitem => (hwritable item hitem).mpr (hfirst.mp ⟨data, hwrite⟩))

theorem reached_of_refused {path : Path} (hresult : exists fault, result = .error fault)
    (hsome : shards ≠ []) : Reached path shards 0 fs fs result where
  count_le := Nat.zero_le _
  begun := begun_zero _ _ _
  returned := by
    rcases hresult with ⟨fault, hfault⟩
    have hlength := List.length_pos_iff.mpr hsome
    rw [hfault]
    exact ⟨fun hok => (by rcases hok with ⟨_, hok⟩; cases hok), fun hzero => (by omega)⟩
  writable := fun _ hi => (by omega)
  blocked := fun hpos => (by omega)

theorem reached_of_writeEach {path : Path} {ended : Except Fault Unit}
    (hsettled : Settled force fs path shards.length)
    (hopen : force = false -> forall i, i < shards.length ->
      fs.look (path.shardPath i) = .ok none)
    (hdata : forall item, item ∈ numberedShards path shards -> exists data, item.2.write = .ok data)
    (hended : writeEach ownerOnly force (destinations path.parent (numberedShards path shards)) fs =
      (ended, after))
    {paths : List Path} (hresult : result = ended.map (fun _ => paths)) :
    exists count, Reached path shards count fs after result := by
  have hnames := map_fst_numberedShards path shards
  have hindex : forall item, item ∈ numberedShards path shards ->
      exists i, i < shards.length ∧ path.parent.child item.1 = path.shardPath i := by
    intro item hitem
    rcases exists_of_mem_numberedShards hitem with ⟨i, hname, hshard⟩
    exact ⟨i, (List.getElem?_eq_some_iff.mp hshard).1, by rw [hname]; rfl⟩
  have hunused : force = false -> forall item, item ∈ numberedShards path shards ->
      fs.standing (path.parent.child item.1) = none := by
    intro hforce item hitem
    rcases hindex item hitem with ⟨i, hi, hpath⟩
    rw [hpath]
    exact standing_of_look (hopen hforce i hi)
  have hfree : forall item, item ∈ numberedShards path shards ->
      fs.isDirectory (path.parent.child item.1) = false := by
    intro item hitem
    cases force with
    | true =>
        rcases hindex item hitem with ⟨i, hi, hpath⟩
        rw [hpath]
        exact (hsettled i hi).2 rfl
    | false =>
        by_contra hdirectory
        have hstanding := isDirectory_iff_standing.mp ((Bool.not_eq_false _).mp hdirectory)
        rw [hunused rfl item hitem] at hstanding
        cases hstanding
  have hmade : forall name, name ∈ (List.range shards.length).map path.shardName ->
      (fs.makeDirectories path.parent).2.standing (path.parent.child name) =
        fs.standing (path.parent.child name) := by
    intro name hname
    rcases List.mem_map.mp hname with ⟨i, hi, hsame⟩
    rw [← hsame]
    exact (hsettled i (List.mem_range.mp hi)).1
  rcases exists_progress (Path.apart_shardNames path shards.length)
    (by rw [hnames]) hfree hunused hmade hdata hended with
    ⟨written, rest, hsplit, hprogress⟩
  refine ⟨written.length, ?_, begun_of_progress hsplit hprogress, ?_,
    fun i hi => writable_of_progress hsplit hprogress hi,
    not_writable_of_progress hsplit hprogress⟩
  · have hlength := congrArg List.length hsplit
    rw [length_numberedShards, List.length_append] at hlength
    omega
  · rw [length_eq_iff hsplit, ← hprogress.result_eq, hresult]
    cases ended with
    | error fault =>
        simp [Except.map]
    | ok _ =>
        simp [Except.map]

theorem exists_reached (hshards : wallet.shards = .ok shards)
    (hsettled : Settled force fs (Path.ofString output) shards.length)
    (hrun : writeShards ownerOnly force output wallet fs = (result, after)) :
    exists count, Reached (Path.ofString output) shards count fs after result := by
  rcases writeShards_cases hrun with
    ⟨hfault, hsame, hsome⟩ | ⟨shards', ended, hshards', hopen, hended, hresult⟩
  · rw [hsame]
    refine ⟨0, reached_of_refused hfault ?_⟩
    intro hnone
    rw [hshards, hnone] at hsome
    exact hsome rfl
  rw [hshards] at hshards'
  cases hshards'
  rcases writable_or_refused hshards hended with hdata | ⟨⟨fault, hfault⟩, hsame, hsome⟩
  · exact reached_of_writeEach hsettled hopen hdata hended hresult
  · rw [hfault] at hresult
    rw [hsame]
    exact ⟨0, reached_of_refused ⟨fault, hresult⟩ hsome⟩

end Runs

/-- A run leaves some first shards in their places and the rest as it was, and between the first
and the last it stops only where a temporary file cannot be stored. So in a tree nothing is left
half done if the temporary files can be stored all or none. -/
theorem writeShards_reaches {ownerOnly force : Bool} {output : String} {wallet : Wallet}
    {shards : List Wallet} (hshards : wallet.shards = .ok shards) {fs after : FileSystem}
    {result : Except Fault (List Path)}
    (hrun : writeShards ownerOnly force output wallet fs = (result, after)) :
    let path := Path.ofString output
    let made := (fs.makeDirectories path.parent).2
    (Settled force fs path shards.length ->
      exists count, Reached path shards count fs after result) ∧
    (fs.Tree -> ".." ∉ path.parent.names ->
      (force = true -> forall i, i < shards.length -> fs.isDirectory (path.shardPath i) = false) ->
      (made.Writable (path.shardPath 0).temp ->
        forall i, i < shards.length -> made.Writable (path.shardPath i).temp) ->
      ((exists paths, result = .ok paths) ∧ Begun path shards shards.length fs after) ∨
        ((exists fault, result = .error fault) ∧ Begun path shards 0 fs after)) := by
  intro path made
  refine ⟨fun hsettled => exists_reached hshards hsettled hrun, ?_⟩
  intro htree hup hfree hall
  rcases exists_reached hshards (settled_of_tree htree hup hfree) hrun with ⟨count, hreached⟩
  by_cases hcount : count = shards.length
  · rw [hcount] at hreached
    exact Or.inl ⟨hreached.returned.mpr rfl, hreached.begun⟩
  · have hlt : count < shards.length := Nat.lt_of_le_of_ne hreached.count_le hcount
    have hzero : count = 0 := by
      by_contra hne
      have hpos := Nat.pos_of_ne_zero hne
      exact hreached.blocked hpos hlt (hall (hreached.writable 0 hpos) count hlt)
    rw [hzero] at hreached
    refine Or.inr ⟨?_, hreached.begun⟩
    rcases result with fault | paths
    · exact ⟨fault, rfl⟩
    · exact absurd (hreached.returned.mp ⟨paths, rfl⟩) (by omega)

theorem writeShards_reaches_two :
    exists shards paths after,
      Wallet.blankPair.shards = .ok shards ∧
        writeShards true false "w" Wallet.blankPair (.ofEntries []) = (.ok paths, after) ∧
        Begun ⟨"", ["w"]⟩ shards 2 (.ofEntries []) after := by
  rcases writeShards_blankPair with ⟨shards, data, data', hshards, hrun⟩
  have hsettled : Settled false (.ofEntries []) (Path.ofString "w") shards.length :=
    settled_of_tree (tree_empty rfl) (by decide) (fun hforce => Bool.noConfusion hforce)
  rcases (writeShards_reaches hshards hrun).1 hsettled with ⟨count, hreached⟩
  have hcount := hreached.returned.mp ⟨_, rfl⟩
  cases hshards
  rw [hcount] at hreached
  exact ⟨_, _, _, rfl, hrun, hreached.begun⟩

/-- A directory under the temporary name of the second shard leaves the first shard alone. -/
theorem writeShards_stops_halfway :
    exists fault after,
      writeShards true false "w" Wallet.blankPair (.ofEntries [(["w.2.temp"], .directory)]) =
          (.error fault, after) ∧
        FileSystem.standing (.ofEntries [(["w.2.temp"], .directory)]) ⟨"", ["w.1"]⟩ = none ∧
        (exists data, after.readFile ⟨"", ["w.1"]⟩ = .ok data) ∧
        after.standing ⟨"", ["w.2"]⟩ = none := by
  rcases exists_write_blankPair with ⟨first, second, data, data', hshards, hdata, hdata'⟩
  have hfirst : writeBytes true false ⟨"", ["w.1"]⟩ data (.ofEntries [(["w.2.temp"], .directory)]) =
      (.ok (), .ofEntries [(["w.1"], .file true data), (["w.2.temp"], .directory)]) :=
    writeBytes_of_isDirectory rfl rfl rfl rfl rfl rfl
  have hplace : place true ⟨"", ["w.2"]⟩ ⟨"", ["w.2.temp"]⟩ data'
      (.ofEntries [(["w.1"], .file true data), (["w.2.temp"], .directory)]) =
        (.error (.fault (refused .isDirectory ⟨"", ["w.2.temp"]⟩)),
          .ofEntries [(["w.1"], .file true data), (["w.2.temp"], .directory)]) := by
    unfold place
    rw [makeDirectories_of_isDirectory rfl]
    rfl
  have hsecond : writeBytes true false ⟨"", ["w.2"]⟩ data'
      (.ofEntries [(["w.1"], .file true data), (["w.2.temp"], .directory)]) =
        (.error (.misuse (.system (refused .isDirectory ⟨"", ["w.2.temp"]⟩))),
          .ofEntries [(["w.1"], .file true data), (["w.2.temp"], .directory)]) := by
    have htemp : Path.extend ⟨"", ["w.2"]⟩ ".temp" = .ok ⟨"", ["w.2.temp"]⟩ := rfl
    unfold writeBytes
    simp only [htemp, hplace]
    rfl
  have hpaths : Path.shardPaths "w" 2 = .ok [⟨"", ["w.1"]⟩, ⟨"", ["w.2"]⟩] := rfl
  have hwritten : writeEach true false
      [(⟨"", ["w.1"]⟩, first), (⟨"", ["w.2"]⟩, second)] (.ofEntries [(["w.2.temp"], .directory)]) =
        (.error (.misuse (.system (refused .isDirectory ⟨"", ["w.2.temp"]⟩))),
          .ofEntries [(["w.1"], .file true data), (["w.2.temp"], .directory)]) := by
    rw [writeEach_cons_apply hdata, hfirst]
    dsimp only
    rw [writeEach_cons_apply hdata', hsecond]
  exact ⟨_, _, writeShards_of_writeEach hshards hpaths (fun _ => rfl) hwritten, rfl, ⟨data, rfl⟩,
    rfl⟩

end Store
end WalletVault
