import WalletVault.Fault

/-!
# Computations with faults and a state

Every action of the vault is a function from a state to a result and a state.
These equations run an action step by step; a result of a sequence is a result
of its first part followed by one of the rest.
-/

namespace WalletVault
namespace Computation

variable {ε σ α β : Type}

theorem except_bind_eq_ok {result : Except Fault α} {next : α -> Except Fault β} {b : β} :
    (result >>= next) = .ok b <-> exists a, result = .ok a ∧ next a = .ok b := by
  cases result with
  | ok a =>
      constructor
      · intro h
        exact ⟨a, rfl, h⟩
      · intro h
        rcases h with ⟨_, hsame, h⟩
        cases hsame
        exact h
  | error fault =>
      constructor
      · intro h
        cases h
      · intro h
        rcases h with ⟨_, hsame, _⟩
        cases hsame

theorem except_map_eq_ok {result : Except Fault α} {f : α -> β} {b : β} :
    result.map f = .ok b <-> exists a, result = .ok a ∧ f a = b := by
  cases result with
  | ok a =>
      simp [Except.map]
  | error fault =>
      simp [Except.map]

theorem mapM_eq_ok_map {f : α -> Except ε β} {g : α -> β} {items : List α}
    (h : forall a, a ∈ items -> f a = .ok (g a)) : items.mapM f = .ok (items.map g) := by
  induction items with
  | nil =>
      rfl
  | cons a rest ih =>
      have hrest := ih (fun b hb => h b (List.mem_cons_of_mem a hb))
      rw [List.mapM_cons, h a List.mem_cons_self, hrest]
      rfl

theorem mapM_eq_some_map {f : α -> Option β} {g : α -> β} {items : List α}
    (h : forall a, a ∈ items -> f a = some (g a)) :
    items.mapM f = some (items.map g) := by
  induction items with
  | nil =>
      rfl
  | cons a rest ih =>
      have hrest := ih (fun b hb => h b (List.mem_cons_of_mem a hb))
      simp [List.mapM_cons, h a List.mem_cons_self, hrest]

theorem mapM_eq_none_iff {f : α -> Option β} {items : List α} :
    items.mapM f = none <-> exists a, a ∈ items ∧ f a = none := by
  induction items with
  | nil =>
      simp
  | cons a rest ih =>
      rw [List.mapM_cons]
      cases ha : f a with
      | none =>
          simp [ha]
      | some b =>
          cases hrest : rest.mapM f <;> simp [ha, hrest, ← ih]

theorem bind_apply (action : ExceptT ε (StateM σ) α)
    (next : α -> ExceptT ε (StateM σ) β) (s : σ) :
    (action >>= next) s =
      match action s with
      | (.ok a, s') => next a s'
      | (.error fault, s') => (.error fault, s') := by
  change (ExceptT.bindCont next (action s).1) (action s).2 = _
  rcases action s with ⟨result, s'⟩
  cases result <;> rfl

@[simp] theorem pure_apply (a : α) (s : σ) :
    (pure a : ExceptT ε (StateM σ) α) s = (.ok a, s) := rfl

@[simp] theorem mk_apply (result : Except ε α) (s : σ) :
    (ExceptT.mk (pure result) : ExceptT ε (StateM σ) α) s = (result, s) := rfl

@[simp] theorem get_apply (s : σ) :
    (get : ExceptT ε (StateM σ) σ) s = (.ok s, s) := rfl

@[simp] theorem modify_apply (f : σ -> σ) (s : σ) :
    (modify f : ExceptT ε (StateM σ) PUnit) s = (.ok ⟨⟩, f s) := rfl

theorem catch_apply (action : ExceptT ε (StateM σ) α) (handle : ε -> ExceptT ε (StateM σ) α)
    (s : σ) :
    tryCatch action handle s =
      match action s with
      | (.ok a, s') => (.ok a, s')
      | (.error fault, s') => handle fault s' := by
  change (match (action s).1 with
    | .ok a => (pure (.ok a) : StateM σ (Except ε α))
    | .error fault => handle fault) (action s).2 = _
  rcases action s with ⟨result, s'⟩
  cases result <;> rfl

theorem finally_apply (action : ExceptT ε (StateM σ) α) (finish : ExceptT ε (StateM σ) β)
    (s : σ) :
    tryFinally action finish s =
      match finish (action s).2 with
      | (.ok _, t) => ((action s).1, t)
      | (.error fault, t) => (.error fault, t) := by
  rcases haction : action s with ⟨result, s'⟩
  rcases hfinish : finish s' with ⟨final, t⟩
  cases result <;> cases final <;>
    simp only [tryFinally, tryFinally', ExceptT.mk, bind, StateT.bind, haction, hfinish,
      Functor.map, ExceptT.map] <;>
    rfl

theorem bind_of_ok {action : ExceptT ε (StateM σ) α}
    {next : α -> ExceptT ε (StateM σ) β} {s s' : σ} {a : α}
    (h : action s = (.ok a, s')) : (action >>= next) s = next a s' := by
  rw [bind_apply, h]

theorem bind_pure_of_eq {action : ExceptT ε (StateM σ) α} {s s' : σ} {result : Except ε α}
    (f : α -> β) (h : action s = (result, s')) :
    (do let a ← action; pure (f a) : ExceptT ε (StateM σ) β) s = (result.map f, s') := by
  rw [bind_apply, h]
  cases result with
  | ok a =>
      rfl
  | error fault =>
      rfl

theorem bind_eq_ok {action : ExceptT ε (StateM σ) α}
    {next : α -> ExceptT ε (StateM σ) β} {s t : σ} {b : β} :
    (action >>= next) s = (.ok b, t) <->
      exists a s', action s = (.ok a, s') ∧ next a s' = (.ok b, t) := by
  rw [bind_apply]
  rcases haction : action s with ⟨result, s'⟩
  cases result with
  | ok a =>
      constructor
      · intro h
        exact ⟨a, s', rfl, h⟩
      · intro h
        rcases h with ⟨_, _, hsame, h⟩
        cases hsame
        exact h
  | error fault =>
      constructor
      · intro h
        cases h
      · intro h
        rcases h with ⟨_, _, hsame, _⟩
        cases hsame

theorem view_bind {τ : Type} (view : σ -> τ) {action : ExceptT ε (StateM σ) α}
    {next : α -> ExceptT ε (StateM σ) β} {s : σ}
    (hnext : forall a s', view (next a s').2 = view s') :
    view ((action >>= next) s).2 = view (action s).2 := by
  rw [bind_apply]
  rcases action s with ⟨result, s'⟩
  cases result with
  | ok a =>
      exact hnext a s'
  | error fault =>
      rfl

/-- Whatever comes of the action, it goes along a relation between states. -/
def Along (relation : σ -> σ -> Prop) (action : ExceptT ε (StateM σ) α) : Prop :=
  forall s, relation s (action s).2

theorem Along.bind {relation : σ -> σ -> Prop} {action : ExceptT ε (StateM σ) α}
    {next : α -> ExceptT ε (StateM σ) β} (haction : Along relation action)
    (htrans : forall s t u, relation s t -> relation t u -> relation s u)
    (hnext : forall a, Along relation (next a)) : Along relation (action >>= next) := by
  intro s
  have hfirst := haction s
  rw [bind_apply]
  rcases hrun : action s with ⟨fault | a, t⟩
  · rwa [hrun] at hfirst
  · rw [hrun] at hfirst
    exact htrans _ _ _ hfirst (hnext a t)

/-!
# Sorts of faults

What a computation can fail with is told by a predicate on faults. A sequence fails only as its
parts do, and a later part has to be looked at only with a result that an earlier one can give.
-/

def FailsWith (sort : Fault -> Prop) (result : Except Fault α) : Prop :=
  forall fault, result = .error fault -> sort fault

section Sorts

variable {sort other : Fault -> Prop}

theorem failsWith_ok (a : α) : FailsWith sort (.ok a) := by
  intro fault h
  cases h

theorem failsWith_error {fault : Fault} (h : sort fault) :
    FailsWith sort (.error fault : Except Fault α) := by
  intro _ hsame
  cases hsame
  exact h

theorem FailsWith.mono {result : Except Fault α} (h : FailsWith sort result)
    (hsort : forall fault, sort fault -> other fault) : FailsWith other result :=
  fun fault hfault => hsort fault (h fault hfault)

theorem failsWith_bind {result : Except Fault α} {next : α -> Except Fault β}
    (hresult : FailsWith sort result)
    (hnext : forall a, result = .ok a -> FailsWith sort (next a)) :
    FailsWith sort (result >>= next) := by
  cases result with
  | ok a =>
      exact hnext a rfl
  | error fault =>
      exact failsWith_error (hresult fault rfl)

theorem failsWith_map {result : Except Fault α} (f : α -> β) (h : FailsWith sort result) :
    FailsWith sort (result.map f) := by
  cases result with
  | ok a =>
      exact failsWith_ok (f a)
  | error fault =>
      exact failsWith_error (h fault rfl)

theorem failsWith_bind_apply {action : ExceptT Fault (StateM σ) α}
    {next : α -> ExceptT Fault (StateM σ) β} {s : σ}
    (haction : FailsWith sort (action s).1)
    (hnext : forall a s', action s = (.ok a, s') -> FailsWith sort (next a s').1) :
    FailsWith sort ((action >>= next) s).1 := by
  rw [bind_apply]
  rcases hrun : action s with ⟨result, s'⟩
  cases result with
  | ok a =>
      exact hnext a s' hrun
  | error fault =>
      exact failsWith_error (haction fault (congrArg Prod.fst hrun))

end Sorts

end Computation
end WalletVault
