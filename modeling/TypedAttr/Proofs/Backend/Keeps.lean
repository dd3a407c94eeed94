import TypedAttr.Reference.Lookups
/-!
# What actions leave as it is

An action `Keeps` a view of the state if the view is the same afterwards,
whether the action succeeds or fails, and `KeepsOnError` if it is the same
after a failure at least. It `Preserves` a property that is never lost by
it. All three are put together along the structure of an action, down to the
questions to the backend. `Leaves` is the same as `Keeps` for computations
that cannot fail, and `Yields` says what value they give. Successful actions
are taken apart by `bind_ok` and `withHandle_ok`.
-/

namespace TypedAttr

variable {σ τ α γ β : Type} {view : σ → β}

/-! ## Success -/

/-- A sequence succeeds in two steps. -/
theorem bind_ok {action : Action σ α} {next : α → Action σ γ} {s s' : σ} {c : γ}
    (h : (action >>= next) s = .ok c s') :
    ∃ a t, action s = .ok a t ∧ next a t = .ok c s' := by
  change EStateM.bind action next s = .ok c s' at h
  rw [EStateM.bind] at h
  cases hfirst : action s with
  | ok a t =>
    rw [hfirst] at h
    exact ⟨a, t, rfl, h⟩
  | error e t =>
    rw [hfirst] at h
    cases h

/-- After a first step that succeeds, the second decides. -/
theorem bind_of_ok {action : Action σ α} {s t : σ} {a : α} (h : action s = .ok a t)
    (next : α → Action σ γ) : (action >>= next) s = next a t := by
  change EStateM.bind action next s = next a t
  rw [EStateM.bind, h]

/-- After one that fails, nothing more is done. -/
theorem bind_of_error {action : Action σ α} {s t : σ} {e : Error} (h : action s = .error e t)
    (next : α → Action σ γ) : (action >>= next) s = .error e t := by
  change EStateM.bind action next s = .error e t
  rw [EStateM.bind, h]

theorem get_bind (next : σ → Action σ α) (s : σ) : (get >>= next) s = next s s := rfl

/-- A sequence without a backend succeeds in two steps, too. -/
theorem exceptBind_ok {result : Except Error α} {next : α → Except Error γ} {c : γ}
    (h : (result >>= next) = .ok c) : ∃ a, result = .ok a ∧ next a = .ok c := by
  cases result with
  | ok a => exact ⟨a, rfl, h⟩
  | error e => cases h

theorem ofExcept_ok {result : Except Error α} {s s' : σ} {a : α}
    (h : (Action.ofExcept result : Action σ α) s = .ok a s') : result = .ok a ∧ s' = s := by
  cases result with
  | ok b =>
    cases h
    exact ⟨rfl, rfl⟩
  | error e => cases h

/-- A handle that is taken was lent. -/
theorem acquire_ok {kind : HandleKind} {take : Action σ HandleId} {s s' : σ} {id : HandleId}
    (h : acquire kind take s = .ok id s') : take s = .ok id s' := by
  rw [acquire] at h
  cases htake : take s with
  | error e t =>
    rw [htake] at h
    cases h
  | ok taken t =>
    rw [htake] at h
    dsimp only at h
    split at h
    · cases h
      rfl
    · cases h

theorem acquire_of_ok {kind : HandleKind} {take : Action σ HandleId} {s t : σ} {id : HandleId}
    (htake : take s = .ok id t) (hvalid : id.isValid = true) :
    acquire kind take s = .ok id t := by
  simp only [acquire, htake, hvalid, if_true]

theorem acquire_of_error {kind : HandleKind} {take : Action σ HandleId} {s t : σ} {e : Error}
    (htake : take s = .error e t) : acquire kind take s = .error (e.asHandleOpen kind) t := by
  simp only [acquire, htake]

/-- What runs with a handle succeeds between taking it and giving it back. -/
theorem withHandle_ok {release : HandleKind → HandleId → Action σ Unit} {kind : HandleKind}
    {take : Action σ HandleId} {body : HandleId → Action σ α} {s s' : σ} {a : α}
    (h : withHandle release kind take body s = .ok a s') :
    ∃ id t t', acquire kind take s = .ok id t ∧ body id t = .ok a t' ∧
      s' = stateAfter (release kind id) t' := by
  rw [withHandle] at h
  cases htake : acquire kind take s with
  | error e t =>
    rw [htake] at h
    cases h
  | ok id t =>
    rw [htake] at h
    dsimp only at h
    cases hbody : body id t with
    | error e t' =>
      rw [hbody] at h
      cases h
    | ok b t' =>
      rw [hbody] at h
      cases h
      exact ⟨id, t, t', rfl, hbody, rfl⟩

/-- What succeeds with a handle succeeds with one that can be had. -/
theorem withHandle_of_ok {release : HandleKind → HandleId → Action σ Unit} {kind : HandleKind}
    {take : Action σ HandleId} {body : HandleId → Action σ α} {s t t' : σ} {id : HandleId} {a : α}
    (htake : take s = .ok id t) (hvalid : id.isValid = true) (hbody : body id t = .ok a t') :
    withHandle release kind take body s = .ok a (stateAfter (release kind id) t') := by
  have hacquire : acquire kind take s = .ok id t := acquire_of_ok htake hvalid
  simp only [withHandle, hacquire, hbody]

/-! ## Actions that keep a view -/

/-- The view is the same afterwards, whatever comes of the action. -/
def Keeps (view : σ → β) (action : Action σ α) : Prop :=
  ∀ s, view (stateAfter action s) = view s

/-- The view is the same afterwards if the action fails. -/
def KeepsOnError (view : σ → β) (action : Action σ α) : Prop :=
  ∀ ⦃s e s'⦄, action s = .error e s' → view s' = view s

namespace Keeps

theorem of_ok {action : Action σ α} (h : Keeps view action) {s s' : σ} {a : α}
    (hok : action s = .ok a s') : view s' = view s := by
  have := h s
  rwa [stateAfter, hok] at this

theorem onError {action : Action σ α} (h : Keeps view action) : KeepsOnError view action := by
  intro s e s' herror
  have := h s
  rwa [stateAfter, herror] at this

/-- It is enough to look at success and failure. -/
theorem intro {action : Action σ α} (hok : ∀ ⦃s a s'⦄, action s = .ok a s' → view s' = view s)
    (herror : KeepsOnError view action) : Keeps view action := by
  intro s
  rw [stateAfter]
  cases h : action s with
  | ok a s' => exact hok h
  | error e s' => exact herror h

theorem pure (a : α) : Keeps view (Pure.pure a : Action σ α) := fun _ => rfl

theorem throw (e : Error) : Keeps view (MonadExcept.throw e : Action σ α) := fun _ => rfl

theorem get : Keeps view (MonadState.get : Action σ σ) := fun _ => rfl

theorem ofExcept (result : Except Error α) : Keeps view (Action.ofExcept result) := by
  cases result with
  | ok a => exact pure a
  | error e => exact throw e

end Keeps

/-- A sequence keeps the view on failure if its first step always does. -/
theorem KeepsOnError.bind {action : Action σ α} {next : α → Action σ γ} (h : Keeps view action)
    (hnext : ∀ a, KeepsOnError view (next a)) : KeepsOnError view (action >>= next) := by
  intro s e s' herror
  change EStateM.bind action next s = .error e s' at herror
  rw [EStateM.bind] at herror
  -- either the first step has failed, or it kept the view and the second has
  cases hfirst : action s with
  | ok a t =>
    rw [hfirst] at herror
    exact (hnext a herror).trans (h.of_ok hfirst)
  | error e' t =>
    rw [hfirst] at herror
    cases herror
    exact h.onError hfirst

namespace Keeps

theorem bind {action : Action σ α} {next : α → Action σ γ} (h : Keeps view action)
    (hnext : ∀ a, Keeps view (next a)) : Keeps view (action >>= next) := by
  refine intro (fun s c s' hok => ?_) (.bind h fun a => (hnext a).onError)
  obtain ⟨a, t, hfirst, hsecond⟩ := bind_ok hok
  exact ((hnext a).of_ok hsecond).trans (h.of_ok hfirst)

theorem mapM {f : α → Action σ γ} (h : ∀ a, Keeps view (f a)) (items : List α) :
    Keeps view (items.mapM f) := by
  induction items with
  | nil => exact pure []
  | cons a rest ih =>
    rw [List.mapM_cons]
    exact (h a).bind fun c => ih.bind fun cs => pure (c :: cs)

theorem acquire {kind : HandleKind} {take : Action σ HandleId} (h : Keeps view take) :
    Keeps view (acquire kind take) := by
  refine intro (fun s id s' hok => h.of_ok (acquire_ok hok)) fun s e s' herror => ?_
  rw [TypedAttr.acquire] at herror
  cases htake : take s with
  | error e' t =>
    rw [htake] at herror
    cases herror
    exact h.onError htake
  | ok id t =>
    -- a number that is of no handle was lent all the same
    rw [htake] at herror
    dsimp only at herror
    split at herror
    · cases herror
    · cases herror
      exact h.of_ok htake

/-- An action on a part keeps what the part is not seen in. -/
theorem onPart {get : τ → σ} {put : σ → τ → τ} {view : τ → β}
    (h : ∀ s t, view (put s t) = view t) (action : Action σ α) :
    Keeps view (action.onPart get put) := by
  intro t
  rw [stateAfter, Action.onPart]
  cases action (get t) with
  | ok a s => exact h s t
  | error e s => exact h s t

end Keeps

section WithHandle

variable {release : HandleKind → HandleId → Action σ Unit} {kind : HandleKind}
variable {take : Action σ HandleId} {body : HandleId → Action σ α}

/-- A failure with a handle, or on the way to it, keeps the view if the body
does on failure. -/
theorem KeepsOnError.withHandle (hrelease : ∀ kind id, Keeps view (release kind id))
    (htake : Keeps view take) (hbody : ∀ id, KeepsOnError view (body id)) :
    KeepsOnError view (withHandle release kind take body) := by
  intro s e s' herror
  rw [TypedAttr.withHandle] at herror
  cases hacquire : acquire kind take s with
  | error e' t =>
    rw [hacquire] at herror
    cases herror
    exact htake.acquire.onError hacquire
  | ok id t =>
    rw [hacquire] at herror
    dsimp only at herror
    cases hrun : body id t with
    | ok a t' =>
      rw [hrun] at herror
      cases herror
    | error e' t' =>
      rw [hrun] at herror
      cases herror
      calc view (stateAfter (release kind id) t') = view t' := hrelease kind id t'
        _ = view t := hbody id hrun
        _ = view s := htake.acquire.of_ok hacquire

theorem Keeps.withHandle (hrelease : ∀ kind id, Keeps view (release kind id))
    (htake : Keeps view take) (hbody : ∀ id, Keeps view (body id)) :
    Keeps view (withHandle release kind take body) := by
  refine .intro (fun s a s' hok => ?_) (.withHandle hrelease htake fun id => (hbody id).onError)
  obtain ⟨id, t, t', hacquire, hrun, rfl⟩ := withHandle_ok hok
  rw [hrelease, (hbody id).of_ok hrun, htake.acquire.of_ok hacquire]

end WithHandle

/-! ## Actions that preserve a property -/

/-- A property of the state is not lost, whatever comes of the action. -/
def Preserves (p : σ → Prop) (action : Action σ α) : Prop :=
  ∀ ⦃s⦄, p s → p (stateAfter action s)

namespace Preserves

variable {p : σ → Prop}

theorem pure (a : α) : Preserves p (Pure.pure a : Action σ α) := fun _ h => h

theorem throw (e : Error) : Preserves p (MonadExcept.throw e : Action σ α) := fun _ h => h

theorem bind {action : Action σ α} {next : α → Action σ γ} (h : Preserves p action)
    (hnext : ∀ a, Preserves p (next a)) : Preserves p (action >>= next) := by
  intro s hs
  have hfirst := h hs
  change p (stateAfter (EStateM.bind action next) s)
  rw [stateAfter, EStateM.bind]
  rw [stateAfter] at hfirst
  cases hrun : action s with
  | ok a t =>
    rw [hrun] at hfirst
    exact hnext a hfirst
  | error e t =>
    rw [hrun] at hfirst
    exact hfirst

end Preserves

/-! ## Computations that cannot fail -/

/-- The view is the same after a computation. -/
def Leaves (view : σ → β) (computation : StateM σ α) : Prop :=
  ∀ s, view (computation.run s).2 = view s

namespace Leaves

theorem pure (a : α) : Leaves view (Pure.pure a : StateM σ α) := fun _ => rfl

theorem bind {computation : StateM σ α} {next : α → StateM σ γ} (h : Leaves view computation)
    (hnext : ∀ a, Leaves view (next a)) : Leaves view (computation >>= next) := by
  intro s
  rw [StateT.run_bind]
  exact (hnext _ _).trans (h s)

theorem attempt {action : Action σ α} (h : Keeps view action) : Leaves view (attempt action) := by
  intro s
  have hafter := h s
  rw [stateAfter] at hafter
  simp only [StateT.run, TypedAttr.attempt]
  cases hrun : action s with
  | ok a s' =>
    rw [hrun] at hafter
    exact hafter
  | error e s' =>
    rw [hrun] at hafter
    exact hafter

/-- An action of which only the state is kept. -/
theorem stateAfter {action : Action σ α} (h : Keeps view action) :
    Leaves view (modify (TypedAttr.stateAfter action)) := h

end Leaves

/-! ## Computations that yield a value -/

/-- From any state with one property a computation yields a value, and leaves
the other property. -/
def Yields (p q : σ → Prop) (computation : StateM σ α) (a : α) : Prop :=
  ∀ s, p s → (computation.run s).1 = a ∧ q (computation.run s).2

namespace Yields

variable {p q r : σ → Prop}

theorem pure (a : α) : Yields p p (Pure.pure a : StateM σ α) a := fun _ hs => ⟨rfl, hs⟩

theorem bind {computation : StateM σ α} {next : α → StateM σ γ} {a : α} {c : γ}
    (h : Yields p q computation a) (hnext : Yields q r (next a) c) :
    Yields p r (computation >>= next) c := by
  intro s hs
  obtain ⟨rfl, hq⟩ := h s hs
  exact hnext _ hq

theorem weaken {computation : StateM σ α} {a : α} (h : Yields p q computation a)
    (hq : ∀ s, q s → r s) : Yields p r computation a := by
  intro s hs
  obtain ⟨ha, hs'⟩ := h s hs
  exact ⟨ha, hq _ hs'⟩

end Yields

end TypedAttr
