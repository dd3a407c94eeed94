import TypedAttr.Attribute.Transaction
import TypedAttr.Proofs.Backend.Keeps
/-!
# The requests of a transaction

A source is asked for handles, for what is stored, for tokens, and to take
handles back. A source that logs its requests (`AttributeSource.logging`)
answers as the one it is made from, so the log tells what a transaction asks
for, and in which order. An action `Asks` for requests of some kind only if
that is all that it adds to the log; this is put together along its structure.
-/

namespace TypedAttr

/-- What a source is asked for. -/
inductive Request where
  | openAttribute
  | openNativeType (attr : HandleId)
  | read (attr memory : HandleId)
  | write (attr memory : HandleId)
  | createReference
  | release (kind : HandleKind) (id : HandleId)
  deriving DecidableEq

namespace Request

/-- What is asked for with both handles in hand: to read or write with them, or
to make a token. -/
def IsAccess (attr memory : HandleId) (request : Request) : Prop :=
  request = .read attr memory ∨ request = .write attr memory ∨ request = .createReference

end Request

variable {σ α γ : Type}

/-- A result, with a log beside the state. -/
def withLog (log : List Request) :
    EStateM.Result Error σ α → EStateM.Result Error (σ × List Request) α
  | .ok a s => .ok a (s, log)
  | .error e s => .error e (s, log)

/-- An action that is logged as a request, whatever comes of it. -/
def logged (request : Request) (action : Action σ α) : Action (σ × List Request) α :=
  fun (s, log) => withLog (log ++ [request]) (action s)

/-- A source that logs its requests. -/
def AttributeSource.logging (source : AttributeSource σ) :
    AttributeSource (σ × List Request) where
  name := source.name
  type := source.type
  space := source.space
  readOnly := source.readOnly
  release kind id := logged (.release kind id) (source.release kind id)
  openAttribute := logged .openAttribute source.openAttribute
  openNativeType attr := logged (.openNativeType attr) (source.openNativeType attr)
  readRaw attr memory length := logged (.read attr memory) (source.readRaw attr memory length)
  readVarTexts attr memory count :=
    logged (.read attr memory) (source.readVarTexts attr memory count)
  readSequences attr memory count :=
    logged (.read attr memory) (source.readSequences attr memory count)
  writeRaw attr memory bytes := logged (.write attr memory) (source.writeRaw attr memory bytes)
  writeVarTexts attr memory items :=
    logged (.write attr memory) (source.writeVarTexts attr memory items)
  createReference path flavor := logged .createReference (source.createReference path flavor)

/-! ## Actions by what they ask for -/

/-- **An action asks for requests of a kind**, and otherwise does what another
does. -/
def Asks (kind : Request → Prop) (logging : Action (σ × List Request) α) (plain : Action σ α) :
    Prop :=
  ∀ s log, ∃ more, (∀ request ∈ more, kind request) ∧
    logging (s, log) = withLog (log ++ more) (plain s)

namespace Asks

variable {kind : Request → Prop}

theorem pure (a : α) : Asks kind (Pure.pure a) (Pure.pure a : Action σ α) := fun s log =>
  ⟨[], fun _ h => (List.not_mem_nil h).elim, by rw [List.append_nil]; rfl⟩

theorem throw (e : Error) : Asks kind (MonadExcept.throw e) (MonadExcept.throw e : Action σ α) :=
  fun s log => ⟨[], fun _ h => (List.not_mem_nil h).elim, by rw [List.append_nil]; rfl⟩

theorem ofExcept (result : Except Error α) :
    Asks kind (Action.ofExcept result) (Action.ofExcept result : Action σ α) := by
  cases result with
  | ok a => exact pure a
  | error e => exact throw e

theorem logged {request : Request} (h : kind request) (action : Action σ α) :
    Asks kind (logged request action) action := fun _ _ =>
  ⟨[request], fun _ hmem => List.mem_singleton.1 hmem ▸ h, rfl⟩

theorem bind {action' : Action (σ × List Request) α} {action : Action σ α}
    {next' : α → Action (σ × List Request) γ} {next : α → Action σ γ}
    (h : Asks kind action' action) (hnext : ∀ a, Asks kind (next' a) (next a)) :
    Asks kind (action' >>= next') (action >>= next) := by
  intro s log
  obtain ⟨more, hmore, hrun⟩ := h s log
  cases haction : action s with
  | ok a t =>
    rw [haction] at hrun
    obtain ⟨more', hmore', hrun'⟩ := hnext a t (log ++ more)
    refine ⟨more ++ more', fun request hmem => ?_, ?_⟩
    · exact (List.mem_append.1 hmem).elim (hmore request) (hmore' request)
    · rw [bind_of_ok hrun, bind_of_ok haction, hrun', List.append_assoc]
  | error e t =>
    rw [haction] at hrun
    refine ⟨more, hmore, ?_⟩
    rw [bind_of_error hrun, bind_of_error haction]
    rfl

theorem mapM {f' : α → Action (σ × List Request) γ} {f : α → Action σ γ}
    (h : ∀ a, Asks kind (f' a) (f a)) (items : List α) :
    Asks kind (items.mapM f') (items.mapM f) := by
  induction items with
  | nil => exact pure []
  | cons a rest ih =>
    rw [List.mapM_cons, List.mapM_cons]
    exact (h a).bind fun c => ih.bind fun cs => pure (c :: cs)

end Asks

/-! ## Handles -/

section Handles

variable {kind : HandleKind} {take : Action σ HandleId} {request : Request} {s : σ}

/-- A handle that is taken is asked for once. -/
theorem acquire_logged (kind : HandleKind) (take : Action σ HandleId) (request : Request) (s : σ)
    (log : List Request) :
    acquire kind (logged request take) (s, log) =
      withLog (log ++ [request]) (acquire kind take s) := by
  rw [acquire, acquire, logged]
  cases take s with
  | error e t => rfl
  | ok id t =>
    dsimp only [withLog]
    split <;> rfl

/-- To give it back is one request. -/
theorem stateAfter_logged (request : Request) (action : Action σ α) (s : σ)
    (log : List Request) :
    stateAfter (logged request action) (s, log) = (stateAfter action s, log ++ [request]) := by
  rw [stateAfter, stateAfter, logged]
  cases action s <;> rfl

variable {release : HandleKind → HandleId → Action σ Unit}
variable {body' : HandleId → Action (σ × List Request) α} {body : HandleId → Action σ α}

/-- Without a handle, nothing more is asked for. -/
theorem withHandle_logged_of_error {t : σ} {e : Error} (h : acquire kind take s = .error e t)
    (log : List Request) :
    withHandle (fun kind id => logged (.release kind id) (release kind id)) kind
        (logged request take) body' (s, log) =
      withLog (log ++ [request]) (withHandle release kind take body s) := by
  rw [withHandle, withHandle, acquire_logged, h]
  rfl

/-- With one, what the body asks for stands before its release. -/
theorem withHandle_logged_of_ok {t : σ} {id : HandleId} {log more : List Request}
    (h : acquire kind take s = .ok id t)
    (hbody : body' id (t, log ++ [request]) = withLog (log ++ [request] ++ more) (body id t)) :
    withHandle (fun kind id => logged (.release kind id) (release kind id)) kind
        (logged request take) body' (s, log) =
      withLog (log ++ ([request] ++ more ++ [.release kind id]))
        (withHandle release kind take body s) := by
  have hlog : log ++ ([request] ++ more ++ [.release kind id]) =
      log ++ [request] ++ more ++ [.release kind id] := by simp only [List.append_assoc]
  rw [withHandle, withHandle, acquire_logged, h]
  dsimp only [withLog]
  rw [hbody, hlog]
  cases body id t with
  | ok a u => exact congrArg _ (stateAfter_logged _ _ u _)
  | error e u => exact congrArg _ (stateAfter_logged _ _ u _)

/-- What comes of an action, whatever it leaves behind. -/
def outcome (action : Action σ α) (s : σ) : Except Error α :=
  match action s with
  | .ok a _ => .ok a
  | .error e _ => .error e

/-- **What comes of a computation with a handle** does not depend on how it is
given back. -/
theorem outcome_withHandle (s : σ) :
    outcome (withHandle release kind take body) s =
      match acquire kind take s with
      | .ok id t => outcome (body id) t
      | .error e _ => .error e := by
  rw [outcome, withHandle]
  cases acquire kind take s with
  | error e t => rfl
  | ok id t =>
    dsimp only [outcome]
    cases body id t <;> rfl

end Handles

end TypedAttr
