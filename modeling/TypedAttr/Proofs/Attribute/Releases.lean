import TypedAttr.Proofs.Backend.Requests
/-!
# What a transaction gives back

A transaction asks for the attribute's handle and then for its type's, and
ends as soon as one of them is refused. With both it reads or writes, and then
gives back the type's handle and the attribute's, in this order. A backend may
answer as it likes: no answer makes a transaction take another course
(`course_of_perform`).
-/

namespace TypedAttr

variable {σ α γ : Type}

/-! ## Handles that can be had -/

/-- A handle is granted. -/
def Grants (take : Action σ HandleId) (s : σ) (id : HandleId) (t : σ) : Prop :=
  take s = .ok id t ∧ id.isValid = true

/-- A handle is refused, by an error or by a number that is of none. -/
def Refuses (take : Action σ HandleId) (s : σ) : Prop :=
  (∃ e t, take s = .error e t) ∨ ∃ id t, take s = .ok id t ∧ id.isValid = false

theorem Error.exists_asHandleOpen (kind : HandleKind) (e : Error) :
    ∃ name reason, e.asHandleOpen kind = .handleOpen name reason := by
  cases e with
  | handleOpen name reason => exact ⟨name, reason, rfl⟩
  | _ => exact ⟨_, _, rfl⟩

/-- A handle is granted and taken, or refused, and then that is the error. -/
theorem acquire_cases (kind : HandleKind) (take : Action σ HandleId) (s : σ) :
    (∃ id t, Grants take s id t ∧ acquire kind take s = .ok id t) ∨
      Refuses take s ∧ ∃ name reason t,
        acquire kind take s = .error (.handleOpen name reason) t := by
  cases htake : take s with
  | error e t =>
    obtain ⟨name, reason, herror⟩ := Error.exists_asHandleOpen kind e
    exact .inr ⟨.inl ⟨e, t, htake⟩, name, reason, t, herror ▸ acquire_of_error htake⟩
  | ok id t =>
    cases hvalid : id.isValid with
    | true => exact .inl ⟨id, t, ⟨htake, hvalid⟩, acquire_of_ok htake hvalid⟩
    | false =>
      have herror : acquire kind take s = .error (.invalidHandle kind id) t := by
        simp only [acquire, htake, hvalid, Bool.false_eq_true, if_false]
      exact .inr ⟨.inr ⟨id, t, htake, hvalid⟩, _, _, t, herror⟩

/-- What is made of a value that was had with a handle. -/
theorem withHandle_map {release : HandleKind → HandleId → Action σ Unit} {kind : HandleKind}
    {take : Action σ HandleId} {body : HandleId → Action σ α} (f : α → γ) :
    (do return f (← withHandle release kind take body)) =
      withHandle release kind take fun id => do return f (← body id) := by
  funext s
  cases hacquire : acquire kind take s with
  | error e t =>
    have hrun : withHandle release kind take body s = .error e t := by
      simp only [withHandle, hacquire]
    rw [bind_of_error hrun]
    simp only [withHandle, hacquire]
  | ok id t =>
    cases hbody : body id t with
    | ok a u =>
      have hrun : withHandle release kind take body s =
          .ok a (stateAfter (release kind id) u) := by
        simp only [withHandle, hacquire, hbody]
      have hnext : (do return f (← body id)) t = .ok (f a) u := bind_of_ok hbody _
      rw [bind_of_ok hrun]
      simp only [withHandle, hacquire, hnext]
      rfl
    | error e u =>
      have hrun : withHandle release kind take body s =
          .error e (stateAfter (release kind id) u) := by
        simp only [withHandle, hacquire, hbody]
      have hnext : (do return f (← body id)) t = .error e u := bind_of_error hbody _
      rw [bind_of_error hrun]
      simp only [withHandle, hacquire, hnext]

namespace AttributeSource

variable {source : AttributeSource σ} {options : ElementOptions} {io : Option Data}

/-! ## A transaction with its handles -/

/-- What is done with both handles in hand. -/
def during (source : AttributeSource σ) (options : ElementOptions) :
    Option Data → HandleId → HandleId → Action σ (Option Data)
  | none, attr, memory => do return some (← source.readWith options attr memory)
  | some data, attr, memory => do
    source.writeWith options data attr memory
    return none

theorem withHandles_map {body : HandleId → HandleId → Action σ α} (f : α → γ) :
    (do return f (← source.withHandles body)) =
      source.withHandles fun attr memory => do return f (← body attr memory) := by
  rw [withHandles, withHandles, withHandle_map]
  congr 1
  funext attr
  exact withHandle_map f

/-- What is to be done is rejected or not. -/
theorem passed_or_rejected (source : AttributeSource σ) (io : Option Data) :
    (∀ data ∈ io, source.preflight data = .ok ()) ∨
      ∃ data e, io = some data ∧ source.preflight data = .error e := by
  cases io with
  | none => exact .inl fun _ h => by cases h
  | some data =>
    cases hpreflight : source.preflight data with
    | error e => exact .inr ⟨data, e, rfl, hpreflight⟩
    | ok _ =>
      refine .inl fun other hother => ?_
      cases hother
      exact hpreflight

/-- What is rejected is not begun. -/
theorem perform_of_rejected {data : Data} {e : Error} (h : source.preflight data = .error e)
    (s : σ) : source.perform options (some data) s = .error e s := by
  refine bind_of_error (bind_of_error ?_ _) _
  rw [h]
  rfl

/-- What is not rejected is done with both handles. -/
theorem perform_of_passed (h : ∀ data ∈ io, source.preflight data = .ok ()) :
    source.perform options io = source.withHandles (source.during options io) := by
  cases io with
  | none => exact withHandles_map some
  | some data =>
    have hwrite : source.write options data =
        source.withHandles (source.writeWith options data) := by
      rw [write, h data rfl]
      rfl
    rw [perform, hwrite]
    exact withHandles_map fun _ => none

/-! ## What is asked for -/

section Asks

variable {attr memory : HandleId}

theorem asks_readWith (source : AttributeSource σ) (options : ElementOptions)
    (attr memory : HandleId) :
    Asks (Request.IsAccess attr memory) (source.logging.readWith options attr memory)
      (source.readWith options attr memory) := by
  have hread : Request.IsAccess attr memory (.read attr memory) := .inl rfl
  unfold readWith
  rw [show source.logging.type = source.type from rfl]
  -- texts, sequences and raw bytes are asked for alike
  split <;> exact (Asks.logged hread _).bind fun _ => .pure _

theorem asks_payload (source : AttributeSource σ) (options : ElementOptions) (data : Data)
    (attr memory : HandleId) :
    Asks (Request.IsAccess attr memory) (source.logging.payload options data)
      (source.payload options data) := by
  have hcreate : Request.IsAccess attr memory .createReference := .inr (.inr rfl)
  unfold payload
  rw [show source.logging.type = source.type from rfl]
  split
  · exact (Asks.ofExcept _).bind fun _ => (Asks.mapM (fun _ => .logged hcreate _) _).bind
      fun _ => (Asks.ofExcept _).bind fun _ => .pure _
  · exact .ofExcept _

theorem asks_writeWith (source : AttributeSource σ) (options : ElementOptions) (data : Data)
    (attr memory : HandleId) :
    Asks (Request.IsAccess attr memory) (source.logging.writeWith options data attr memory)
      (source.writeWith options data attr memory) := by
  have hwrite : Request.IsAccess attr memory (.write attr memory) := .inr (.inl rfl)
  refine (asks_payload source options data attr memory).bind fun payload => ?_
  cases payload with
  | packed | varTexts => exact .logged hwrite _

/-- **With both handles in hand**, a transaction uses them and asks for no
others. -/
theorem asks_during (source : AttributeSource σ) (options : ElementOptions) (io : Option Data)
    (attr memory : HandleId) :
    Asks (Request.IsAccess attr memory) (source.logging.during options io attr memory)
      (source.during options io attr memory) := by
  cases io with
  | none => exact (asks_readWith source options attr memory).bind fun _ => .pure _
  | some data => exact (asks_writeWith source options data attr memory).bind fun _ => .pure _

end Asks

/-! ## The course of a transaction -/

/-- **The courses of a transaction**: what comes of it, and what it asks for,
by what the source grants from a state on. -/
inductive Course (source : AttributeSource σ) (options : ElementOptions) (s : σ) :
    Option Data → Except Error (Option Data) → List Request → Prop
  /-- What is rejected asks for nothing. -/
  | rejected {data : Data} {e : Error} (hreject : source.preflight data = .error e) :
      Course source options s (some data) (.error e) []
  /-- Without the attribute's handle there is nothing to give back. -/
  | unopened {io : Option Data} {name reason : String}
      (hpass : ∀ data ∈ io, source.preflight data = .ok ())
      (hopen : Refuses source.openAttribute s) :
      Course source options s io (.error (.handleOpen name reason)) [.openAttribute]
  /-- Without its type's handle, only the attribute's is given back. -/
  | untyped {io : Option Data} {attr : HandleId} {t : σ} {name reason : String}
      (hpass : ∀ data ∈ io, source.preflight data = .ok ())
      (hopen : Grants source.openAttribute s attr t)
      (htype : Refuses (source.openNativeType attr) t) :
      Course source options s io (.error (.handleOpen name reason))
        [.openAttribute, .openNativeType attr, .release .attribute attr]
  /-- With both, whatever comes of the rest, both are given back after it. -/
  | transacted {io : Option Data} {attr memory : HandleId} {t u : σ} {between : List Request}
      (hpass : ∀ data ∈ io, source.preflight data = .ok ())
      (hopen : Grants source.openAttribute s attr t)
      (htype : Grants (source.openNativeType attr) t memory u)
      (hbetween : ∀ request ∈ between, request.IsAccess attr memory) :
      Course source options s io (outcome (source.during options io attr memory) u)
        ([.openAttribute, .openNativeType attr] ++ between ++
          [.release .datatype memory, .release .attribute attr])

/-- What was not rejected takes one of the other courses. -/
theorem course_of_passed (s : σ) (hpass : ∀ data ∈ io, source.preflight data = .ok ()) :
    ∃ log, source.logging.withHandles (source.logging.during options io) (s, []) =
        withLog log (source.withHandles (source.during options io) s) ∧
      source.Course options s io
        (outcome (source.withHandles (source.during options io)) s) log := by
  unfold withHandles
  rw [outcome_withHandle]
  rcases acquire_cases .attribute source.openAttribute s with
    ⟨attr, t, hopen, hattr⟩ | ⟨hopen, name, reason, t, hattr⟩
  · rw [hattr]
    dsimp only
    rw [outcome_withHandle]
    rcases acquire_cases .datatype (source.openNativeType attr) t with
      ⟨memory, u, htype, hmemory⟩ | ⟨htype, name, reason, u, hmemory⟩
    · rw [hmemory]
      obtain ⟨between, hbetween, hrun⟩ := asks_during source options io attr memory u
        ([] ++ [.openAttribute] ++ [.openNativeType attr])
      have hlog : [] ++ ([.openAttribute] ++ ([.openNativeType attr] ++ between ++
          [.release .datatype memory]) ++ [.release .attribute attr]) =
          [.openAttribute, .openNativeType attr] ++ between ++
            [.release .datatype memory, .release .attribute attr] := by
        simp only [List.nil_append, List.append_assoc, List.cons_append]
      refine ⟨_, withHandle_logged_of_ok hattr (withHandle_logged_of_ok hmemory hrun), ?_⟩
      rw [hlog]
      exact .transacted hpass hopen htype hbetween
    · rw [hmemory]
      refine ⟨_, withHandle_logged_of_ok hattr (withHandle_logged_of_error hmemory _),
        .untyped hpass hopen htype⟩
  · rw [hattr]
    exact ⟨_, withHandle_logged_of_error hattr _, .unopened hpass hopen⟩

/-- **A transaction gives back what it has taken**, whatever the source
answers. Its log is that of one of the courses, and that the log is kept
changes nothing. What comes of it is the same if handles are given back in any
other way, as one that always fails. -/
theorem course_of_perform (source : AttributeSource σ) (options : ElementOptions)
    (io : Option Data) (s : σ) :
    (∃ log, source.logging.perform options io (s, []) =
        withLog log (source.perform options io s) ∧
      source.Course options s io (outcome (source.perform options io) s) log) ∧
    ∀ release, outcome ({ source with release := release }.perform options io) s =
      outcome (source.perform options io) s := by
  rcases passed_or_rejected source io with hpass | ⟨data, e, rfl, hreject⟩
  · have hlogging : source.logging.perform options io =
        source.logging.withHandles (source.logging.during options io) :=
      perform_of_passed hpass
    rw [hlogging, perform_of_passed hpass]
    refine ⟨course_of_passed s hpass, fun release => ?_⟩
    have hother : { source with release := release }.perform options io =
        { source with release := release }.withHandles (source.during options io) :=
      perform_of_passed hpass
    rw [hother]
    unfold withHandles
    rw [outcome_withHandle, outcome_withHandle]
    dsimp only
    cases acquire .attribute source.openAttribute s with
    | error e t => rfl
    | ok attr t =>
      dsimp only
      rw [outcome_withHandle, outcome_withHandle]
  · have hreject' : source.logging.preflight data = .error e := hreject
    have hlogging : source.logging.perform options (some data) (s, []) = .error e (s, []) :=
      perform_of_rejected hreject' _
    have hplain : source.perform options (some data) s = .error e s :=
      perform_of_rejected hreject s
    refine ⟨⟨[], ?_, ?_⟩, fun release => ?_⟩
    · rw [hlogging, hplain]
      rfl
    · rw [outcome, hplain]
      exact .rejected hreject
    · have hother : { source with release := release }.preflight data = .error e := hreject
      rw [outcome, outcome, hplain, perform_of_rejected hother]

end AttributeSource

end TypedAttr
