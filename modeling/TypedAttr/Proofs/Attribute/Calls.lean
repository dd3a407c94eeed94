import TypedAttr.Attribute.Basic
import TypedAttr.Proofs.Backend.Keeps
/-!
# Calls of attributes

What each call of an attribute does to the attribute and to its backend, as
one equation per call. A call reads the backend at most once, keeps what it
read, and forgets it when it wrote.
-/

namespace TypedAttr

namespace Attribute

variable {σ α : Type} {source : AttributeSource σ} {attr : Attribute} {s : σ}

/-- A call that asks the backend leaves the attribute as it is. -/
theorem onBackend_eq (action : Action σ α) :
    onBackend action (attr, s) =
      match action s with
      | .ok a t => .ok a (attr, t)
      | .error e t => .error e (attr, t) :=
  rfl

/-- **A read** gives the data that are kept, or those of the backend. -/
theorem read_eq :
    read source (attr, s) =
      match attr.data with
      | some data => .ok data (attr, s)
      | none =>
        match source.read attr.options s with
        | .ok data t => .ok data ({ attr with data := some data }, t)
        | .error e t => .error e (attr, t) := by
  unfold read
  rw [bind_of_ok (show self (attr, s) = .ok attr (attr, s) from rfl)]
  cases attr.data with
  | some data => rfl
  | none =>
    dsimp only
    rw [bind_of_ok (show self (attr, s) = .ok attr (attr, s) from rfl)]
    change EStateM.bind (onBackend _) _ (attr, s) = _
    rw [EStateM.bind, onBackend_eq]
    cases source.read attr.options s <;> rfl

/-- **A write** forgets what was read if it succeeds, and nothing if it
fails. -/
theorem write_eq {data : Data} :
    write source data (attr, s) =
      match source.write attr.options data s with
      | .ok _ t => .ok () (attr.clear, t)
      | .error e t => .error e (attr, t) := by
  unfold write
  rw [bind_of_ok (show self (attr, s) = .ok attr (attr, s) from rfl)]
  change EStateM.bind (onBackend _) _ (attr, s) = _
  rw [EStateM.bind, onBackend_eq]
  cases source.write attr.options data s <;> rfl

/-- A write that succeeds is one of the backend, and leaves an attribute that
was not read. -/
theorem write_eq_ok {data : Data} {attr' : Attribute} {t : σ}
    (h : write source data (attr, s) = .ok () (attr', t)) :
    source.write attr.options data s = .ok () t ∧ attr' = attr.clear := by
  rw [write_eq] at h
  cases hwrite : source.write attr.options data s with
  | ok u t =>
    rw [hwrite] at h
    cases h
    exact ⟨rfl, rfl⟩
  | error e t =>
    rw [hwrite] at h
    cases h

end Attribute

end TypedAttr
