import TypedAttr.Proofs.Reference.Parts
/-!
# Tokens that are noted

To resolve a token, all zeros apart, is to ask for its file first, and this
is asked for nothing else. Look-ups that take down each token with that
question note what is resolved, in order, and otherwise answer as before
(`run_resolve_noting`). So the tokens that a resolver asks its backend about
can be read off its run with them.
-/

namespace TypedAttr

variable {σ : Type}

theorem isPart_fst {τ : Type} :
    IsPart (Prod.fst : σ × τ → σ) (fun s pair => (s, pair.2)) where
  get_put _ _ := rfl
  put_put _ _ _ := rfl
  put_get _ := rfl

namespace ReferenceLookups

/-- Look-ups that take a token down when its file is asked for. -/
def noting (lookups : ReferenceLookups σ) : ReferenceLookups (σ × List Token) :=
  let whole := lookups.onPart Prod.fst fun s pair => (s, pair.2)
  { whole with fileName := fun token (s, noted) => whole.fileName token (s, noted ++ [token]) }

variable (lookups : ReferenceLookups σ) (flavor : ReferenceFlavor) (token : Token) (s : σ)
variable (noted : List Token)

/-- **A token is noted once when it is resolved**, unless it is all zeros, and
has the same record. -/
theorem run_resolve_noting :
    (lookups.noting.resolve flavor token).run (s, noted) =
      let found := (lookups.resolve flavor token).run s
      (found.1, found.2, noted ++ [token].filter (!·.isNull)) := by
  cases hnull : token.isNull with
  | true =>
    have hnoted : [token].filter (!·.isNull) = [] := by simp [hnull]
    rw [resolve, resolve, if_pos hnull, if_pos hnull, hnoted, List.append_nil]
    rfl
  | false =>
    have hnoted : [token].filter (!·.isNull) = [token] := by simp [hnull]
    have hfirst : (lookups.noting.resolve flavor token).run (s, noted) =
        ((lookups.onPart Prod.fst fun s pair => (s, pair.2)).resolve flavor token).run
          (s, noted ++ [token]) := by
      have hne : ¬token.isNull = true := by simp [hnull]
      rw [resolve, resolve, if_neg hne, if_neg hne]
      rfl
    rw [hfirst, through_resolve isPart_fst lookups flavor token, hnoted]

end ReferenceLookups

namespace Resolver

/-- A resolver whose look-ups take tokens down. -/
def noting (resolver : Resolver σ) : Resolver (σ × List Token) :=
  ⟨resolver.lookups.noting, resolver.flavor⟩

/-- What is resolved one after the other is noted in this order. -/
theorem afterAll_noting (resolver : Resolver σ) (tokens : List Token) (s : σ)
    (noted : List Token) :
    resolver.noting.afterAll tokens (s, noted) =
      (resolver.afterAll tokens s, noted ++ tokens.filter (!·.isNull)) := by
  induction tokens generalizing s noted with
  | nil => rw [List.filter_nil, List.append_nil, afterAll, afterAll, List.foldl_nil, List.foldl_nil]
  | cons token rest ih =>
    have hstep := resolver.lookups.run_resolve_noting resolver.flavor token s noted
    have hfilter : (token :: rest).filter (!·.isNull) =
        [token].filter (!·.isNull) ++ rest.filter (!·.isNull) := by
      rw [← List.filter_append]
      rfl
    rw [hfilter, ← List.append_assoc]
    exact (congrArg (resolver.noting.afterAll rest ·.2) hstep).trans (ih _ _)

/-- A token of zeros makes no difference to the backend. -/
theorem afterAll_filter (resolver : Resolver σ) (tokens : List Token) (s : σ) :
    resolver.afterAll (tokens.filter (!·.isNull)) s = resolver.afterAll tokens s := by
  induction tokens generalizing s with
  | nil => rfl
  | cons token rest ih =>
    cases hnull : token.isNull with
    | true =>
      have hsame : ((resolver.lookups.resolve resolver.flavor token).run s).2 = s := by
        rw [ReferenceLookups.resolve, if_pos hnull]
        rfl
      rw [List.filter_cons_of_neg (by simp [hnull]), ih, afterAll, afterAll, List.foldl_cons, hsame]
    | false =>
      rw [List.filter_cons_of_pos (by simp [hnull])]
      exact ih _

/-- With them, a backend gives every token the same record. -/
theorem Settled.noting {resolver : Resolver σ} {p : σ → Prop} {expected : Token → Record}
    (h : resolver.Settled p expected) : resolver.noting.Settled (p ∘ Prod.fst) expected where
  resolve token := by
    rintro ⟨s, noted⟩ hs
    obtain ⟨hvalue, hafter⟩ := h.resolve token s hs
    have hrun := resolver.lookups.run_resolve_noting resolver.flavor token s noted
    refine ⟨(congrArg Prod.fst hrun).trans hvalue, ?_⟩
    exact (congrArg (fun outcome => p outcome.2.1) hrun).mpr hafter
  token := h.token

end Resolver

end TypedAttr
