import Mathlib.Tactic

/-!
# Machines that answer calls

A machine makes of a state and a call an answer and the next state, if the call ends. One machine
simulates another in a domain of calls, up to a relation between answers, if the two give related answers
to a call of the domain and stay related; then they give related answers to every sequence of calls in the
domain (`Simulates.answers`). Simulations compose (`Simulates.trans`).
-/

namespace RvnSyncPoint.Refinement

variable {σ τ υ γ ρ ρ' ρ'' : Type}

/-- The answers of a machine to a sequence of calls. There are none if one of the calls does not end. -/
def answers (step : σ → γ → Option (ρ × σ)) : List γ → σ → Option (List ρ)
  | [], _ => some []
  | c :: cs, s => (step s c).bind fun x => (answers step cs x.2).map (x.1 :: ·)

/-- Each call of the sequence is in the domain, in the state that the calls before it lead to. -/
def Within (step : τ → γ → Option (ρ × τ)) (ok : τ → γ → Prop) : List γ → τ → Prop
  | [], _ => True
  | c :: cs, t => ok t c ∧ ∀ x, step t c = some x → Within step ok cs x.2

/-- In related states, both machines give answers related by `V` to a call that is in the domain of the
second, and stay related; or the call ends in neither. -/
def Simulates (V : ρ → ρ' → Prop) (step : σ → γ → Option (ρ × σ)) (step' : τ → γ → Option (ρ' × τ))
    (ok : τ → γ → Prop) (Rel : σ → τ → Prop) : Prop :=
  ∀ s t c, Rel s t → ok t c →
    Option.Rel (fun x y => V x.1 y.1 ∧ Rel x.2 y.2) (step s c) (step' t c)

section

variable {V : ρ → ρ' → Prop} {V' : ρ' → ρ'' → Prop} {step : σ → γ → Option (ρ × σ)}
  {step' : τ → γ → Option (ρ' × τ)} {step'' : υ → γ → Option (ρ'' × υ)} {ok : τ → γ → Prop}
  {ok' : υ → γ → Prop} {Rel : σ → τ → Prop} {Rel' : τ → υ → Prop}

/-- A simulation extends to every sequence of calls in the domain. -/
theorem Simulates.answers (h : Simulates V step step' ok Rel) (cs : List γ) :
    ∀ s t, Rel s t → Within step' ok cs t →
      Option.Rel (List.Forall₂ V) (answers step cs s) (answers step' cs t) := by
  induction cs with
  | nil => exact fun _ _ _ _ => .some .nil
  | cons c cs ih =>
    rintro s t hst ⟨hok, hrest⟩
    have hstep := h s t c hst hok
    unfold Refinement.answers
    generalize step s c = x at hstep
    cases ht : step' t c with
    | none =>
      rw [ht] at hstep
      cases hstep
      exact .none
    | some y =>
      rw [ht] at hstep
      cases hstep with
      | @some x _ hxy =>
        have hcs := ih x.2 y.2 hxy.2 (hrest y ht)
        dsimp only [Option.bind_some]
        generalize Refinement.answers step cs x.2 = l, Refinement.answers step' cs y.2 = m at hcs
        cases hcs with
        | none => exact .none
        | some hlm => exact .some (.cons hxy.1 hlm)

/-- Up to equality, the answers are the same. -/
theorem Simulates.answers_eq {step' : τ → γ → Option (ρ × τ)} (h : Simulates Eq step step' ok Rel)
    (cs : List γ) (s : σ) (t : τ) (hst : Rel s t) (hcs : Within step' ok cs t) :
    Refinement.answers step cs s = Refinement.answers step' cs t := by
  have hrel := h.answers cs s t hst hcs
  rw [List.forall₂_eq_eq_eq] at hrel
  generalize Refinement.answers step cs s = l, Refinement.answers step' cs t = m at hrel
  cases hrel with
  | none => rfl
  | some h => rw [h]

/-- Two simulations, one after the other. -/
theorem Simulates.trans (h : Simulates V step step' ok Rel) (h' : Simulates V' step' step'' ok' Rel')
    (hok : ∀ t u c, Rel' t u → ok' u c → ok t c) :
    Simulates (Relation.Comp V V') step step'' ok' (Relation.Comp Rel Rel') := by
  rintro s u c ⟨t, hst, htu⟩ hu
  have hfirst := h s t c hst (hok t u c htu hu)
  have hsecond := h' t u c htu hu
  generalize step s c = x, step' t c = y, step'' u c = z at hfirst hsecond
  cases hfirst with
  | none =>
    cases hsecond
    exact .none
  | some hxy =>
    cases hsecond with
    | some hyz => exact .some ⟨⟨_, hxy.1, hyz.1⟩, _, hxy.2, hyz.2⟩

end

end RvnSyncPoint.Refinement
