import Mathlib

/-!
# Loops that may not end

`loop step` runs `step` from a state until it leaves the loop with a result. A loop that never
leaves has no result, so `loop step s = none` says that the loop does not end from `s` (or that its
body does not). The rules below are those of a Hoare logic for one loop: a measure for total
correctness (`loop_total`) and for the number of passes (`exists_leavesAfter`), an invariant for
partial correctness (`loop_inv`), an invariant under which the loop never leaves (`loop_diverges`), and
a relation between two loops that run in lockstep (`loop_rel`).
-/

namespace RvnSyncPoint.Loop

variable {σ τ ρ ρ' : Type}

/-- The recursion of `loop`. -/
def loop._rec (step : σ → Option (σ ⊕ ρ)) (s : σ) : Option ρ := do
  match ← step s with
  | .inl s => loop._rec step s
  | .inr r => some r
partial_fixpoint

/-- Runs `step` until it leaves the loop: `.inl s` goes round again from the state `s`, and `.inr r`
leaves with the result `r`. -/
def loop (step : σ → Option (σ ⊕ ρ)) (s : σ) : Option ρ := loop._rec step s

variable {step : σ → Option (σ ⊕ ρ)} {s t : σ} {r : ρ}

/-- A step that goes round again. -/
theorem loop_again (h : step s = some (.inl t)) : loop step s = loop step t := by
  rw [loop, loop._rec, h]
  rfl

/-- A step that leaves the loop. -/
theorem loop_leave (h : step s = some (.inr r)) : loop step s = some r := by
  rw [loop, loop._rec, h]
  rfl

/-- A body that does not end makes a loop that does not end. -/
theorem loop_none (h : step s = none) : loop step s = none := by
  rw [loop, loop._rec, h]
  rfl

/-- Total correctness: under an invariant `I`, a body that ends and either leaves with a result in
`P`, or keeps `I` and lowers the measure `μ`, makes a loop that ends with a result in `P`. -/
theorem loop_total (I : σ → Prop) (μ : σ → ℕ) (P : ρ → Prop)
    (hstep : ∀ s, I s → (∃ r, step s = some (.inr r) ∧ P r) ∨
      ∃ s', step s = some (.inl s') ∧ I s' ∧ μ s' < μ s)
    (s : σ) (hs : I s) : ∃ r, loop step s = some r ∧ P r := by
  induction hm : μ s using Nat.strongRecOn generalizing s with
  | ind m ih =>
    rcases hstep s hs with ⟨r, hr, hP⟩ | ⟨s', hs', hI, hlt⟩
    · exact ⟨r, loop_leave hr, hP⟩
    · rw [loop_again hs']
      exact ih (μ s') (hm ▸ hlt) s' hI rfl

/-- Partial correctness: if every step keeps the invariant `I`, and leaves only with results in `P`,
then the result of a loop that ends is in `P`. -/
theorem loop_inv (I : σ → Prop) (P : ρ → Prop)
    (hagain : ∀ s s', I s → step s = some (.inl s') → I s')
    (hleave : ∀ s r, I s → step s = some (.inr r) → P r)
    (s : σ) (r : ρ) (hs : I s) (h : loop step s = some r) : P r := by
  refine loop._rec.partial_correctness step (fun s r => I s → P r) ?_ s r h hs
  intro again ih s r hr hI
  cases ho : step s with
  | none => rw [ho] at hr; cases hr
  | some o =>
    rw [ho] at hr
    cases o with
    | inl s' => exact ih s' r hr (hagain s s' hI ho)
    | inr r' => cases hr; exact hleave s _ hI ho

/-- The loop leaves with the result `r` in its `n`-th pass. -/
inductive LeavesAfter (step : σ → Option (σ ⊕ ρ)) : ℕ → σ → ρ → Prop
  | leave {s : σ} {r : ρ} (h : step s = some (.inr r)) : LeavesAfter step 1 s r
  | again {n : ℕ} {s t : σ} {r : ρ} (h : step s = some (.inl t)) (rest : LeavesAfter step n t r) :
    LeavesAfter step (n + 1) s r

theorem LeavesAfter.loop_eq {n : ℕ} (h : LeavesAfter step n s r) : loop step s = some r := by
  induction h with
  | leave h => exact loop_leave h
  | again h rest ih => rw [loop_again h, ih]

/-- A bound on the passes: a body that either leaves, or keeps the invariant `I` and lowers the measure
`μ`, makes a loop that leaves at the latest in the pass after `μ` others. -/
theorem exists_leavesAfter (I : σ → Prop) (μ : σ → ℕ)
    (hstep : ∀ s, I s → (∃ r, step s = some (.inr r)) ∨
      ∃ s', step s = some (.inl s') ∧ I s' ∧ μ s' < μ s)
    (s : σ) (hs : I s) : ∃ n r, LeavesAfter step n s r ∧ n ≤ μ s + 1 := by
  induction hm : μ s using Nat.strongRecOn generalizing s with
  | ind m ih =>
    rcases hstep s hs with ⟨r, hr⟩ | ⟨s', hs', hI, hlt⟩
    · exact ⟨1, r, .leave hr, by omega⟩
    · obtain ⟨n, r, hn, hle⟩ := ih (μ s') (hm ▸ hlt) s' hI rfl
      exact ⟨n + 1, r, .again hs' hn, by omega⟩

/-- Divergence: if every step from a state in `I` goes round again to a state in `I`, the loop does
not end. -/
theorem loop_diverges (I : σ → Prop) (hstep : ∀ s, I s → ∃ s', step s = some (.inl s') ∧ I s')
    (s : σ) (hs : I s) : loop step s = none := by
  cases h : loop step s with
  | none => rfl
  | some r =>
    refine (loop_inv I (fun _ => False) ?_ ?_ s r hs h).elim
    · intro s s' hI hs'
      obtain ⟨t, ht, hIt⟩ := hstep s hI
      rw [ht] at hs'
      cases hs'
      exact hIt
    · intro s r hI hr
      obtain ⟨t, ht, -⟩ := hstep s hI
      rw [ht] at hr
      cases hr

/-- Two computations that may not end, in lockstep, followed by related ones. -/
theorem rel_bind {α β α' β' : Type} {R : α → β → Prop} {Q : α' → β' → Prop} {x : Option α}
    {y : Option β} {k : α → Option α'} {l : β → Option β'} (h : Option.Rel R x y)
    (hk : ∀ a b, R a b → Option.Rel Q (k a) (l b)) : Option.Rel Q (x >>= k) (y >>= l) := by
  cases h with
  | some h => exact hk _ _ h
  | none => exact .none

/-- Related results of two computations in lockstep. -/
theorem rel_map {α β α' β' : Type} {R : α → β → Prop} {Q : α' → β' → Prop} {x : Option α}
    {y : Option β} {k : α → α'} {l : β → β'} (h : Option.Rel R x y)
    (hk : ∀ a b, R a b → Q (k a) (l b)) : Option.Rel Q (x.map k) (y.map l) := by
  cases h with
  | some h => exact .some (hk _ _ h)
  | none => exact .none

/-- In lockstep, the second result is that of the second computation. -/
theorem rel_right {α β : Type} {R : α → β → Prop} {x : Option α} {y : Option β} (h : Option.Rel R x y) :
    Option.Rel (fun a b => R a b ∧ y = some b) x y := by
  cases h with
  | some h => exact .some ⟨h, rfl⟩
  | none => exact .none

/-- What a computation in lockstep with itself keeps, its result has. -/
theorem rel_self {α : Type} {P : α → Prop} {x : Option α} {a : α}
    (h : Option.Rel (fun a b => a = b ∧ P a) x x) (hx : x = some a) : P a := by
  subst hx
  cases h with
  | some h => exact h.2

/-- How two steps in lockstep are related: both go round again from related states, or both leave with
related results. -/
inductive StepRel (R : σ → τ → Prop) (Q : ρ → ρ' → Prop) : σ ⊕ ρ → τ ⊕ ρ' → Prop
  | again {s : σ} {t : τ} (h : R s t) : StepRel R Q (.inl s) (.inl t)
  | leave {a : ρ} {b : ρ'} (h : Q a b) : StepRel R Q (.inr a) (.inr b)

/-- Steps in lockstep stay so when the two loops change places. -/
theorem StepRel.flip {R : σ → τ → Prop} {Q : ρ → ρ' → Prop} {x : σ ⊕ ρ} {y : τ ⊕ ρ'}
    (h : StepRel R Q x y) : StepRel (flip R) (flip Q) y x := by
  cases h with
  | again h => exact .again h
  | leave h => exact .leave h

/-- From related states, when the first of two loops in lockstep ends, so does the second. -/
theorem loop_rel_some {step' : τ → Option (τ ⊕ ρ')} (R : σ → τ → Prop) (Q : ρ → ρ' → Prop)
    (hstep : ∀ s t, R s t → Option.Rel (StepRel R Q) (step s) (step' t))
    (s : σ) (t : τ) (r : ρ) (hst : R s t) (h : loop step s = some r) :
    ∃ r', loop step' t = some r' ∧ Q r r' := by
  refine loop._rec.partial_correctness step
    (fun s r => ∀ t, R s t → ∃ r', loop step' t = some r' ∧ Q r r') ?_ s r h t hst
  intro again ih s r hr t hst
  have h := hstep s t hst
  cases ho : step s with
  | none => rw [ho] at hr; cases hr
  | some o =>
    rw [ho] at hr h
    cases ho' : step' t with
    | none => rw [ho'] at h; cases h
    | some o' =>
      rw [ho'] at h
      cases h with
      | some h =>
        cases h with
        | again h => rw [loop_again ho']; exact ih _ r hr _ h
        | leave h => cases hr; exact ⟨_, loop_leave ho', h⟩

/-- Two loops in lockstep from related states: both end, with related results, or neither does. -/
theorem loop_rel {step' : τ → Option (τ ⊕ ρ')} (R : σ → τ → Prop) (Q : ρ → ρ' → Prop)
    (hstep : ∀ s t, R s t → Option.Rel (StepRel R Q) (step s) (step' t))
    (s : σ) (t : τ) (hst : R s t) : Option.Rel Q (loop step s) (loop step' t) := by
  cases h : loop step s with
  | some r =>
    obtain ⟨r', hr', hQ⟩ := loop_rel_some R Q hstep s t r hst h
    rw [hr']
    exact .some hQ
  | none =>
    cases h' : loop step' t with
    | none => exact .none
    | some r' =>
      have hflip : ∀ t s, R s t → Option.Rel (StepRel (flip R) (flip Q)) (step' t) (step s) := by
        intro t s hst
        have h := hstep s t hst
        generalize step s = x, step' t = y at h
        cases h with
        | some h => exact .some h.flip
        | none => exact .none
      obtain ⟨r, hr, -⟩ := loop_rel_some (flip R) (flip Q) hflip t s r' hst h'
      rw [h] at hr
      cases hr

end RvnSyncPoint.Loop
