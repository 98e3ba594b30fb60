import Mathlib.Tactic.Ring

/-! # Runs of a transition system

A run is a finite sequence of labelled steps. A condition on the steps of a run is part of the step
relation, so a run whose steps all meet it is a run of the restricted relation.
-/
namespace LibUrx.Runs
set_option autoImplicit false

variable {State Action : Type}

inductive Path (step : State → Action → State → Prop) : State → List Action → State → Prop where
  | nil (s : State) : Path step s [] s
  | cons {s t u : State} {a : Action} {rest : List Action} (head : step s a t) (tail : Path step t rest u) :
      Path step s (a :: rest) u

def Restrict (allowed : State → Action → Prop) (step : State → Action → State → Prop) :
    State → Action → State → Prop := fun s a t => allowed s a ∧ step s a t

namespace Path

variable {step : State → Action → State → Prop}

/-- What holds at the start and is kept by every step holds at the end. -/
theorem invariant {p : State → Prop} (hStep : ∀ s a t, p s → step s a t → p t) {s t : State}
    {actions : List Action} (hRun : Path step s actions t) (hStart : p s) : p t := by
  induction hRun with
  | nil => exact hStart
  | cons head _ ih => exact ih (hStep _ _ _ hStart head)

theorem mono {step' : State → Action → State → Prop} (hStep : ∀ s a t, step s a t → step' s a t) {s t : State}
    {actions : List Action} (h : Path step s actions t) : Path step' s actions t := by
  induction h with
  | nil => exact .nil _
  | cons head _ ih => exact .cons (hStep _ _ _ head) ih

theorem of_restrict {allowed : State → Action → Prop} {s t : State} {actions : List Action}
    (h : Path (Restrict allowed step) s actions t) : Path step s actions t := h.mono fun _ _ _ head => head.2

/-- Two conditions allow the same runs if they agree wherever the steps so far have led. -/
theorem restrict_iff {allowed allowed' : State → Action → Prop} {p : State → Prop}
    (hStep : ∀ s a t, p s → step s a t → (allowed s a ↔ allowed' s a) ∧ (allowed' s a → p t)) {s t : State}
    {actions : List Action} (hStart : p s) :
    Path (Restrict allowed step) s actions t ↔ Path (Restrict allowed' step) s actions t := by
  constructor
  · intro hRun
    induction hRun with
    | nil => exact .nil _
    | cons head _ ih =>
      obtain ⟨hSame, hKeep⟩ := hStep _ _ _ hStart head.2
      exact .cons ⟨hSame.mp head.1, head.2⟩ (ih (hKeep (hSame.mp head.1)))
  · intro hRun
    induction hRun with
    | nil => exact .nil _
    | cons head _ ih =>
      obtain ⟨hSame, hKeep⟩ := hStep _ _ _ hStart head.2
      exact .cons ⟨hSame.mpr head.1, head.2⟩ (ih (hKeep head.1))

end Path

/-- Where a step has one result, what holds of every result is what holds of this one. -/
theorem forall_next_iff {next : State → Action → Option State} {p : State → Prop} {s t : State} {a : Action}
    (h : next s a = some t) : (∀ u, next s a = some u → p u) ↔ p t := by
  rw [h]
  exact ⟨fun hAll => hAll t rfl, fun hOne u hSame => Option.some.inj hSame ▸ hOne⟩

def runWhile (allowed : State → Action → Bool) (next : State → Action → Option State) :
    State → List Action → Option State
  | s, [] => some s
  | s, a :: rest => if allowed s a then (next s a).bind fun t => runWhile allowed next t rest else none

theorem path_of_runWhile {allowed : State → Action → Bool} {next : State → Action → Option State} {s t : State}
    {actions : List Action} (h : runWhile allowed next s actions = some t) :
    Path (Restrict (fun s a => allowed s a = true) fun s a t => next s a = some t) s actions t := by
  induction actions generalizing s with
  | nil =>
    obtain rfl := Option.some.inj h
    exact .nil _
  | cons a rest ih =>
    rw [runWhile] at h
    split at h
    · rename_i hAllowed
      obtain ⟨u, hNext, hRest⟩ := Option.bind_eq_some_iff.mp h
      exact .cons ⟨hAllowed, hNext⟩ (ih hRest)
    · cases h

end LibUrx.Runs
