import LibUrx.Base.Runs
import Mathlib.Data.List.Chain

/-! # Histories

A history lists what the steps of a run have told, oldest first, and grows at its end. A statement about each event
speaks of what came before it. A measure that every step of some kind uses up bounds how many such steps a run has.
-/
namespace LibUrx.Histories
open Runs
set_option autoImplicit false

variable {Event : Type}

/-- What holds of each event and of those before it. -/
def AtEach (p : List Event → Event → Prop) (history : List Event) : Prop :=
  ∀ before event after, history = before ++ event :: after → p before event

theorem AtEach.nil {p : List Event → Event → Prop} : AtEach p [] := by
  intro before event after hSplit
  cases before <;> cases hSplit

theorem AtEach.concat {p : List Event → Event → Prop} {history : List Event} {event : Event} (h : AtEach p history)
    (hNew : p history event) : AtEach p (history ++ [event]) := by
  intro before event' after hSplit
  rcases List.eq_nil_or_concat after with rfl | ⟨after, last, rfl⟩
  · obtain ⟨rfl, hSame⟩ := List.append_inj' hSplit rfl
    obtain rfl := (List.cons.inj hSame).1
    exact hNew
  · have hSplit : history ++ [event] = (before ++ event' :: after) ++ [last] := by
      rw [hSplit, List.concat_eq_append, List.append_assoc, List.cons_append]
    exact h before event' after (List.append_inj' hSplit rfl).1

theorem AtEach.append {p : List Event → Event → Prop} {history told : List Event} (h : AtEach p history)
    (hTold : ∀ before, ∀ event ∈ told, p before event) : AtEach p (history ++ told) := by
  induction told generalizing history with
  | nil => rwa [List.append_nil]
  | cons event told ih =>
    rw [List.append_cons]
    exact ih (h.concat (hTold history event List.mem_cons_self))
      fun before later hLater => hTold before later (List.mem_cons_of_mem _ hLater)

/-- The newest of some values, or the value from before the first. -/
def newest {α : Type} (first : α) (values : List α) : α := values.getLast?.getD first

@[simp] theorem newest_nil {α : Type} (first : α) : newest first [] = first := rfl

@[simp] theorem newest_concat {α : Type} (first last : α) (values : List α) :
    newest first (values ++ [last]) = last := by
  rw [newest, List.getLast?_append, List.getLast?_singleton]
  rfl

theorem isChain_concat {α : Type} {r : α → α → Prop} {first : α} {values : List α} {last : α}
    (h : (first :: values).IsChain r) (hLast : r (newest first values) last) :
    (first :: (values ++ [last])).IsChain r := by
  rw [← List.cons_append, List.isChain_append]
  refine ⟨h, List.isChain_singleton last, ?_⟩
  intro x hX y hY
  rw [List.head?_cons, Option.mem_some_iff] at hY
  rw [List.getLast?_cons, Option.mem_some_iff] at hX
  rwa [← hX, ← hY]

section Paths

variable {State Action : Type} {step : State → Action → State → Prop}

theorem path_append {s u : State} {older newer : List Action} (hRun : Path step s (older ++ newer) u) :
    ∃ t, Path step s older t ∧ Path step t newer u := by
  induction older generalizing s with
  | nil => exact ⟨s, .nil s, hRun⟩
  | cons a older ih =>
    cases hRun with
    | cons head tail =>
      obtain ⟨t, hOlder, hNewer⟩ := ih tail
      exact ⟨t, .cons head hOlder, hNewer⟩

theorem path_concat {s t u : State} {actions : List Action} {a : Action} (hRun : Path step s actions t)
    (hStep : step t a u) : Path step s (actions ++ [a]) u := by
  induction hRun with
  | nil => exact .cons hStep (.nil _)
  | cons head _ ih => exact .cons head (ih hStep)

theorem path_trans {s t u : State} {older newer : List Action} (hRun : Path step s older t) (hMore : Path step t newer u) :
    Path step s (older ++ newer) u := by
  induction hRun with
  | nil => exact hMore
  | cons head _ ih => exact .cons head (ih hMore)

/-- What holds of the actions of a run may be made part of its steps. -/
theorem path_restrict {allowed : State → Action → Prop} {s t : State} {actions : List Action}
    (hRun : Path step s actions t) (hAllowed : ∀ a ∈ actions, ∀ u, allowed u a) :
    Path (Restrict allowed step) s actions t := by
  induction hRun with
  | nil => exact .nil _
  | cons head _ ih =>
    exact .cons ⟨hAllowed _ List.mem_cons_self _, head⟩ (ih fun a hA => hAllowed a (List.mem_cons_of_mem _ hA))

/-- Steps keep a relation to the last checkpoint, or are a new one. -/
theorem path_since {p : State → List Action → State → Prop}
    (hStep : ∀ u newer s a t, p u newer s → step s a t → p u (newer ++ [a]) t ∨ p t [] t) {s₀ u s t : State}
    {older newer actions : List Action} (hRun : Path step s actions t) (hOlder : Path step s₀ older u)
    (hNewer : Path step u newer s) (hSince : p u newer s) :
    ∃ older' newer' u', older ++ newer ++ actions = older' ++ newer' ∧ Path step s₀ older' u' ∧
      Path step u' newer' t ∧ p u' newer' t := by
  induction hRun generalizing older newer u with
  | nil => exact ⟨older, newer, u, List.append_nil _, hOlder, hNewer, hSince⟩
  | @cons s t _ a rest head tail ih =>
    have hNext := path_concat hNewer head
    rcases hStep _ _ _ _ _ hSince head with hSame | hFresh
    · obtain ⟨older', newer', u', hSplit, hPaths⟩ := ih hOlder hNext hSame
      exact ⟨older', newer', u', by rw [← hSplit]; simp, hPaths⟩
    · obtain ⟨older', newer', u', hSplit, hPaths⟩ := ih (path_trans hOlder hNext) (.nil t) hFresh
      exact ⟨older', newer', u', by rw [← hSplit]; simp, hPaths⟩

/-- Steps that each use up a measure are no more than the measure at the start. -/
theorem countP_le_of_path {p : State → Prop} {left : State → Nat} {counted : Action → Bool}
    (hStep : ∀ s a t, p s → step s a t → p t ∧ left t + (if counted a then 1 else 0) ≤ left s) {s t : State}
    {actions : List Action} (hRun : Path step s actions t) (hStart : p s) :
    p t ∧ left t + actions.countP counted ≤ left s := by
  induction hRun with
  | nil => exact ⟨hStart, Nat.le_refl _⟩
  | @cons s t u a rest head _ ih =>
    obtain ⟨hKept, hLess⟩ := hStep _ _ _ hStart head
    obtain ⟨hEnd, hRest⟩ := ih hKept
    refine ⟨hEnd, ?_⟩
    rw [List.countP_cons]
    omega

end Paths

end LibUrx.Histories
