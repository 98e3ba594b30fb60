import LibUrx.Controller.ProgramRun

/-! # The order of the commands

However the packages come in between the steps of the program, the main thread takes numbers of packages in the order
in which they came, never the same number twice in a row, and answers each before it takes the next.
-/
namespace LibUrx.Controller
open Runs Histories
set_option autoImplicit false

namespace Execution

def numbers (inputs : Inputs) (e : Execution) : List UInt32 := (inputs :: e.arrivals).map (·.seqnr)

/-- The numbers taken, and the one that waits in the register, follow the packages. -/
structure InOrder (inputs : Inputs) (e : Execution) : Prop where
  taken : e.polls.Sublist (e.numbers inputs)
  waiting : e.program.inputs.seqnr ≠ e.program.oldSeqnr →
    (e.polls ++ [e.program.inputs.seqnr]).Sublist (e.numbers inputs)
  newest : newest 0 e.polls = e.program.oldSeqnr
  changes : (0 :: e.polls).IsChain (· ≠ ·)

theorem InOrder.kept {inputs : Inputs} {e f : Execution} (h : e.InOrder inputs) (hInputs : f.program.inputs = e.program.inputs)
    (hOld : f.program.oldSeqnr = e.program.oldSeqnr) (hPolls : f.polls = e.polls) (hArrivals : f.arrivals = e.arrivals) :
    f.InOrder inputs := by
  have hNumbers : f.numbers inputs = e.numbers inputs := by rw [numbers, numbers, hArrivals]
  constructor
  · rw [hPolls, hNumbers]
    exact h.taken
  · rw [hPolls, hNumbers, hInputs, hOld]
    exact h.waiting
  · rw [hPolls, hOld]
    exact h.newest
  · rw [hPolls]
    exact h.changes

theorem InOrder.arrives {inputs x : Inputs} {e : Execution} (h : e.InOrder inputs) :
    InOrder inputs ⟨{ e.program with inputs := x }, e.history ++ [.arrived x]⟩ := by
  have hNumbers : numbers inputs ⟨{ e.program with inputs := x }, e.history ++ [.arrived x]⟩ =
      e.numbers inputs ++ [x.seqnr] := by
    simp [numbers, arrivals, ProgramEvent.arrival]
  have hPolls : polls ⟨{ e.program with inputs := x }, e.history ++ [.arrived x]⟩ = e.polls := by
    simp [polls, ProgramEvent.poll]
  constructor
  · rw [hPolls, hNumbers]
    exact h.taken.trans (List.sublist_append_left _ _)
  · intro _
    rw [hPolls, hNumbers]
    exact h.taken.append (List.Sublist.refl _)
  · rw [hPolls]
    exact h.newest
  · rw [hPolls]
    exact h.changes

theorem InOrder.polls {inputs : Inputs} {e f : Execution} (h : e.InOrder inputs)
    (hNew : e.program.inputs.seqnr ≠ e.program.oldSeqnr) (hInputs : f.program.inputs = e.program.inputs)
    (hOld : f.program.oldSeqnr = e.program.inputs.seqnr) (hPolls : f.polls = e.polls ++ [e.program.inputs.seqnr])
    (hArrivals : f.arrivals = e.arrivals) : f.InOrder inputs := by
  have hNumbers : f.numbers inputs = e.numbers inputs := by rw [numbers, numbers, hArrivals]
  constructor
  · rw [hPolls, hNumbers]
    exact h.waiting hNew
  · intro hAgain
    rw [hInputs, hOld] at hAgain
    exact absurd rfl hAgain
  · rw [hPolls, hOld, newest_concat]
  · rw [hPolls]
    apply isChain_concat h.changes
    rw [h.newest]
    exact hNew.symm

theorem InOrder.step {inputs : Inputs} {e f : Execution} {a : ProgramAction} (h : e.InOrder inputs)
    (hMoves : Moves e a f) : f.InOrder inputs := by
  cases hMoves with
  | arrives x => exact h.arrives
  | emits => exact h.kept rfl rfl (by simp [Execution.polls, ProgramEvent.poll]) (by simp [arrivals, ProgramEvent.arrival])
  | main moves =>
    cases moves with
    | polls at_ keep new =>
      exact h.polls new rfl rfl (by simp [Execution.polls, ProgramEvent.poll])
        (by simp [arrivals, ProgramEvent.arrival])
    | _ =>
      exact h.kept rfl rfl (by simp [Execution.polls, ProgramEvent.poll]) (by simp [arrivals, ProgramEvent.arrival])
  | speed moves =>
    refine h.kept moves.mainKept.inputs moves.mainKept.oldSeqnr ?_ ?_
    · cases moves <;> simp [Execution.polls, ProgramEvent.poll]
    · cases moves <;> simp [arrivals, ProgramEvent.arrival]
  | kin solution moves => exact h.kept moves.mainKept.inputs moves.mainKept.oldSeqnr rfl rfl

/-- The main thread has taken a number and has yet to answer it. -/
def Busy (e : Execution) : Prop := e.program.mainAt ≠ .poll ∧ e.program.mainAt ≠ .closed

/-- The number in the register of answers is the last one taken, or the one before it while that is dealt with. -/
structure Answered (outputs : Outputs) (e : Execution) : Prop where
  busy : e.Busy → ∃ before, e.polls = before ++ [e.program.seqnr] ∧
    e.program.outputs.seqnr = newest outputs.seqnr before
  idle : ¬ e.Busy → e.program.outputs.seqnr = newest outputs.seqnr e.polls

theorem Answered.kept {outputs : Outputs} {e f : Execution} (h : e.Answered outputs)
    (hBusy : f.Busy ↔ e.Busy) (hSeqnr : e.Busy → f.program.seqnr = e.program.seqnr)
    (hAnswer : f.program.outputs.seqnr = e.program.outputs.seqnr) (hPolls : f.polls = e.polls) : f.Answered outputs := by
  constructor
  · intro hF
    obtain ⟨before, hBefore, hLast⟩ := h.busy (hBusy.mp hF)
    refine ⟨before, ?_, hAnswer.trans hLast⟩
    rw [hPolls, hBefore, hSeqnr (hBusy.mp hF)]
  · intro hF
    rw [hPolls, hAnswer]
    exact h.idle fun hE => hF (hBusy.mpr hE)

theorem not_busy_of_poll {e : Execution} (hAt : e.program.mainAt = .poll) : ¬ e.Busy := fun hBusy => hBusy.1 hAt

theorem not_busy_of_closed {e : Execution} (hAt : e.program.mainAt = .closed) : ¬ e.Busy := fun hBusy => hBusy.2 hAt

theorem busy_of_at {e : Execution} {there : MainAt} (hAt : e.program.mainAt = there) (hPoll : there ≠ .poll)
    (hClosed : there ≠ .closed) : e.Busy := by
  rw [Busy, hAt]
  exact ⟨hPoll, hClosed⟩

/-- Inside a pass only the place of the main thread changes, as far as the answers go. -/
theorem Answered.inside {outputs : Outputs} {e f : Execution} (h : e.Answered outputs) (hE : e.Busy) (hF : f.Busy)
    (hSeqnr : f.program.seqnr = e.program.seqnr) (hAnswer : f.program.outputs.seqnr = e.program.outputs.seqnr)
    (hPolls : f.polls = e.polls) : f.Answered outputs :=
  h.kept ⟨fun _ => hE, fun _ => hF⟩ (fun _ => hSeqnr) hAnswer hPolls

theorem Answered.main {outputs : Outputs} {e : Execution} {told : List ProgramEvent} {q : Program}
    (h : e.Answered outputs) (hMoves : e.program.MainMoves told q) : Answered outputs ⟨q, e.history ++ told⟩ := by
  cases hMoves with
  | closes at_ keep =>
    have hBusy : ¬ Busy ⟨{ e.program with mainAt := .closed }, e.history ++ []⟩ := not_busy_of_closed rfl
    refine h.kept ⟨fun hF => absurd hF hBusy, fun hE => absurd hE (not_busy_of_poll at_)⟩ (fun _ => rfl) rfl ?_
    simp [polls]
  | waits at_ keep same =>
    have hBusy : ¬ Busy ⟨{ e.program with seqnr := e.program.inputs.seqnr }, e.history ++ []⟩ := not_busy_of_poll at_
    refine h.kept ⟨fun hF => absurd hF hBusy, fun hE => absurd hE (not_busy_of_poll at_)⟩
      (fun hE => absurd hE (not_busy_of_poll at_)) rfl ?_
    simp [polls]
  | polls at_ keep new =>
    constructor
    · intro _
      exact ⟨e.polls, by simp [Execution.polls, ProgramEvent.poll], h.idle (not_busy_of_poll at_)⟩
    · intro hIdle
      exact absurd (busy_of_at rfl (by simp) (by simp)) hIdle
  | commands at_ there which =>
    refine h.inside (busy_of_at at_ (by decide) (by decide)) ?_ rfl rfl (by simp [polls])
    rcases which with ⟨-, rfl⟩ | ⟨-, rfl⟩ | ⟨-, rfl⟩ | ⟨-, -, -, rfl⟩ <;>
      exact busy_of_at rfl (by simp) (by simp)
  | answers at_ =>
    obtain ⟨before, hBefore, -⟩ := h.busy (busy_of_at at_ (by decide) (by decide))
    constructor
    · intro hBusy
      exact absurd hBusy (not_busy_of_poll rfl)
    · intro _
      have hPolls : polls ⟨{ e.program with
          outputs := { e.program.outputs with seqnr := e.program.seqnr }, mainAt := .poll }, e.history ++ []⟩ =
          e.polls := by
        simp [polls]
      rw [hPolls, hBefore, newest_concat]
  | stops at_ | takesSpeeds _ at_ | takesPose _ at_ | readsSpeed _ at_ | readsPose _ at_ =>
    refine h.inside (busy_of_at at_ (by simp) (by simp)) (busy_of_at rfl (by simp) (by simp)) rfl rfl ?_
    simp [polls, ProgramEvent.poll]

theorem Answered.step {outputs : Outputs} {e f : Execution} {a : ProgramAction} (h : e.Answered outputs)
    (hMoves : Moves e a f) : f.Answered outputs := by
  cases hMoves with
  | arrives x => exact h.kept Iff.rfl (fun _ => rfl) rfl (by simp [polls, ProgramEvent.poll])
  | emits => exact h.kept Iff.rfl (fun _ => rfl) rfl (by simp [polls, ProgramEvent.poll])
  | main moves => exact h.main moves
  | speed moves =>
    have hKept := moves.mainKept
    refine h.kept ?_ (fun _ => hKept.seqnr) hKept.answered ?_
    · rw [Busy, Busy, hKept.mainAt]
    · cases moves <;> simp [polls, ProgramEvent.poll]
  | kin solution moves =>
    have hKept := moves.mainKept
    refine h.kept ?_ (fun _ => hKept.seqnr) hKept.answered rfl
    rw [Busy, Busy, hKept.mainAt]

end Execution

end LibUrx.Controller
