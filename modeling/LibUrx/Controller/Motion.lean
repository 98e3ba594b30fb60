import LibUrx.Controller.ProgramRun

/-! # Motions and the end of the program

The moving thread looks for a new velocity between any two motions, and moves with the newest one that was there when
it looked. A stop clears the velocity that waits, but raises no flag, so a velocity already taken moves the joints once
more.
-/
namespace LibUrx.Controller
open Runs Histories
set_option autoImplicit false

def velocities (history : List ProgramEvent) : List Vec := history.filterMap ProgramEvent.velocity

def motions (history : List ProgramEvent) : List Vec := history.filterMap ProgramEvent.motion

@[simp] theorem velocities_append (older newer : List ProgramEvent) :
    velocities (older ++ newer) = velocities older ++ velocities newer := List.filterMap_append

@[simp] theorem motions_append (older newer : List ProgramEvent) :
    motions (older ++ newer) = motions older ++ motions newer := List.filterMap_append

/-- The velocity was the newest at some time after the last motion. -/
def Sampled (history : List ProgramEvent) (qd : Vec) : Prop :=
  ∃ older newer, history = older ++ newer ∧ motions newer = [] ∧ qd = newest zeros (velocities older)

/-- What a stop has left of the velocity that waited. -/
def Cleared (history : List ProgramEvent) (qd : Vec) : Prop := .stopped ∈ history ∧ qd = zeros

theorem Sampled.append {history told : List ProgramEvent} {qd : Vec} (h : Sampled history qd)
    (hTold : motions told = []) : Sampled (history ++ told) qd := by
  obtain ⟨older, newer, rfl, hNone, hNewest⟩ := h
  refine ⟨older, newer ++ told, List.append_assoc _ _ _, ?_, hNewest⟩
  rw [motions_append, hNone, hTold, List.append_nil]

theorem sampled_of_newest {history : List ProgramEvent} {qd : Vec} (h : qd = newest zeros (velocities history)) :
    Sampled history qd := ⟨history, [], (List.append_nil _).symm, rfl, h⟩

theorem Cleared.append {history : List ProgramEvent} {qd : Vec} (h : Cleared history qd) (told : List ProgramEvent) :
    Cleared (history ++ told) qd := ⟨List.mem_append_left _ h.1, h.2⟩

namespace Execution

/-- Where a velocity waits for the moving thread, it is the newest. Otherwise the moving thread has the newest. -/
structure Sampling (e : Execution) : Prop where
  waiting : e.program.updatedTqd = true →
    e.program.tqd = newest zeros (velocities e.history) ∨ Cleared e.history e.program.tqd
  held : e.program.updatedTqd = false →
    e.program.speedQd = newest zeros (velocities e.history) ∨ Cleared e.history e.program.speedQd
  sampled : e.program.speedAt = .move → Sampled e.history e.program.speedQd ∨ Cleared e.history e.program.speedQd
  moved : AtEach (fun before event => ∀ qd, event = .moved qd → Sampled before qd ∨ Cleared before qd) e.history
  halted : e.program.speedAt = .closed ↔ .halted ∈ e.history
  last : AtEach (fun before event => ∀ qd, event = .moved qd → .halted ∉ before) e.history

theorem newest_of_none {history told : List ProgramEvent} (h : velocities told = []) :
    newest zeros (velocities (history ++ told)) = newest zeros (velocities history) := by
  rw [velocities_append, h, List.append_nil]

/-- What a step that moves nothing leaves to be said of the places in the history. -/
theorem Sampling.places {e : Execution} {told : List ProgramEvent} (h : e.Sampling) (hMotions : motions told = []) :
    AtEach (fun before event => ∀ qd, event = .moved qd → Sampled before qd ∨ Cleared before qd) (e.history ++ told) ∧
      AtEach (fun before event => ∀ qd, event = .moved qd → .halted ∉ before) (e.history ++ told) := by
  have hNone : ∀ event ∈ told, ∀ qd, event ≠ .moved qd := by
    rintro event hEvent qd rfl
    have hMem : qd ∈ motions told := List.mem_filterMap.mpr ⟨_, hEvent, rfl⟩
    rw [hMotions] at hMem
    cases hMem
  constructor
  · exact h.moved.append fun before event hEvent qd hSame => absurd hSame (hNone event hEvent qd)
  · exact h.last.append fun before event hEvent qd hSame => absurd hSame (hNone event hEvent qd)

/-- A step that takes no velocity, moves nothing and halts nothing. -/
theorem Sampling.kept {e f : Execution} {told : List ProgramEvent} (h : e.Sampling)
    (hHistory : f.history = e.history ++ told) (hVelocities : velocities told = []) (hMotions : motions told = [])
    (hHalted : .halted ∉ told) (hFlag : f.program.updatedTqd = e.program.updatedTqd)
    (hTqd : f.program.tqd = e.program.tqd ∨ Cleared f.history f.program.tqd)
    (hQd : f.program.speedQd = e.program.speedQd)
    (hMove : f.program.speedAt = .move → e.program.speedAt = .move ∨ e.program.updatedTqd = false)
    (hClosed : f.program.speedAt = .closed ↔ e.program.speedAt = .closed) : f.Sampling := by
  obtain ⟨hMoved, hLast⟩ := h.places hMotions
  constructor
  · intro hUpdated
    rcases hTqd with hSame | hCleared
    · rw [hSame, hHistory, newest_of_none hVelocities]
      exact (h.waiting (hFlag ▸ hUpdated)).imp_right fun hCleared => hCleared.append told
    · exact Or.inr hCleared
  · intro hUpdated
    rw [hQd, hHistory, newest_of_none hVelocities]
    exact (h.held (hFlag ▸ hUpdated)).imp_right fun hCleared => hCleared.append told
  · intro hAt
    have hBefore : Sampled e.history e.program.speedQd ∨ Cleared e.history e.program.speedQd := by
      rcases hMove hAt with hAlready | hNoFlag
      · exact h.sampled hAlready
      · exact (h.held hNoFlag).imp_left sampled_of_newest
    rw [hQd, hHistory]
    exact hBefore.imp (fun hSampled => hSampled.append hMotions) fun hCleared => hCleared.append told
  · rw [hHistory]
    exact hMoved
  · rw [hClosed, h.halted, hHistory, List.mem_append, or_iff_left hHalted]
  · rw [hHistory]
    exact hLast

/-- A step that leaves the moving thread and what waits for it as they are. -/
theorem Sampling.aside {e f : Execution} {told : List ProgramEvent} (h : e.Sampling)
    (hHistory : f.history = e.history ++ told) (hVelocities : velocities told = []) (hMotions : motions told = [])
    (hHalted : .halted ∉ told) (hFlag : f.program.updatedTqd = e.program.updatedTqd)
    (hTqd : f.program.tqd = e.program.tqd) (hQd : f.program.speedQd = e.program.speedQd)
    (hAt : f.program.speedAt = e.program.speedAt) : f.Sampling :=
  h.kept hHistory hVelocities hMotions hHalted hFlag (Or.inl hTqd) hQd (fun hMove => Or.inl (hAt ▸ hMove)) (by rw [hAt])

theorem Sampling.main {e : Execution} {told : List ProgramEvent} {q : Program} (h : e.Sampling)
    (hMoves : e.program.MainMoves told q) : Sampling ⟨q, e.history ++ told⟩ := by
  cases hMoves with
  | stops at_ =>
    refine h.kept rfl rfl rfl (by simp) rfl (Or.inr ⟨?_, rfl⟩) rfl Or.inl Iff.rfl
    exact List.mem_append_right _ (List.mem_singleton_self _)
  | takesSpeeds read at_ all =>
    have hMotions : motions [.tookSpeeds e.program.qd] = [] := rfl
    obtain ⟨hMoved, hLast⟩ := h.places hMotions
    constructor
    · intro _
      refine Or.inl ?_
      rw [velocities_append]
      exact (newest_concat _ _ _).symm
    · intro hNoFlag
      cases hNoFlag
    · intro hAt
      exact (h.sampled hAt).imp (fun hSampled => hSampled.append hMotions) fun hCleared => hCleared.append _
    · exact hMoved
    · rw [h.halted, List.mem_append, or_iff_left (by simp)]
    · exact hLast
  | closes | waits | polls | commands | readsSpeed | readsPose | takesPose | answers =>
    exact h.aside rfl rfl rfl (by simp) rfl rfl rfl rfl

theorem Sampling.speed {e : Execution} {told : List ProgramEvent} {q : Program} (h : e.Sampling)
    (hMoves : e.program.SpeedMoves told q) : Sampling ⟨q, e.history ++ told⟩ := by
  cases hMoves with
  | goesOn at_ keep =>
    refine h.kept rfl rfl rfl (by simp) rfl (Or.inl rfl) rfl nofun ?_
    rw [at_]
    exact ⟨nofun, nofun⟩
  | halts at_ keep =>
    have hMotions : motions [.halted] = [] := rfl
    obtain ⟨hMoved, hLast⟩ := h.places hMotions
    have hNone : velocities [.halted] = [] := rfl
    constructor
    · rw [newest_of_none hNone]
      exact fun hUpdated => (h.waiting hUpdated).imp_right fun hCleared => hCleared.append _
    · rw [newest_of_none hNone]
      exact fun hUpdated => (h.held hUpdated).imp_right fun hCleared => hCleared.append _
    · intro hMove
      cases hMove
    · exact hMoved
    · exact ⟨fun _ => List.mem_append_right _ (List.mem_singleton_self _), fun _ => rfl⟩
    · exact hLast
  | takes at_ updated =>
    have hWaiting := h.waiting updated
    constructor
    · intro hUpdated
      cases hUpdated
    · intro _
      rwa [List.append_nil]
    · intro _
      rw [List.append_nil]
      exact hWaiting.imp_left sampled_of_newest
    · rw [List.append_nil]
      exact h.moved
    · rw [List.append_nil, ← h.halted, at_]
      exact ⟨nofun, nofun⟩
    · rw [List.append_nil]
      exact h.last
  | keeps at_ same =>
    refine h.kept rfl rfl rfl (by simp) rfl (Or.inl rfl) rfl (fun _ => Or.inr same) ?_
    rw [at_]
    exact ⟨nofun, nofun⟩
  | moves at_ =>
    have hNone : velocities [.moved e.program.speedQd] = [] := rfl
    have hGoing : .halted ∉ e.history := by
      rw [← h.halted, at_]
      exact nofun
    constructor
    · rw [newest_of_none hNone]
      exact fun hUpdated => (h.waiting hUpdated).imp_right fun hCleared => hCleared.append _
    · rw [newest_of_none hNone]
      exact fun hUpdated => (h.held hUpdated).imp_right fun hCleared => hCleared.append _
    · intro hMove
      cases hMove
    · apply h.moved.concat
      rintro qd hSame
      obtain rfl := ProgramEvent.moved.inj hSame
      exact h.sampled at_
    · rw [List.mem_append, or_iff_left (by simp), ← h.halted, at_]
      exact ⟨nofun, nofun⟩
    · exact h.last.concat fun _ _ => hGoing

theorem Sampling.step {e f : Execution} {a : ProgramAction} (h : e.Sampling) (hMoves : Moves e a f) : f.Sampling := by
  cases hMoves with
  | arrives x => exact h.aside rfl rfl rfl (by simp) rfl rfl rfl rfl
  | emits => exact h.aside rfl rfl rfl (by simp) rfl rfl rfl rfl
  | main moves => exact h.main moves
  | speed moves => exact h.speed moves
  | kin solution moves =>
    have hHistory := (List.append_nil e.history).symm
    cases moves <;> exact h.aside hHistory rfl rfl (by simp) rfl rfl rfl rfl

/-- A step of one of the three threads. -/
def isThread : ProgramAction → Bool
  | .main | .speed | .kin _ => true
  | .arrive _ | .emit => false

def mainLeft : MainAt → Nat
  | .answer => 2
  | .poll => 1
  | .command | .stop | .speeds _ | .pose _ | .closed => 0

def speedLeft : SpeedAt → Nat
  | .take => 3
  | .move => 2
  | .loop => 1
  | .closed => 0

def kinLeft : KinAt → Nat
  | .take => 10
  | .solve => 9
  | .write written => 2 + (6 - written)
  | .loop => 1
  | .closed => 0

/-- How many steps the threads have left once they are to end. -/
def left (e : Execution) : Nat :=
  mainLeft e.program.mainAt + speedLeft e.program.speedAt + kinLeft e.program.kinAt

theorem left_le (e : Execution) : e.left ≤ 15 := by
  have hMain : mainLeft e.program.mainAt ≤ 2 := by cases e.program.mainAt <;> simp [mainLeft]
  have hSpeed : speedLeft e.program.speedAt ≤ 3 := by cases e.program.speedAt <;> simp [speedLeft]
  have hKin : kinLeft e.program.kinAt ≤ 10 := by
    cases e.program.kinAt with
    | write written =>
      rw [kinLeft]
      omega
    | _ => simp [kinLeft]
  rw [left]
  omega

def motionsLeft : SpeedAt → Nat
  | .take | .move => 1
  | .loop | .closed => 0

/-- The threads are to end, and the main thread has at most an answer to give. -/
def Ending (e : Execution) : Prop :=
  e.program.keepRunning = false ∧
    (e.program.mainAt = .answer ∨ e.program.mainAt = .poll ∨ e.program.mainAt = .closed)

/-- What a step does once the threads are to end. -/
structure Winds (e f : Execution) (a : ProgramAction) : Prop where
  ending : f.Ending
  less : f.left + (if isThread a then 1 else 0) ≤ e.left
  told : ∃ told, f.history = e.history ++ told ∧ (∀ event ∈ told, event.command = false) ∧
    (motions told).length + motionsLeft f.program.speedAt ≤ motionsLeft e.program.speedAt

theorem Ending.main {e : Execution} {told : List ProgramEvent} {q : Program} (h : e.Ending)
    (hMoves : e.program.MainMoves told q) : Winds e ⟨q, e.history ++ told⟩ .main := by
  obtain ⟨hKeep, hAt⟩ := h
  cases hMoves with
  | closes at_ keep =>
    refine ⟨⟨hKeep, Or.inr (Or.inr rfl)⟩, ?_, [], rfl, nofun, Nat.le_of_eq (Nat.zero_add _)⟩
    simp only [left, at_, mainLeft, isThread, if_true]
    omega
  | answers at_ =>
    refine ⟨⟨hKeep, Or.inr (Or.inl rfl)⟩, ?_, [], rfl, nofun, Nat.le_of_eq (Nat.zero_add _)⟩
    simp only [left, at_, mainLeft, isThread, if_true]
    omega
  | waits at_ keep | polls at_ keep =>
    rw [hKeep] at keep
    cases keep
  | commands at_ | stops at_ | readsSpeed _ at_ | takesSpeeds _ at_ | readsPose _ at_ | takesPose _ at_ =>
    rw [at_] at hAt
    rcases hAt with hAt | hAt | hAt <;> cases hAt

theorem Ending.speed {e : Execution} {told : List ProgramEvent} {q : Program} (h : e.Ending)
    (hMoves : e.program.SpeedMoves told q) : Winds e ⟨q, e.history ++ told⟩ .speed := by
  obtain ⟨hKeep, hAt⟩ := h
  cases hMoves with
  | goesOn at_ keep =>
    rw [hKeep] at keep
    cases keep
  | halts at_ keep =>
    refine ⟨⟨hKeep, hAt⟩, ?_, [.halted], rfl, by simp [ProgramEvent.command], ?_⟩
    · simp only [left, at_, speedLeft, isThread, if_true]
      omega
    · simp [motions, ProgramEvent.motion, motionsLeft, at_]
  | takes at_ updated =>
    refine ⟨⟨hKeep, hAt⟩, ?_, [], rfl, nofun, ?_⟩
    · simp only [left, at_, speedLeft, isThread, if_true]
      omega
    · simp [motions, motionsLeft, at_]
  | keeps at_ same =>
    refine ⟨⟨hKeep, hAt⟩, ?_, [], rfl, nofun, ?_⟩
    · simp only [left, at_, speedLeft, isThread, if_true]
      omega
    · simp [motions, motionsLeft, at_]
  | moves at_ =>
    refine ⟨⟨hKeep, hAt⟩, ?_, [.moved e.program.speedQd], rfl, by simp [ProgramEvent.command], ?_⟩
    · simp only [left, at_, speedLeft, isThread, if_true]
      omega
    · simp [motions, ProgramEvent.motion, motionsLeft, at_]

theorem Ending.kin {e : Execution} {solution : Vec} {q : Program} (h : e.Ending)
    (hMoves : e.program.KinMoves solution q) : Winds e ⟨q, e.history⟩ (.kin solution) := by
  have hKept := hMoves.mainKept
  have hEnding : Ending ⟨q, e.history⟩ := by
    rw [Ending, hKept.keepRunning, hKept.mainAt]
    exact h
  have hSpeed : q.speedAt = e.program.speedAt := by cases hMoves <;> rfl
  have hLess : kinLeft q.kinAt + 1 ≤ kinLeft e.program.kinAt := by
    cases hMoves with
    | goesOn at_ keep =>
      rw [h.1] at keep
      cases keep
    | ends at_ keep => simp [kinLeft, at_]
    | takes at_ updated => simp [kinLeft, at_]
    | keeps at_ same =>
      rw [at_]
      cases e.program.doCalculations <;> simp [kinLeft]
    | solves at_ => simp [kinLeft, at_]
    | writes i at_ =>
      simp only [kinLeft, at_]
      omega
    | numbers written at_ all =>
      simp only [kinLeft, at_]
      omega
  refine ⟨hEnding, ?_, [], (List.append_nil _).symm, nofun, ?_⟩
  · simp only [left, hSpeed, hKept.mainAt, isThread, if_true]
    omega
  · simp [motions, hSpeed]

theorem Ending.winds {e f : Execution} {a : ProgramAction} (h : e.Ending) (hMoves : Moves e a f) : Winds e f a := by
  cases hMoves with
  | arrives x =>
    refine ⟨h, Nat.le_refl _, [.arrived x], rfl, by simp [ProgramEvent.command], ?_⟩
    simp [motions, ProgramEvent.motion]
  | emits =>
    refine ⟨h, Nat.le_refl _, [.emitted e.program.outputs], rfl, by simp [ProgramEvent.command], ?_⟩
    simp [motions, ProgramEvent.motion]
  | main moves => exact h.main moves
  | speed moves => exact h.speed moves
  | kin solution moves => exact h.kin moves

/-- The threads are to end exactly after a stop. -/
structure Stopping (e : Execution) : Prop where
  iff_stopped : e.program.keepRunning = false ↔ .stopped ∈ e.history
  ending : e.program.keepRunning = false → e.Ending

theorem Stopping.kept {e f : Execution} {told : List ProgramEvent} (h : e.Stopping)
    (hHistory : f.history = e.history ++ told) (hTold : .stopped ∉ told)
    (hKeep : f.program.keepRunning = e.program.keepRunning) (hEnding : e.Ending → f.Ending) : f.Stopping := by
  constructor
  · rw [hKeep, h.iff_stopped, hHistory, List.mem_append, or_iff_left hTold]
  · intro hStop
    exact hEnding (h.ending (hKeep ▸ hStop))

theorem Stopping.step {e f : Execution} {a : ProgramAction} (h : e.Stopping) (hMoves : Moves e a f) : f.Stopping := by
  have hEnding : e.Ending → f.Ending := fun hEnding => (hEnding.winds hMoves).ending
  cases hMoves with
  | arrives x => exact h.kept rfl (by simp) rfl hEnding
  | emits => exact h.kept rfl (by simp) rfl hEnding
  | main moves =>
    cases moves with
    | stops at_ =>
      constructor
      · exact ⟨fun _ => List.mem_append_right _ (List.mem_singleton_self _), fun _ => rfl⟩
      · exact fun _ => ⟨rfl, Or.inl rfl⟩
    | _ => exact h.kept rfl (by simp) rfl hEnding
  | speed moves =>
    refine h.kept rfl ?_ moves.mainKept.keepRunning hEnding
    cases moves <;> simp
  | kin solution moves => exact h.kept (List.append_nil _).symm nofun moves.mainKept.keepRunning hEnding

theorem step_of_isSome {e : Execution} {a : ProgramAction} (h : (e.program.next a).isSome = true) :
    ∃ f, Step e a f := by
  obtain ⟨q, hNext⟩ := Option.isSome_iff_exists.mp h
  exact ⟨_, by rw [Step, next, hNext, Option.map_some]⟩

/-- Some thread can go on, or all three have ended. -/
theorem thread_steps_or_ended (e : Execution) :
    (∃ a f, isThread a = true ∧ Step e a f) ∨
      (e.program.mainAt = .closed ∧ e.program.speedAt = .closed ∧ e.program.kinAt = .closed) := by
  by_cases hMain : e.program.mainAt = .closed
  · by_cases hSpeed : e.program.speedAt = .closed
    · by_cases hKin : e.program.kinAt = .closed
      · exact Or.inr ⟨hMain, hSpeed, hKin⟩
      · obtain ⟨f, hStep⟩ := step_of_isSome (a := .kin zeros) (Program.kin_isSome hKin zeros)
        exact Or.inl ⟨_, f, rfl, hStep⟩
    · obtain ⟨f, hStep⟩ := step_of_isSome (a := .speed) (Program.speed_isSome hSpeed)
      exact Or.inl ⟨_, f, rfl, hStep⟩
  · obtain ⟨f, hStep⟩ := step_of_isSome (a := .main) (Program.main_isSome hMain)
    exact Or.inl ⟨_, f, rfl, hStep⟩

theorem sampling_of_run {inputs : Inputs} {outputs : Outputs} {e : Execution} {actions : List ProgramAction}
    (hRun : Path Step (start inputs outputs) actions e) : e.Sampling := by
  refine invariant hRun ⟨?_, fun _ => Or.inl rfl, ?_, AtEach.nil, ?_, AtEach.nil⟩ fun _ _ _ => Sampling.step
  · exact nofun
  · exact nofun
  · exact ⟨nofun, nofun⟩

theorem stopping_of_run {inputs : Inputs} {outputs : Outputs} {e : Execution} {actions : List ProgramAction}
    (hRun : Path Step (start inputs outputs) actions e) : e.Stopping :=
  invariant hRun ⟨⟨nofun, nofun⟩, nofun⟩ fun _ _ _ => Stopping.step

/-- Each motion is with the velocity that was the newest at some time after the last motion, or stands still after a
stop, and none comes after the joints have been halted. -/
theorem motions_are_newest {inputs : Inputs} {outputs : Outputs} {e : Execution} {actions : List ProgramAction}
    {before after : List ProgramEvent} {qd : Vec} (hRun : Path Step (start inputs outputs) actions e)
    (hMoved : e.history = before ++ .moved qd :: after) :
    (Sampled before qd ∨ Cleared before qd) ∧ .halted ∉ before := by
  have hSampling := sampling_of_run hRun
  exact ⟨hSampling.moved before _ after hMoved qd rfl, hSampling.last before _ after hMoved qd rfl⟩

theorem motions_are_newest_after_one : ∃ before qd, qd 0 = 5 ∧
    (Sampled before qd ∨ Cleared before qd) ∧ .halted ∉ before := by
  have hRun : runWhile (fun _ _ => true) Execution.next (start (speedPackage 1 fun _ => 5) ⟨0, 0, zeros⟩)
      [.main, .main, .main, .main, .main, .main, .main, .main, .main, .speed, .speed, .speed] = some _ := rfl
  exact ⟨_, _, rfl, motions_are_newest (path_of_runWhile hRun).of_restrict rfl⟩

/-- After a stop the threads take at most fifteen steps and end, with the joints halted. The joints move at most once
more, and no further command is taken. -/
theorem stop_ends_the_program {inputs : Inputs} {outputs : Outputs} {e f : Execution}
    {actions more : List ProgramAction} (hRun : Path Step (start inputs outputs) actions e)
    (hStopped : .stopped ∈ e.history) (hMore : Path Step e more f) :
    more.countP isThread ≤ 15 ∧
      (∃ told, f.history = e.history ++ told ∧ (∀ event ∈ told, event.command = false) ∧ (motions told).length ≤ 1) ∧
      ((∃ a g, isThread a = true ∧ Step f a g) ∨
        (f.program.mainAt = .closed ∧ f.program.speedAt = .closed ∧ f.program.kinAt = .closed ∧
          .halted ∈ f.history)) := by
  have hStopping := stopping_of_run hRun
  have hEnding : e.Ending := hStopping.ending (hStopping.iff_stopped.mpr hStopped)
  have hSampling : f.Sampling := hMore.invariant (fun _ _ _ h hStep => h.step (moves_of_step hStep)) (sampling_of_run hRun)
  refine ⟨?_, ?_, ?_⟩
  · have hCount : f.left + more.countP isThread ≤ e.left := by
      refine (countP_le_of_path ?_ hMore hEnding).2
      intro _ _ _ h hStep
      exact ⟨(h.winds (moves_of_step hStep)).ending, (h.winds (moves_of_step hStep)).less⟩
    exact (Nat.le_of_add_left_le hCount).trans e.left_le
  · have hTold : f.Ending ∧ ∃ told, f.history = e.history ++ told ∧ (∀ event ∈ told, event.command = false) ∧
        (motions told).length + motionsLeft f.program.speedAt ≤ motionsLeft e.program.speedAt := by
      refine hMore.invariant (p := fun f => f.Ending ∧ ∃ told, f.history = e.history ++ told ∧
        (∀ event ∈ told, event.command = false) ∧
        (motions told).length + motionsLeft f.program.speedAt ≤ motionsLeft e.program.speedAt) ?_ ?_
      · rintro f a g ⟨hF, told, hHistory, hNone, hLeft⟩ hStep
        obtain ⟨hG, -, later, hLater, hNoneLater, hLeftLater⟩ := hF.winds (moves_of_step hStep)
        refine ⟨hG, told ++ later, ?_, ?_, ?_⟩
        · rw [hLater, hHistory, List.append_assoc]
        · intro event hEvent
          exact (List.mem_append.mp hEvent).elim (hNone event) (hNoneLater event)
        · rw [motions_append, List.length_append]
          omega
      · exact ⟨hEnding, [], (List.append_nil _).symm, nofun, Nat.le_of_eq (Nat.zero_add _)⟩
    obtain ⟨-, told, hHistory, hNone, hLeft⟩ := hTold
    refine ⟨told, hHistory, hNone, ?_⟩
    have hOne : motionsLeft e.program.speedAt ≤ 1 := by cases e.program.speedAt <;> simp [motionsLeft]
    omega
  · refine (thread_steps_or_ended f).imp_right fun hEnded => ?_
    exact ⟨hEnded.1, hEnded.2.1, hEnded.2.2, hSampling.halted.mp hEnded.2.1⟩

def speedThenStop : List ProgramAction :=
  List.replicate 10 .main ++ [.speed, .arrive (stopPackage 2), .main, .main, .main]

def afterStop : List ProgramAction :=
  [.speed, .arrive (speedPackage 3 fun _ => 9), .speed, .main, .kin zeros, .main, .speed]

/-- The stop comes while the joints are about to move, and a speed command comes behind it. -/
theorem stop_ends_the_program_at_once : ∃ e f,
    Path Step (start (speedPackage 1 fun _ => 5) ⟨0, 0, zeros⟩) speedThenStop e ∧ Path Step e afterStop f ∧
    (motions e.history).length = 0 ∧ (motions f.history).length = 1 ∧
    f.program.mainAt = .closed ∧ f.program.speedAt = .closed ∧ f.program.kinAt = .closed ∧ .halted ∈ f.history := by
  have hRuns : ((runWhile (fun _ _ => true) Execution.next (start (speedPackage 1 fun _ => 5) ⟨0, 0, zeros⟩)
      speedThenStop).bind fun e => (runWhile (fun _ _ => true) Execution.next e afterStop).map fun f =>
        ((e.program.keepRunning, (motions e.history).length, (motions f.history).length),
          f.program.mainAt, f.program.speedAt, f.program.kinAt)) =
      some ((false, 0, 1), .closed, .closed, .closed) := by decide +kernel
  obtain ⟨e, hBefore, hRest⟩ := Option.bind_eq_some_iff.mp hRuns
  obtain ⟨f, hAfter, hEnd⟩ := Option.map_eq_some_iff.mp hRest
  simp only [Prod.mk.injEq] at hEnd
  obtain ⟨⟨hKeep, hNone, hOne⟩, hMain, hSpeed, hKin⟩ := hEnd
  have hRun := (path_of_runWhile hBefore).of_restrict
  have hMore := (path_of_runWhile hAfter).of_restrict
  have hStopped : .stopped ∈ e.history := (stopping_of_run hRun).iff_stopped.mp hKeep
  refine ⟨e, f, hRun, hMore, hNone, hOne, ?_⟩
  rcases (stop_ends_the_program hRun hStopped hMore).2.2 with ⟨a, g, hThread, hStep⟩ | hEnded
  · exfalso
    cases a with
    | main => simp [Step, Execution.next, Program.next, Program.main, hMain] at hStep
    | speed => simp [Step, Execution.next, Program.next, Program.speed, hSpeed] at hStep
    | kin => simp [Step, Execution.next, Program.next, Program.kin, hKin] at hStep
    | arrive | emit => cases hThread
  · exact hEnded

end Execution

end LibUrx.Controller
