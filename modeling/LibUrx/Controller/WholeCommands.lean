import LibUrx.Controller.Polls

/-! # Commands carried out whole

The main thread reads a package register by register. While no package comes in between the first register and the
answer, what it carries out are the commands of packages, each as it was sent.
-/
namespace LibUrx.Controller
open Runs Histories
set_option autoImplicit false

/-- What is to be done about a package. -/
def effect (x : Inputs) : List ProgramEvent :=
  if x.cmd = 1 then [.stopped] else if x.cmd = 2 then [.tookSpeeds x.qd]
  else if x.cmd = 3 then [.tookPose x.seqnr x.tcpPose] else []

def pass (x : Inputs) : List ProgramEvent := .polled x.seqnr :: effect x

namespace Execution

def commands (e : Execution) : List ProgramEvent := e.history.filter ProgramEvent.command

/-- No package comes in while the main thread is at one. -/
def Quiet (e : Execution) (a : ProgramAction) : Prop := ∀ x, a = .arrive x → ¬ e.Busy

/-- How much of the package in the registers has been dealt with. -/
def Reading (p : Program) (told : List ProgramEvent) : Prop :=
  match p.mainAt with
  | .poll | .closed => told = []
  | .command => told = [.polled p.inputs.seqnr]
  | .stop => told = [.polled p.inputs.seqnr] ∧ p.inputs.cmd = 1
  | .speeds read => told = [.polled p.inputs.seqnr] ∧ p.inputs.cmd = 2 ∧ ∀ i : Fin 6, i < read → p.qd i = p.inputs.qd i
  | .pose read => told = [.polled p.inputs.seqnr] ∧ p.inputs.cmd = 3 ∧
      ∀ i : Fin 6, i < read → p.tcpPose i = p.inputs.tcpPose i
  | .answer => told = pass p.inputs

/-- The packages that have been answered, and the one that the main thread is at. -/
structure Whole (inputs : Inputs) (outputs : Outputs) (e : Execution) (done : List Inputs)
    (told : List ProgramEvent) : Prop where
  carried : e.commands = done.flatMap pass ++ told
  reading : Reading e.program told
  answered : e.program.outputs.seqnr = newest outputs.seqnr (done.map (·.seqnr))
  busy : e.Busy → e.program.seqnr = e.program.inputs.seqnr ∧ e.program.oldSeqnr = e.program.inputs.seqnr
  old : done.Sublist (inputs :: e.arrivals)
  current : e.Busy ∨ e.program.inputs.seqnr ≠ e.program.oldSeqnr →
    (done ++ [e.program.inputs]).Sublist (inputs :: e.arrivals)

/-- A step inside a pass. -/
theorem Whole.inside {inputs : Inputs} {outputs : Outputs} {e f : Execution} {done : List Inputs}
    {told more : List ProgramEvent} (h : e.Whole inputs outputs done told) (hHistory : f.history = e.history ++ more)
    (hE : e.Busy) (hArrivals : more.filterMap ProgramEvent.arrival = []) (hMore : ∀ event ∈ more, event.command = true)
    (hInputs : f.program.inputs = e.program.inputs) (hSeqnr : f.program.seqnr = e.program.seqnr)
    (hOld : f.program.oldSeqnr = e.program.oldSeqnr) (hAnswer : f.program.outputs.seqnr = e.program.outputs.seqnr)
    (hReading : Reading f.program (told ++ more)) : f.Whole inputs outputs done (told ++ more) := by
  have hSame : f.arrivals = e.arrivals := by
    rw [arrivals, arrivals, hHistory, List.filterMap_append, hArrivals, List.append_nil]
  constructor
  · rw [commands, hHistory, List.filter_append, List.filter_eq_self.mpr hMore, ← List.append_assoc, ← h.carried]
    rfl
  · exact hReading
  · rw [hAnswer]
    exact h.answered
  · intro _
    rw [hSeqnr, hOld, hInputs]
    exact h.busy hE
  · rw [hSame]
    exact h.old
  · intro _
    rw [hSame, hInputs]
    exact h.current (Or.inl hE)

/-- A step that leaves the main thread where it is. -/
theorem Whole.aside {inputs : Inputs} {outputs : Outputs} {e f : Execution} {done : List Inputs}
    {told more : List ProgramEvent} (h : e.Whole inputs outputs done told) (hHistory : f.history = e.history ++ more)
    (hMore : ∀ event ∈ more, event.command = false ∧ event.arrival = none) (hKept : e.program.MainKept f.program) :
    f.Whole inputs outputs done told := by
  have hArrivals : f.arrivals = e.arrivals := by
    rw [arrivals, arrivals, hHistory, List.filterMap_append,
      List.filterMap_eq_nil_iff.mpr fun event hEvent => (hMore event hEvent).2, List.append_nil]
  have hNone : more.filter ProgramEvent.command = [] :=
    List.filter_eq_nil_iff.mpr fun event hEvent => by simp [(hMore event hEvent).1]
  have hCommands : f.commands = e.commands := by
    rw [commands, commands, hHistory, List.filter_append, hNone, List.append_nil]
  have hBusy : f.Busy ↔ e.Busy := by rw [Busy, Busy, hKept.mainAt]
  constructor
  · rw [hCommands]
    exact h.carried
  · have hReading := h.reading
    unfold Reading at hReading ⊢
    rw [hKept.mainAt, hKept.inputs, hKept.qd, hKept.tcpPose]
    exact hReading
  · rw [hKept.answered]
    exact h.answered
  · rw [hBusy, hKept.seqnr, hKept.inputs, hKept.oldSeqnr]
    exact h.busy
  · rw [hArrivals]
    exact h.old
  · rw [hBusy, hArrivals, hKept.inputs, hKept.oldSeqnr]
    exact h.current

theorem reading_iff_of_idle {e : Execution} (hIdle : ¬ e.Busy) (told : List ProgramEvent) :
    Reading e.program told ↔ told = [] := by
  by_cases hPoll : e.program.mainAt = .poll
  · simp [Reading, hPoll]
  · by_cases hClosed : e.program.mainAt = .closed
    · simp [Reading, hClosed]
    · exact absurd ⟨hPoll, hClosed⟩ hIdle

/-- A step between two passes. -/
theorem Whole.rests {inputs : Inputs} {outputs : Outputs} {e f : Execution} {done : List Inputs}
    (h : e.Whole inputs outputs done []) (hHistory : f.history = e.history) (hIdle : ¬ f.Busy)
    (hInputs : f.program.inputs = e.program.inputs) (hOld : f.program.oldSeqnr = e.program.oldSeqnr)
    (hAnswer : f.program.outputs.seqnr = e.program.outputs.seqnr) : f.Whole inputs outputs done [] := by
  have hArrivals : f.arrivals = e.arrivals := by rw [arrivals, arrivals, hHistory]
  constructor
  · rw [commands, hHistory]
    exact h.carried
  · exact (reading_iff_of_idle hIdle []).mpr rfl
  · rw [hAnswer]
    exact h.answered
  · exact fun hBusy => absurd hBusy hIdle
  · rw [hArrivals]
    exact h.old
  · rw [hArrivals, hInputs, hOld]
    exact fun hNew => h.current (Or.inr (hNew.resolve_left hIdle))

theorem Whole.arrives {inputs x : Inputs} {outputs : Outputs} {e : Execution} {done : List Inputs}
    (h : e.Whole inputs outputs done []) (hIdle : ¬ e.Busy) :
    Whole inputs outputs ⟨{ e.program with inputs := x }, e.history ++ [.arrived x]⟩ done [] := by
  have hArrivals : arrivals ⟨{ e.program with inputs := x }, e.history ++ [.arrived x]⟩ = e.arrivals ++ [x] := by
    simp [arrivals, ProgramEvent.arrival]
  have hCommands : commands ⟨{ e.program with inputs := x }, e.history ++ [.arrived x]⟩ = e.commands := by
    simp [commands, ProgramEvent.command]
  have hStill : ¬ Busy ⟨{ e.program with inputs := x }, e.history ++ [.arrived x]⟩ := hIdle
  constructor
  · rw [hCommands]
    exact h.carried
  · exact (reading_iff_of_idle hStill []).mpr rfl
  · exact h.answered
  · exact fun hBusy => absurd hBusy hStill
  · rw [hArrivals]
    exact h.old.trans (List.sublist_append_left (inputs :: e.arrivals) [x])
  · intro _
    rw [hArrivals]
    exact h.old.append (List.Sublist.refl [x])

theorem Whole.main {inputs : Inputs} {outputs : Outputs} {e : Execution} {done : List Inputs}
    {told more : List ProgramEvent} {q : Program} (h : e.Whole inputs outputs done told)
    (hMoves : e.program.MainMoves more q) :
    ∃ done told, Whole inputs outputs ⟨q, e.history ++ more⟩ done told := by
  have hReading := h.reading
  cases hMoves with
  | closes at_ keep =>
    obtain rfl := (reading_iff_of_idle (not_busy_of_poll at_) told).mp hReading
    exact ⟨done, [], h.rests (List.append_nil _) (not_busy_of_closed rfl) rfl rfl rfl⟩
  | waits at_ keep same =>
    obtain rfl := (reading_iff_of_idle (not_busy_of_poll at_) told).mp hReading
    exact ⟨done, [], h.rests (List.append_nil _) (not_busy_of_poll at_) rfl rfl rfl⟩
  | polls at_ keep new =>
    obtain rfl := (reading_iff_of_idle (not_busy_of_poll at_) told).mp hReading
    have hCarried := h.carried
    have hArrivals : arrivals ⟨{ e.program with
        seqnr := e.program.inputs.seqnr, oldSeqnr := e.program.inputs.seqnr, mainAt := .command },
        e.history ++ [.polled e.program.inputs.seqnr]⟩ = e.arrivals := by
      simp [arrivals, ProgramEvent.arrival]
    refine ⟨done, [.polled e.program.inputs.seqnr], ?_, rfl, h.answered, fun _ => ⟨rfl, rfl⟩, ?_, ?_⟩
    · rw [List.append_nil] at hCarried
      simp [commands, ProgramEvent.command, ← hCarried]
    · rw [hArrivals]
      exact h.old
    · intro _
      rw [hArrivals]
      exact h.current (Or.inr new)
  | commands at_ there which =>
    have hE : e.Busy := busy_of_at at_ (by simp) (by simp)
    simp only [Reading, at_] at hReading
    refine ⟨done, told ++ [], h.inside rfl hE rfl (List.forall_mem_nil _) rfl rfl rfl rfl ?_⟩
    rw [List.append_nil, hReading]
    rcases which with ⟨hCmd, rfl⟩ | ⟨hCmd, rfl⟩ | ⟨hCmd, rfl⟩ | ⟨hStop, hSpeeds, hPose, rfl⟩
    · exact ⟨rfl, hCmd⟩
    · exact ⟨rfl, hCmd, fun i hI => absurd hI (Nat.not_lt_zero _)⟩
    · exact ⟨rfl, hCmd, fun i hI => absurd hI (Nat.not_lt_zero _)⟩
    · simp [Reading, pass, effect, hStop, hSpeeds, hPose]
  | stops at_ =>
    have hE : e.Busy := busy_of_at at_ (by simp) (by simp)
    simp only [Reading, at_] at hReading
    obtain ⟨rfl, hCmd⟩ := hReading
    refine ⟨done, _, h.inside rfl hE rfl (by simp [ProgramEvent.command]) rfl rfl rfl rfl ?_⟩
    simp [Reading, pass, effect, hCmd]
  | readsSpeed i at_ =>
    have hE : e.Busy := busy_of_at at_ (by simp) (by simp)
    simp only [Reading, at_] at hReading
    obtain ⟨rfl, hCmd, hRead⟩ := hReading
    refine ⟨done, _, h.inside rfl hE rfl (List.forall_mem_nil _) rfl rfl rfl rfl ?_⟩
    exact ⟨rfl, hCmd, update_of_read hRead⟩
  | takesSpeeds read at_ all =>
    have hE : e.Busy := busy_of_at at_ (by simp) (by simp)
    simp only [Reading, at_] at hReading
    obtain ⟨rfl, hCmd, hRead⟩ := hReading
    refine ⟨done, _, h.inside rfl hE rfl (by simp [ProgramEvent.command]) rfl rfl rfl rfl ?_⟩
    simp [Reading, pass, effect, hCmd, eq_of_read hRead all]
  | readsPose i at_ =>
    have hE : e.Busy := busy_of_at at_ (by simp) (by simp)
    simp only [Reading, at_] at hReading
    obtain ⟨rfl, hCmd, hRead⟩ := hReading
    refine ⟨done, _, h.inside rfl hE rfl (List.forall_mem_nil _) rfl rfl rfl rfl ?_⟩
    exact ⟨rfl, hCmd, update_of_read hRead⟩
  | takesPose read at_ all =>
    have hE : e.Busy := busy_of_at at_ (by simp) (by simp)
    simp only [Reading, at_] at hReading
    obtain ⟨rfl, hCmd, hRead⟩ := hReading
    refine ⟨done, _, h.inside rfl hE rfl (by simp [ProgramEvent.command]) rfl rfl rfl rfl ?_⟩
    simp [Reading, pass, effect, hCmd, eq_of_read hRead all, (h.busy hE).1]
  | answers at_ =>
    have hE : e.Busy := busy_of_at at_ (by simp) (by simp)
    simp only [Reading, at_] at hReading
    obtain ⟨hSeqnr, hOld⟩ := h.busy hE
    refine ⟨done ++ [e.program.inputs], [], ?_, rfl, ?_, ?_, ?_, ?_⟩
    · simp [commands, ← hReading, ← h.carried]
    · rw [List.map_append, List.map_singleton, newest_concat]
      exact hSeqnr
    · exact fun hBusy => absurd hBusy (not_busy_of_poll rfl)
    · simpa [arrivals] using h.current (Or.inl hE)
    · rintro (hBusy | hNew)
      · exact absurd hBusy (not_busy_of_poll rfl)
      · exact absurd hOld.symm hNew

theorem Whole.step {inputs : Inputs} {outputs : Outputs} {e f : Execution} {a : ProgramAction} {done : List Inputs}
    {told : List ProgramEvent} (h : e.Whole inputs outputs done told) (hQuiet : e.Quiet a) (hMoves : Moves e a f) :
    ∃ done told, f.Whole inputs outputs done told := by
  cases hMoves with
  | arrives x =>
    have hIdle := hQuiet x rfl
    obtain rfl := (reading_iff_of_idle hIdle told).mp h.reading
    exact ⟨done, [], h.arrives hIdle⟩
  | emits =>
    exact ⟨done, told, h.aside rfl (by simp [ProgramEvent.command, ProgramEvent.arrival])
      ⟨rfl, rfl, rfl, rfl, rfl, rfl, rfl, rfl⟩⟩
  | main moves => exact h.main moves
  | speed moves =>
    refine ⟨done, told, h.aside rfl ?_ moves.mainKept⟩
    cases moves <;> simp [ProgramEvent.command, ProgramEvent.arrival]
  | kin solution moves => exact ⟨done, told, h.aside (List.append_nil _).symm (List.forall_mem_nil _) moves.mainKept⟩

/-- A package that comes in during a pass leaves a velocity that no package has. -/
theorem package_in_between_is_mixed : ∃ e : Execution, ∃ qd : Vec, ∃ before actions,
    Path Step (start (speedPackage 1 fun _ => 5) ⟨0, 0, zeros⟩) actions e ∧ e.arrivals = [speedPackage 2 fun _ => 6] ∧
    e.history = before ++ [.tookSpeeds qd] ∧ qd 0 = 5 ∧ qd 1 = 6 := by
  have hRun : runWhile (fun _ _ => true) Execution.next (start (speedPackage 1 fun _ => 5) ⟨0, 0, zeros⟩)
      [.main, .main, .main, .arrive (speedPackage 2 fun _ => 6), .main, .main, .main, .main, .main, .main] = some _ := rfl
  exact ⟨_, _, _, _, (path_of_runWhile hRun).of_restrict, rfl, rfl, rfl, rfl⟩

end Execution

end LibUrx.Controller
