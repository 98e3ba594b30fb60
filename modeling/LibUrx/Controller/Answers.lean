import LibUrx.Base.Histories
import LibUrx.Controller.Program

/-! # Answers to pose commands

The solving thread writes six registers and then the number of the pose that it has solved. Where that is the number of
the last pose command, the six registers solve the pose of that command, whenever packages come in and however the
steps of the threads fall.
-/
namespace LibUrx.Controller
open Runs Histories
set_option autoImplicit false

namespace Program

/-- What `get_inverse_kin` returns belongs to the pose that it was given. -/
def Solves (solves : Vec → Vec → Prop) (p : Program) (a : ProgramAction) : Prop :=
  ∀ solution, a = .kin solution → p.kinAt = .solve → solves p.kinPose solution

/-- The solving thread has a pose that it has yet to answer. -/
def AtWork (p : Program) : Prop := p.kinAt = .solve ∨ ∃ written, p.kinAt = .write written

/-- The number is nowhere behind the main thread. -/
structure NoLabel (n : UInt32) (p : Program) : Prop where
  waiting : p.updatedTTcpPose = true → p.tTcpPoseSeqnr ≠ n
  solving : p.AtWork → p.kinPoseSeqnr ≠ n
  answered : p.outputs.qRefSeqnr ≠ n
  flag : p.doCalculations = true → p.AtWork

/-- The main thread may take a pose, but not under this number. -/
def MainClean (n : UInt32) (p : Program) : Prop :=
  (p.mainAt = .command ∨ ∃ read, p.mainAt = .pose read) → p.seqnr ≠ n

/-- The main thread takes no further pose. -/
structure Past (n : UInt32) (p : Program) : Prop where
  old : p.oldSeqnr = n ∨ p.inputs.seqnr ≠ n
  noPose : ∀ read, p.mainAt ≠ .pose read
  noCommand : p.mainAt = .command → p.inputs.cmd ≠ 3

/-- How far the last pose command has come. -/
inductive Stage (n : UInt32) (pose : Vec) (solves : Vec → Vec → Prop) (p : Program) : Prop where
  | unread (main : p.MainClean n) (rest : p.NoLabel n)
  | reading (seqnr : p.seqnr = n) (old : p.oldSeqnr = n)
      (at_ : p.mainAt = .command ∨ ∃ read, p.mainAt = .pose read ∧ ∀ i : Fin 6, i < read → p.tcpPose i = pose i)
      (rest : p.NoLabel n)
  | waiting (past : p.Past n) (updated : p.updatedTTcpPose = true) (seqnr : p.tTcpPoseSeqnr = n)
      (taken : p.tTcpPose = pose) (solving : p.AtWork → p.kinPoseSeqnr ≠ n) (answered : p.outputs.qRefSeqnr ≠ n)
      (flag : p.doCalculations = true → p.AtWork)
  | solving (past : p.Past n) (same : p.updatedTTcpPose = false) (seqnr : p.kinPoseSeqnr = n)
      (taken : p.kinPose = pose) (answered : p.outputs.qRefSeqnr ≠ n)
      (at_ : p.kinAt = .solve ∨ ∃ written, p.kinAt = .write written ∧ solves pose p.kinQRef ∧
        ∀ i : Fin 6, i < written → p.outputs.qRef i = p.kinQRef i)
  | answered (past : p.Past n) (same : p.updatedTTcpPose = false) (rests : ¬ p.AtWork)
      (solved : solves pose p.outputs.qRef) (flag : p.doCalculations = false)

/-- The last pose command has come in. -/
structure Given (n : UInt32) (pose : Vec) (solves : Vec → Vec → Prop) (p : Program) : Prop where
  registers : p.inputs.tcpPose = pose
  only : p.inputs.cmd = 3 → p.inputs.seqnr = n
  stage : p.Stage n pose solves

theorem not_atWork_of_loop {p : Program} (h : p.kinAt = .loop) : ¬ p.AtWork := by
  rintro (hAt | ⟨_, hAt⟩) <;> rw [h] at hAt <;> cases hAt

theorem not_atWork_of_take {p : Program} (h : p.kinAt = .take) : ¬ p.AtWork := by
  rintro (hAt | ⟨_, hAt⟩) <;> rw [h] at hAt <;> cases hAt

theorem not_atWork_of_closed {p : Program} (h : p.kinAt = .closed) : ¬ p.AtWork := by
  rintro (hAt | ⟨_, hAt⟩) <;> rw [h] at hAt <;> cases hAt

theorem NoLabel.kin {n : UInt32} {p q : Program} {solution : Vec} (h : p.NoLabel n) (hMoves : p.KinMoves solution q) :
    q.NoLabel n := by
  cases hMoves with
  | goesOn at_ keep =>
    have hNoFlag := mt h.flag (not_atWork_of_loop at_)
    exact ⟨h.waiting, fun hWork => absurd hWork (not_atWork_of_take rfl), h.answered, fun hFlag => absurd hFlag hNoFlag⟩
  | ends at_ keep =>
    have hNoFlag := mt h.flag (not_atWork_of_loop at_)
    exact ⟨h.waiting, fun hWork => absurd hWork (not_atWork_of_closed rfl), h.answered,
      fun hFlag => absurd hFlag hNoFlag⟩
  | takes at_ updated => exact ⟨nofun, fun _ => h.waiting updated, h.answered, fun _ => Or.inl rfl⟩
  | keeps at_ same =>
    have hNoFlag := mt h.flag (not_atWork_of_take at_)
    have hLoop : (if p.doCalculations = true then KinAt.solve else .loop) = .loop := if_neg hNoFlag
    exact ⟨h.waiting, fun hWork => absurd hWork (not_atWork_of_loop hLoop), h.answered,
      fun hFlag => absurd hFlag hNoFlag⟩
  | solves at_ => exact ⟨h.waiting, fun _ => h.solving (Or.inl at_), h.answered, fun _ => Or.inr ⟨0, rfl⟩⟩
  | writes i at_ => exact ⟨h.waiting, fun _ => h.solving (Or.inr ⟨i, at_⟩), h.answered, fun _ => Or.inr ⟨i + 1, rfl⟩⟩
  | numbers written at_ all =>
    exact ⟨h.waiting, fun hWork => absurd hWork (not_atWork_of_loop rfl), h.solving (Or.inr ⟨written, at_⟩), nofun⟩

theorem Stage.kin {n : UInt32} {pose : Vec} {solves : Vec → Vec → Prop} {p q : Program} {solution : Vec}
    (h : p.Stage n pose solves) (hSolves : p.kinAt = .solve → solves p.kinPose solution)
    (hMoves : p.KinMoves solution q) : q.Stage n pose solves := by
  have hKept := hMoves.mainKept
  have hPast : p.Past n → q.Past n := by
    intro hPast
    refine ⟨?_, ?_, ?_⟩
    · rw [hKept.oldSeqnr, hKept.inputs]
      exact hPast.old
    · rw [hKept.mainAt]
      exact hPast.noPose
    · rw [hKept.mainAt, hKept.inputs]
      exact hPast.noCommand
  cases h with
  | unread main rest =>
    refine .unread ?_ (rest.kin hMoves)
    rw [MainClean, hKept.mainAt, hKept.seqnr]
    exact main
  | reading seqnr old at_ rest =>
    refine .reading (hKept.seqnr.trans seqnr) (hKept.oldSeqnr.trans old) ?_ (rest.kin hMoves)
    rw [hKept.mainAt, hKept.tcpPose]
    exact at_
  | waiting past updated seqnr taken solving answered flag =>
    cases hMoves with
    | takes at_ _ => exact .solving (hPast past) rfl seqnr taken answered (Or.inl rfl)
    | keeps at_ same =>
      rw [updated] at same
      cases same
    | goesOn at_ keep =>
      have hNoFlag := mt flag (not_atWork_of_loop at_)
      exact .waiting (hPast past) updated seqnr taken (fun hWork => absurd hWork (not_atWork_of_take rfl)) answered
        fun hFlag => absurd hFlag hNoFlag
    | ends at_ keep =>
      have hNoFlag := mt flag (not_atWork_of_loop at_)
      exact .waiting (hPast past) updated seqnr taken (fun hWork => absurd hWork (not_atWork_of_closed rfl)) answered
        fun hFlag => absurd hFlag hNoFlag
    | solves at_ =>
      exact .waiting (hPast past) updated seqnr taken (fun _ => solving (Or.inl at_)) answered
        fun _ => Or.inr ⟨0, rfl⟩
    | writes i at_ =>
      exact .waiting (hPast past) updated seqnr taken (fun _ => solving (Or.inr ⟨i, at_⟩)) answered
        fun _ => Or.inr ⟨i + 1, rfl⟩
    | numbers written at_ all =>
      exact .waiting (hPast past) updated seqnr taken (fun hWork => absurd hWork (not_atWork_of_loop rfl))
        (solving (Or.inr ⟨written, at_⟩)) nofun
  | solving past same seqnr taken answered at_ =>
    cases hMoves with
    | goesOn there | ends there | takes there | keeps there =>
      rcases at_ with hAt | ⟨_, hAt, -⟩ <;> rw [there] at hAt <;> cases hAt
    | solves there =>
      exact .solving (hPast past) same seqnr taken answered (Or.inr ⟨0, rfl, taken ▸ hSolves there, nofun⟩)
    | writes i there =>
      rcases at_ with hAt | ⟨written, hAt, hSolved, hWritten⟩
      · rw [there] at hAt
        cases hAt
      · obtain rfl : i.val = written := KinAt.write.inj (there.symm.trans hAt)
        exact .solving (hPast past) same seqnr taken answered
          (Or.inr ⟨i + 1, rfl, hSolved, update_of_read hWritten⟩)
    | numbers written there all =>
      rcases at_ with hAt | ⟨written', hAt, hSolved, hWritten⟩
      · rw [there] at hAt
        cases hAt
      · obtain rfl : written = written' := KinAt.write.inj (there.symm.trans hAt)
        refine .answered (hPast past) same (not_atWork_of_loop rfl) ?_ rfl
        rwa [eq_of_read hWritten all]
  | answered past same rests solved flag =>
    cases hMoves with
    | goesOn there keep => exact .answered (hPast past) same (not_atWork_of_take rfl) solved flag
    | ends there keep => exact .answered (hPast past) same (not_atWork_of_closed rfl) solved flag
    | takes there updated =>
      rw [same] at updated
      cases updated
    | keeps there _ =>
      have hLoop : (if p.doCalculations = true then KinAt.solve else .loop) = .loop := by rw [flag, if_neg Bool.false_ne_true]
      exact .answered (hPast past) same (not_atWork_of_loop hLoop) solved flag
    | solves there => exact absurd (Or.inl there) rests
    | writes i there => exact absurd (Or.inr ⟨i, there⟩) rests
    | numbers written there all => exact absurd (Or.inr ⟨written, there⟩) rests

theorem Stage.speed {n : UInt32} {pose : Vec} {solves : Vec → Vec → Prop} {p q : Program} {told : List ProgramEvent}
    (h : p.Stage n pose solves) (hMoves : p.SpeedMoves told q) : q.Stage n pose solves := by
  cases h with
  | unread main rest =>
    cases hMoves <;> exact .unread main ⟨rest.waiting, rest.solving, rest.answered, rest.flag⟩
  | reading seqnr old at_ rest =>
    cases hMoves <;> exact .reading seqnr old at_ ⟨rest.waiting, rest.solving, rest.answered, rest.flag⟩
  | waiting past updated seqnr taken solving answered flag =>
    cases hMoves <;>
      exact .waiting ⟨past.old, past.noPose, past.noCommand⟩ updated seqnr taken solving answered flag
  | solving past same seqnr taken answered at_ =>
    cases hMoves <;> exact .solving ⟨past.old, past.noPose, past.noCommand⟩ same seqnr taken answered at_
  | answered past same rests solved flag =>
    cases hMoves <;> exact .answered ⟨past.old, past.noPose, past.noCommand⟩ same rests solved flag

/-- What the main thread leaves to the solving thread as it is, where it takes no pose. -/
structure KinKept (p q : Program) : Prop where
  updatedTTcpPose : q.updatedTTcpPose = p.updatedTTcpPose
  tTcpPose : q.tTcpPose = p.tTcpPose
  tTcpPoseSeqnr : q.tTcpPoseSeqnr = p.tTcpPoseSeqnr
  kinAt : q.kinAt = p.kinAt
  kinQRef : q.kinQRef = p.kinQRef
  kinPose : q.kinPose = p.kinPose
  kinPoseSeqnr : q.kinPoseSeqnr = p.kinPoseSeqnr
  doCalculations : q.doCalculations = p.doCalculations
  qRef : q.outputs.qRef = p.outputs.qRef
  qRefSeqnr : q.outputs.qRefSeqnr = p.outputs.qRefSeqnr

theorem MainMoves.inputs {p q : Program} {told : List ProgramEvent} (h : p.MainMoves told q) :
    q.inputs = p.inputs := by
  cases h <;> rfl

theorem MainMoves.kinKept {p q : Program} {told : List ProgramEvent} (h : p.MainMoves told q)
    (hTakes : ∀ read, p.mainAt = .pose read → read < 6) : p.KinKept q := by
  cases h with
  | takesPose read at_ all => exact absurd (hTakes read at_) (Nat.not_lt.mpr all)
  | _ => exact ⟨rfl, rfl, rfl, rfl, rfl, rfl, rfl, rfl, rfl, rfl⟩

/-- Once past, the main thread stays past. -/
theorem Past.main {n : UInt32} {p q : Program} {told : List ProgramEvent} (h : p.Past n)
    (hOnly : p.inputs.cmd = 3 → p.inputs.seqnr = n) (hMoves : p.MainMoves told q) : q.Past n := by
  cases hMoves with
  | polls at_ keep new =>
    have hOther : p.inputs.seqnr ≠ n := by
      rcases h.old with hOld | hOther
      · rwa [← hOld]
      · exact hOther
    exact ⟨Or.inr hOther, nofun, fun _ hCmd => hOther (hOnly hCmd)⟩
  | commands at_ there which =>
    have hCmd := h.noCommand at_
    rcases which with ⟨-, rfl⟩ | ⟨-, rfl⟩ | ⟨hPose, -⟩ | ⟨-, -, -, rfl⟩
    · exact ⟨h.old, nofun, nofun⟩
    · exact ⟨h.old, nofun, nofun⟩
    · exact absurd hPose hCmd
    · exact ⟨h.old, nofun, nofun⟩
  | readsPose i at_ => exact absurd at_ (h.noPose i)
  | takesPose read at_ all => exact absurd at_ (h.noPose read)
  | waits at_ keep same => exact ⟨h.old, h.noPose, h.noCommand⟩
  | closes | stops | readsSpeed | takesSpeeds | answers => exact ⟨h.old, nofun, nofun⟩

/-- The main thread under another number. -/
theorem NoLabel.main {n : UInt32} {p q : Program} {told : List ProgramEvent} (h : p.NoLabel n) (hClean : p.MainClean n)
    (hMoves : p.MainMoves told q) : q.NoLabel n := by
  cases hMoves with
  | takesPose read at_ all => exact ⟨fun _ => hClean (Or.inr ⟨read, at_⟩), h.solving, h.answered, h.flag⟩
  | _ => exact ⟨h.waiting, h.solving, h.answered, h.flag⟩

theorem MainClean.main {n : UInt32} {p q : Program} {told : List ProgramEvent} (h : p.MainClean n)
    (hOther : ¬ (p.inputs.seqnr = n ∧ p.mainAt = .poll ∧ q.mainAt = .command)) (hMoves : p.MainMoves told q) :
    q.MainClean n := by
  cases hMoves with
  | polls at_ keep new => exact fun _ hSeqnr => hOther ⟨hSeqnr, at_, rfl⟩
  | commands at_ there which => exact fun _ => h (Or.inl at_)
  | readsPose i at_ => exact fun _ => h (Or.inr ⟨i, at_⟩)
  | waits at_ keep same =>
    rintro (hAt | ⟨_, hAt⟩) <;> rw [at_] at hAt <;> cases hAt
  | closes | stops | readsSpeed | takesSpeeds | takesPose | answers =>
    rintro (hAt | ⟨_, hAt⟩) <;> cases hAt

theorem Given.reading {n : UInt32} {pose : Vec} {solves : Vec → Vec → Prop} {p q : Program}
    {told : List ProgramEvent} (h : p.Given n pose solves) (hSeqnr : p.seqnr = n) (hOld : p.oldSeqnr = n)
    (hAt : p.mainAt = .command ∨ ∃ read, p.mainAt = .pose read ∧ ∀ i : Fin 6, i < read → p.tcpPose i = pose i)
    (hRest : p.NoLabel n) (hMoves : p.MainMoves told q) : q.Stage n pose solves := by
  cases hMoves with
  | commands there at_' which =>
    rcases which with ⟨-, rfl⟩ | ⟨-, rfl⟩ | ⟨-, rfl⟩ | ⟨-, -, -, rfl⟩
    · exact .unread (by rintro (hAt | ⟨_, hAt⟩) <;> cases hAt) ⟨hRest.waiting, hRest.solving, hRest.answered, hRest.flag⟩
    · exact .unread (by rintro (hAt | ⟨_, hAt⟩) <;> cases hAt) ⟨hRest.waiting, hRest.solving, hRest.answered, hRest.flag⟩
    · exact .reading hSeqnr hOld (Or.inr ⟨0, rfl, nofun⟩) ⟨hRest.waiting, hRest.solving, hRest.answered, hRest.flag⟩
    · exact .unread (by rintro (hAt | ⟨_, hAt⟩) <;> cases hAt) ⟨hRest.waiting, hRest.solving, hRest.answered, hRest.flag⟩
  | readsPose i there =>
    rcases hAt with hAt | ⟨read, hAt, hRead⟩
    · rw [there] at hAt
      cases hAt
    · obtain rfl : i.val = read := MainAt.pose.inj (there.symm.trans hAt)
      refine .reading hSeqnr hOld (Or.inr ⟨i + 1, rfl, ?_⟩) ⟨hRest.waiting, hRest.solving, hRest.answered, hRest.flag⟩
      rw [h.registers]
      exact update_of_read hRead
  | takesPose read there all =>
    rcases hAt with hAt | ⟨read', hAt, hRead⟩
    · rw [there] at hAt
      cases hAt
    · obtain rfl : read = read' := MainAt.pose.inj (there.symm.trans hAt)
      exact .waiting ⟨Or.inl hOld, nofun, nofun⟩ rfl hSeqnr (eq_of_read hRead all) hRest.solving hRest.answered
        hRest.flag
  | closes there | waits there | polls there | stops there | readsSpeed _ there | takesSpeeds _ there | answers there =>
    rcases hAt with hAt | ⟨_, hAt, -⟩ <;> rw [there] at hAt <;> cases hAt

theorem Given.main {n : UInt32} {pose : Vec} {solves : Vec → Vec → Prop} {p q : Program} {told : List ProgramEvent}
    (h : p.Given n pose solves) (hMoves : p.MainMoves told q) : q.Stage n pose solves := by
  cases h.stage with
  | unread main rest =>
    by_cases hPolls : p.inputs.seqnr = n ∧ p.mainAt = .poll ∧ q.mainAt = .command
    · obtain ⟨hSeqnr, hAt, hCommand⟩ := hPolls
      cases hMoves with
      | polls at_ keep new =>
        exact .reading hSeqnr hSeqnr (Or.inl rfl) ⟨rest.waiting, rest.solving, rest.answered, rest.flag⟩
      | waits at_ keep same =>
        rw [at_] at hCommand
        cases hCommand
      | commands at_ there which =>
        rw [at_] at hAt
        cases hAt
      | closes | stops | readsSpeed | takesSpeeds | readsPose | takesPose | answers => cases hCommand
    · exact .unread (main.main hPolls hMoves) (rest.main main hMoves)
  | reading seqnr old at_ rest => exact h.reading seqnr old at_ rest hMoves
  | waiting past updated seqnr taken solving answered flag =>
    have hKept := hMoves.kinKept fun read hAt => absurd hAt (past.noPose read)
    refine .waiting (past.main h.only hMoves) (hKept.updatedTTcpPose.trans updated) (hKept.tTcpPoseSeqnr.trans seqnr)
      (hKept.tTcpPose.trans taken) ?_ ?_ ?_
    · rw [AtWork, hKept.kinAt, hKept.kinPoseSeqnr]
      exact solving
    · rw [hKept.qRefSeqnr]
      exact answered
    · rw [AtWork, hKept.kinAt, hKept.doCalculations]
      exact flag
  | solving past same seqnr taken answered at_ =>
    have hKept := hMoves.kinKept fun read hAt => absurd hAt (past.noPose read)
    refine .solving (past.main h.only hMoves) (hKept.updatedTTcpPose.trans same) (hKept.kinPoseSeqnr.trans seqnr)
      (hKept.kinPose.trans taken) ?_ ?_
    · rw [hKept.qRefSeqnr]
      exact answered
    · rw [hKept.kinAt, hKept.kinQRef, hKept.qRef]
      exact at_
  | answered past same rests solved flag =>
    have hKept := hMoves.kinKept fun read hAt => absurd hAt (past.noPose read)
    refine .answered (past.main h.only hMoves) (hKept.updatedTTcpPose.trans same) ?_ ?_
      (hKept.doCalculations.trans flag)
    · rw [AtWork, hKept.kinAt]
      exact rests
    · rw [hKept.qRef]
      exact solved

/-- A package after the last pose command: no pose command, and with the same pose in its registers. -/
def Later (n : UInt32) (pose : Vec) (a : ProgramAction) : Prop :=
  ∀ y, a = .arrive y → y.cmd ≠ 3 ∧ y.tcpPose = pose ∧ y.seqnr ≠ n

theorem Past.arrives {n : UInt32} {p : Program} {y : Inputs} (h : p.Past n) (hCmd : y.cmd ≠ 3) (hSeqnr : y.seqnr ≠ n) :
    Past n { p with inputs := y } := ⟨Or.inr hSeqnr, h.noPose, fun _ => hCmd⟩

theorem Given.step {n : UInt32} {pose : Vec} {solves : Vec → Vec → Prop} {p q : Program} {a : ProgramAction}
    (h : p.Given n pose solves) (hSolves : p.Solves solves a) (hLater : Later n pose a) (hStep : Step p a q) :
    q.Given n pose solves := by
  cases a with
  | arrive y =>
    obtain rfl := Option.some.inj hStep
    obtain ⟨hCmd, hPose, hSeqnr⟩ := hLater y rfl
    refine ⟨hPose, fun hThree => absurd hThree hCmd, ?_⟩
    cases h.stage with
    | unread main rest => exact .unread main ⟨rest.waiting, rest.solving, rest.answered, rest.flag⟩
    | reading seqnr old at_ rest => exact .reading seqnr old at_ ⟨rest.waiting, rest.solving, rest.answered, rest.flag⟩
    | waiting past updated seqnr taken solving answered flag =>
      exact .waiting (past.arrives hCmd hSeqnr) updated seqnr taken solving answered flag
    | solving past same seqnr taken answered at_ =>
      exact .solving (past.arrives hCmd hSeqnr) same seqnr taken answered at_
    | answered past same rests solved flag => exact .answered (past.arrives hCmd hSeqnr) same rests solved flag
  | emit =>
    obtain rfl := Option.some.inj hStep
    exact h
  | main =>
    have hMoves := mainMoves_of_main hStep
    have hInputs := hMoves.inputs
    exact ⟨hInputs ▸ h.registers, hInputs ▸ h.only, h.main hMoves⟩
  | speed =>
    have hMoves := speedMoves_of_speed hStep
    have hInputs := hMoves.mainKept.inputs
    exact ⟨hInputs ▸ h.registers, hInputs ▸ h.only, h.stage.speed hMoves⟩
  | kin solution =>
    have hMoves := kinMoves_of_kin hStep
    have hInputs := hMoves.mainKept.inputs
    exact ⟨hInputs ▸ h.registers, hInputs ▸ h.only, h.stage.kin (hSolves solution rfl) hMoves⟩

/-- The number has not come in. -/
structure Unseen (n : UInt32) (p : Program) : Prop where
  other : p.inputs.seqnr ≠ n
  main : p.MainClean n
  rest : p.NoLabel n

theorem Unseen.step {n : UInt32} {p q : Program} {a : ProgramAction} (h : p.Unseen n)
    (hOther : ∀ y, a = .arrive y → y.seqnr ≠ n) (hStep : Step p a q) : q.Unseen n := by
  obtain ⟨hSeqnr, hMain, hRest⟩ := h
  cases a with
  | arrive y =>
    obtain rfl := Option.some.inj hStep
    exact ⟨hOther y rfl, hMain, ⟨hRest.waiting, hRest.solving, hRest.answered, hRest.flag⟩⟩
  | emit =>
    obtain rfl := Option.some.inj hStep
    exact ⟨hSeqnr, hMain, hRest⟩
  | main =>
    have hMoves := mainMoves_of_main hStep
    have hInputs := hMoves.inputs
    exact ⟨hInputs ▸ hSeqnr, hMain.main (fun hAll => hSeqnr hAll.1) hMoves, hRest.main hMain hMoves⟩
  | speed =>
    have hMoves := speedMoves_of_speed hStep
    generalize p.told .speed = told at hMoves
    cases hMoves <;> exact ⟨hSeqnr, hMain, ⟨hRest.waiting, hRest.solving, hRest.answered, hRest.flag⟩⟩
  | kin solution =>
    have hMoves := kinMoves_of_kin hStep
    have hKept := hMoves.mainKept
    refine ⟨hKept.inputs ▸ hSeqnr, ?_, hRest.kin hMoves⟩
    rw [MainClean, hKept.mainAt, hKept.seqnr]
    exact hMain

theorem Unseen.arrives {n : UInt32} {pose : Vec} {solves : Vec → Vec → Prop} {p : Program} (h : p.Unseen n)
    {x : Inputs} (hSeqnr : x.seqnr = n) (hPose : x.tcpPose = pose) : Given n pose solves { p with inputs := x } :=
  ⟨hPose, fun _ => hSeqnr, .unread h.main ⟨h.rest.waiting, h.rest.solving, h.rest.answered, h.rest.flag⟩⟩

/-- As long as no package bears the number, nothing in the program does. -/
theorem unseen_of_run {solves : Vec → Vec → Prop} {inputs : Inputs} {outputs : Outputs} {p : Program} {n : UInt32}
    {actions : List ProgramAction} (hRun : Path (Restrict (Solves solves) Step) (new inputs outputs) actions p)
    (hInputs : inputs.seqnr ≠ n) (hOutputs : outputs.qRefSeqnr ≠ n) (hOther : ∀ y, .arrive y ∈ actions → y.seqnr ≠ n) :
    p.Unseen n := by
  have hAllowed : Path (Restrict (fun _ a => ∀ y, a = .arrive y → y.seqnr ≠ n) (Restrict (Solves solves) Step))
      (new inputs outputs) actions p := path_restrict hRun fun a hA _ y hY => hOther y (hY ▸ hA)
  refine hAllowed.invariant (p := fun q => q.Unseen n) (fun _ _ _ h hStep => h.step hStep.1 hStep.2.2)
    ⟨hInputs, ?_, ?_⟩
  · rintro (hAt | ⟨_, hAt⟩) <;> cases hAt
  · exact ⟨nofun, fun hWork => absurd hWork (not_atWork_of_loop rfl), hOutputs, nofun⟩

/-- After the last pose command, with a number of its own, its stage is known. -/
theorem given_of_run {solves : Vec → Vec → Prop} {inputs x : Inputs} {outputs : Outputs} {p : Program}
    {before after : List ProgramAction}
    (hRun : Path (Restrict (Solves solves) Step) (new inputs outputs) (before ++ .arrive x :: after) p)
    (hInputs : inputs.seqnr ≠ x.seqnr) (hOutputs : outputs.qRefSeqnr ≠ x.seqnr)
    (hBefore : ∀ y, .arrive y ∈ before → y.seqnr ≠ x.seqnr)
    (hAfter : ∀ y, .arrive y ∈ after → y.cmd ≠ 3 ∧ y.tcpPose = x.tcpPose ∧ y.seqnr ≠ x.seqnr) :
    p.Given x.seqnr x.tcpPose solves := by
  obtain ⟨q, hOlder, hNewer⟩ := path_append hRun
  have hUnseen := unseen_of_run hOlder hInputs hOutputs hBefore
  cases hNewer with
  | cons head tail =>
    obtain rfl := Option.some.inj head.2
    have hAllowed : Path (Restrict (fun _ a => Later x.seqnr x.tcpPose a) (Restrict (Solves solves) Step))
        { q with inputs := x } after p := path_restrict tail fun a hA _ y hY => hAfter y (hY ▸ hA)
    refine hAllowed.invariant (p := fun q => q.Given x.seqnr x.tcpPose solves) ?_ (hUnseen.arrives rfl rfl)
    exact fun _ _ _ h hStep => h.step hStep.2.1 hStep.1 hStep.2.2

theorem Given.solved {n : UInt32} {pose : Vec} {solves : Vec → Vec → Prop} {p : Program} (h : p.Given n pose solves)
    (hAnswered : p.outputs.qRefSeqnr = n) : solves pose p.outputs.qRef := by
  cases h.stage with
  | unread main rest => exact absurd hAnswered rest.answered
  | reading seqnr old at_ rest => exact absurd hAnswered rest.answered
  | waiting past updated seqnr taken solving answered flag => exact absurd hAnswered answered
  | solving past same seqnr taken answered at_ => exact absurd hAnswered answered
  | answered past same rests solved flag => exact solved

/-- Where the number beside the joint positions is that of the last pose command, they solve its pose: no package
before it has its number, and the packages after it leave its pose in their registers and are no pose commands. -/
theorem answer_solves_pose {solves : Vec → Vec → Prop} {inputs x : Inputs} {outputs : Outputs} {p : Program}
    {before after : List ProgramAction}
    (hRun : Path (Restrict (Solves solves) Step) (new inputs outputs) (before ++ .arrive x :: after) p)
    (hInputs : inputs.seqnr ≠ x.seqnr) (hOutputs : outputs.qRefSeqnr ≠ x.seqnr)
    (hBefore : ∀ y, .arrive y ∈ before → y.seqnr ≠ x.seqnr)
    (hAfter : ∀ y, .arrive y ∈ after → y.cmd ≠ 3 ∧ y.tcpPose = x.tcpPose ∧ y.seqnr ≠ x.seqnr)
    (hAnswered : p.outputs.qRefSeqnr = x.seqnr) : solves x.tcpPose p.outputs.qRef :=
  (given_of_run hRun hInputs hOutputs hBefore hAfter).solved hAnswered

theorem answer_solves_pose_seven : ∃ p : Program, p.outputs.qRefSeqnr = 1 ∧ p.outputs.qRef 5 = 7 ∧
    7 = p.outputs.qRef 0 := by
  have hOther : ∀ p : Program, ∀ a, (∀ solution, a ≠ .kin solution) → p.Solves (fun pose qRef => pose 0 = qRef 0) a :=
    fun _ _ hNot solution hSame => absurd hSame (hNot solution)
  have hRun : Path (Restrict (Solves fun pose qRef => pose 0 = qRef 0) Step) (new ⟨0, 0, zeros, zeros⟩ ⟨0, 0, zeros⟩)
      ([] ++ .arrive ⟨1, 3, zeros, fun _ => 7⟩ :: [.main, .main, .main, .main, .main, .main, .main, .main, .main,
        .kin zeros, .kin zeros, .kin fun _ => 7, .kin zeros, .kin zeros, .kin zeros, .kin zeros, .kin zeros,
        .kin zeros, .kin zeros]) _ :=
    .cons ⟨hOther _ _ nofun, rfl⟩ (.cons ⟨hOther _ _ nofun, rfl⟩ (.cons ⟨hOther _ _ nofun, rfl⟩
      (.cons ⟨hOther _ _ nofun, rfl⟩ (.cons ⟨hOther _ _ nofun, rfl⟩ (.cons ⟨hOther _ _ nofun, rfl⟩
        (.cons ⟨hOther _ _ nofun, rfl⟩ (.cons ⟨hOther _ _ nofun, rfl⟩ (.cons ⟨hOther _ _ nofun, rfl⟩
          (.cons ⟨hOther _ _ nofun, rfl⟩ (.cons ⟨nofun, rfl⟩ (.cons ⟨nofun, rfl⟩
            (.cons ⟨fun _ hSame _ => congrFun (ProgramAction.kin.inj hSame) 0, rfl⟩ (.cons ⟨nofun, rfl⟩ (.cons ⟨nofun, rfl⟩
              (.cons ⟨nofun, rfl⟩ (.cons ⟨nofun, rfl⟩ (.cons ⟨nofun, rfl⟩ (.cons ⟨nofun, rfl⟩ (.cons ⟨nofun, rfl⟩
                (.nil _))))))))))))))))))))
  exact ⟨_, rfl, rfl, answer_solves_pose hRun (by decide) (by decide) nofun (by simp) rfl⟩

end Program

end LibUrx.Controller
