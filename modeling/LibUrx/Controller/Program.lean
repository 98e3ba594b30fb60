import LibUrx.Base.Runs
import Mathlib.Data.List.Chain
import Mathlib.Logic.Function.Basic

/-! # The program on the controller

`tcp_pose.script` is the other end of a robot's commands. One thread polls the input registers, one moves the
joints, and one turns poses into joint positions. An access to a register and a critical section are one step each,
and the threads, the packages that come in and those that go out take their steps in any order.
-/
namespace LibUrx.Controller
open Runs
set_option autoImplicit false

/-- One value for each joint, or for each coordinate of a pose. -/
abbrev Vec := Fin 6 → UInt64

def zeros : Vec := fun _ => 0

theorem update_of_read {v w : Vec} {i : Fin 6} (h : ∀ j : Fin 6, j < i.val → v j = w j) (j : Fin 6)
    (hJ : j < i.val + 1) : Function.update v i (w i) j = w j := by
  by_cases hSame : j = i
  · rw [hSame, Function.update_self]
  · rw [Function.update_of_ne hSame]
    have hNe : j.val ≠ i.val := fun hVal => hSame (Fin.ext hVal)
    exact h j (by omega)

theorem eq_of_read {v w : Vec} {read : Nat} (h : ∀ i : Fin 6, i < read → v i = w i) (hAll : 6 ≤ read) : v = w :=
  funext fun i => h i (by omega)

/-- Integer registers 0 and 1, double registers 0 to 5, and double registers 8 to 13. -/
structure Inputs where
  seqnr : UInt32
  cmd : UInt32
  qd : Vec
  tcpPose : Vec

/-- Integer registers 0 and 1 and double registers 0 to 5. -/
structure Outputs where
  seqnr : UInt32
  qRefSeqnr : UInt32
  qRef : Vec

/-- Where the main thread goes on. The number says how many registers of a vector it has read. -/
inductive MainAt where
  | poll
  | command
  | stop
  | speeds (read : Nat)
  | pose (read : Nat)
  | answer
  | closed
  deriving DecidableEq, Repr

inductive SpeedAt where
  | loop
  | take
  | move
  | closed
  deriving DecidableEq, Repr

inductive KinAt where
  | loop
  | take
  | solve
  | write (written : Nat)
  | closed
  deriving DecidableEq, Repr

/-- The registers, the global variables, and the place and the variables of each thread. -/
structure Program where
  inputs : Inputs
  outputs : Outputs
  keepRunning : Bool
  updatedTqd : Bool
  updatedTTcpPose : Bool
  tqd : Vec
  tTcpPose : Vec
  tTcpPoseSeqnr : UInt32
  mainAt : MainAt
  cmd : UInt32
  seqnr : UInt32
  oldSeqnr : UInt32
  qd : Vec
  tcpPose : Vec
  speedAt : SpeedAt
  speedQd : Vec
  kinAt : KinAt
  kinQRef : Vec
  kinPose : Vec
  kinPoseSeqnr : UInt32
  doCalculations : Bool

/-- What moves the program. The solution of a pose depends on where the joints are, so it comes with the step. -/
inductive ProgramAction where
  | arrive (x : Inputs)
  | emit
  | main
  | speed
  | kin (solution : Vec)

/-- What a run is judged by. -/
inductive ProgramEvent where
  | arrived (x : Inputs)
  | emitted (o : Outputs)
  | polled (seqnr : UInt32)
  | stopped
  | tookSpeeds (qd : Vec)
  | tookPose (seqnr : UInt32) (pose : Vec)
  | moved (qd : Vec)
  | halted

namespace Program

/-- The program as its threads start, with whatever stands in the registers. -/
def new (inputs : Inputs) (outputs : Outputs) : Program where
  inputs := inputs
  outputs := outputs
  keepRunning := true
  updatedTqd := false
  updatedTTcpPose := false
  tqd := zeros
  tTcpPose := zeros
  tTcpPoseSeqnr := 0
  mainAt := .poll
  cmd := 0
  seqnr := 0
  oldSeqnr := 0
  qd := zeros
  tcpPose := zeros
  speedAt := .loop
  speedQd := zeros
  kinAt := .loop
  kinQRef := zeros
  kinPose := zeros
  kinPoseSeqnr := 0
  doCalculations := false

def main (p : Program) : Option Program :=
  match p.mainAt with
  | .poll =>
    if !p.keepRunning then some { p with mainAt := .closed }
    else if p.inputs.seqnr = p.oldSeqnr then some { p with seqnr := p.inputs.seqnr }
    else some { p with seqnr := p.inputs.seqnr, oldSeqnr := p.inputs.seqnr, mainAt := .command }
  | .command => some { p with
      cmd := p.inputs.cmd
      mainAt := if p.inputs.cmd = 1 then .stop else if p.inputs.cmd = 2 then .speeds 0
        else if p.inputs.cmd = 3 then .pose 0 else .answer }
  | .stop => some { p with keepRunning := false, tqd := zeros, mainAt := .answer }
  | .speeds read =>
    if h : read < 6 then
      some { p with qd := Function.update p.qd ⟨read, h⟩ (p.inputs.qd ⟨read, h⟩), mainAt := .speeds (read + 1) }
    else some { p with tqd := p.qd, updatedTqd := true, mainAt := .answer }
  | .pose read =>
    if h : read < 6 then
      some { p with
        tcpPose := Function.update p.tcpPose ⟨read, h⟩ (p.inputs.tcpPose ⟨read, h⟩)
        mainAt := .pose (read + 1) }
    else some { p with
      tTcpPose := p.tcpPose
      tTcpPoseSeqnr := p.seqnr
      updatedTTcpPose := true
      mainAt := .answer }
  | .answer => some { p with outputs := { p.outputs with seqnr := p.seqnr }, mainAt := .poll }
  | .closed => none

def speed (p : Program) : Option Program :=
  match p.speedAt with
  | .loop => some { p with speedAt := if p.keepRunning then .take else .closed }
  | .take =>
    if p.updatedTqd then some { p with speedQd := p.tqd, updatedTqd := false, speedAt := .move }
    else some { p with speedAt := .move }
  | .move => some { p with speedAt := .loop }
  | .closed => none

def kin (p : Program) (solution : Vec) : Option Program :=
  match p.kinAt with
  | .loop => some { p with kinAt := if p.keepRunning then .take else .closed }
  | .take =>
    let p := if p.updatedTTcpPose then
        { p with
          kinPose := p.tTcpPose
          kinPoseSeqnr := p.tTcpPoseSeqnr
          doCalculations := true
          updatedTTcpPose := false }
      else p
    some { p with kinAt := if p.doCalculations then .solve else .loop }
  | .solve => some { p with kinQRef := solution, kinAt := .write 0 }
  | .write written =>
    if h : written < 6 then
      some { p with
        outputs := { p.outputs with qRef := Function.update p.outputs.qRef ⟨written, h⟩ (p.kinQRef ⟨written, h⟩) }
        kinAt := .write (written + 1) }
    else some { p with
      outputs := { p.outputs with qRefSeqnr := p.kinPoseSeqnr }
      doCalculations := false
      kinAt := .loop }
  | .closed => none

def next (p : Program) : ProgramAction → Option Program
  | .arrive x => some { p with inputs := x }
  | .emit => some p
  | .main => p.main
  | .speed => p.speed
  | .kin solution => p.kin solution

def Step (p : Program) (a : ProgramAction) (q : Program) : Prop := p.next a = some q

/-- What a step tells, where the program stands. -/
def told (p : Program) : ProgramAction → List ProgramEvent
  | .arrive x => [.arrived x]
  | .emit => [.emitted p.outputs]
  | .main =>
    match p.mainAt with
    | .poll => if p.keepRunning && p.inputs.seqnr != p.oldSeqnr then [.polled p.inputs.seqnr] else []
    | .stop => [.stopped]
    | .speeds read => if read < 6 then [] else [.tookSpeeds p.qd]
    | .pose read => if read < 6 then [] else [.tookPose p.seqnr p.tcpPose]
    | .command | .answer | .closed => []
  | .speed =>
    match p.speedAt with
    | .loop => if p.keepRunning then [] else [.halted]
    | .move => [.moved p.speedQd]
    | .take | .closed => []
  | .kin _ => []

/-- What a step of the main thread does. -/
inductive MainMoves (p : Program) : List ProgramEvent → Program → Prop where
  | closes (at_ : p.mainAt = .poll) (keep : p.keepRunning = false) : MainMoves p [] { p with mainAt := .closed }
  | waits (at_ : p.mainAt = .poll) (keep : p.keepRunning = true) (same : p.inputs.seqnr = p.oldSeqnr) :
      MainMoves p [] { p with seqnr := p.inputs.seqnr }
  | polls (at_ : p.mainAt = .poll) (keep : p.keepRunning = true) (new : p.inputs.seqnr ≠ p.oldSeqnr) :
      MainMoves p [.polled p.inputs.seqnr]
        { p with seqnr := p.inputs.seqnr, oldSeqnr := p.inputs.seqnr, mainAt := .command }
  | commands (at_ : p.mainAt = .command) (there : MainAt)
      (which : (p.inputs.cmd = 1 ∧ there = .stop) ∨ (p.inputs.cmd = 2 ∧ there = .speeds 0) ∨
        (p.inputs.cmd = 3 ∧ there = .pose 0) ∨
        (p.inputs.cmd ≠ 1 ∧ p.inputs.cmd ≠ 2 ∧ p.inputs.cmd ≠ 3 ∧ there = .answer)) :
      MainMoves p [] { p with cmd := p.inputs.cmd, mainAt := there }
  | stops (at_ : p.mainAt = .stop) :
      MainMoves p [.stopped] { p with keepRunning := false, tqd := zeros, mainAt := .answer }
  | readsSpeed (i : Fin 6) (at_ : p.mainAt = .speeds i) :
      MainMoves p [] { p with qd := Function.update p.qd i (p.inputs.qd i), mainAt := .speeds (i + 1) }
  | takesSpeeds (read : Nat) (at_ : p.mainAt = .speeds read) (all : 6 ≤ read) :
      MainMoves p [.tookSpeeds p.qd] { p with tqd := p.qd, updatedTqd := true, mainAt := .answer }
  | readsPose (i : Fin 6) (at_ : p.mainAt = .pose i) :
      MainMoves p [] { p with
        tcpPose := Function.update p.tcpPose i (p.inputs.tcpPose i), mainAt := .pose (i + 1) }
  | takesPose (read : Nat) (at_ : p.mainAt = .pose read) (all : 6 ≤ read) :
      MainMoves p [.tookPose p.seqnr p.tcpPose] { p with
        tTcpPose := p.tcpPose, tTcpPoseSeqnr := p.seqnr, updatedTTcpPose := true, mainAt := .answer }
  | answers (at_ : p.mainAt = .answer) :
      MainMoves p [] { p with outputs := { p.outputs with seqnr := p.seqnr }, mainAt := .poll }

theorem mainMoves_of_main {p q : Program} (h : p.main = some q) : MainMoves p (p.told .main) q := by
  unfold main at h
  cases hAt : p.mainAt with
  | poll =>
    simp only [hAt] at h
    by_cases hKeep : p.keepRunning = true
    · rw [if_neg (by simp [hKeep])] at h
      by_cases hSame : p.inputs.seqnr = p.oldSeqnr
      · have hTold : p.told .main = [] := by simp [told, hAt, hSame]
        have hNext : q = { p with seqnr := p.inputs.seqnr } := by
          rw [if_pos hSame] at h
          rw [← Option.some.inj h, ← hAt]
        rw [hTold, hNext]
        exact .waits hAt hKeep hSame
      · have hTold : p.told .main = [.polled p.inputs.seqnr] := by simp [told, hAt, hSame, hKeep]
        rw [if_neg hSame] at h
        rw [hTold, ← Option.some.inj h]
        exact .polls hAt hKeep hSame
    · rw [Bool.not_eq_true] at hKeep
      have hTold : p.told .main = [] := by simp [told, hAt, hKeep]
      rw [if_pos (by simp [hKeep])] at h
      rw [hTold, ← Option.some.inj h]
      exact .closes hAt hKeep
  | command =>
    simp only [hAt] at h
    have hTold : p.told .main = [] := by simp [told, hAt]
    rw [hTold, ← Option.some.inj h]
    apply MainMoves.commands hAt
    by_cases hStop : p.inputs.cmd = 1
    · exact Or.inl ⟨hStop, if_pos hStop⟩
    · by_cases hSpeeds : p.inputs.cmd = 2
      · rw [if_neg hStop, if_pos hSpeeds]
        exact Or.inr (Or.inl ⟨hSpeeds, rfl⟩)
      · by_cases hPose : p.inputs.cmd = 3
        · rw [if_neg hStop, if_neg hSpeeds, if_pos hPose]
          exact Or.inr (Or.inr (Or.inl ⟨hPose, rfl⟩))
        · rw [if_neg hStop, if_neg hSpeeds, if_neg hPose]
          exact Or.inr (Or.inr (Or.inr ⟨hStop, hSpeeds, hPose, rfl⟩))
  | stop =>
    simp only [hAt] at h
    have hTold : p.told .main = [.stopped] := by simp [told, hAt]
    rw [hTold, ← Option.some.inj h]
    exact .stops hAt
  | speeds read =>
    simp only [hAt] at h
    by_cases hRead : read < 6
    · have hTold : p.told .main = [] := by simp [told, hAt, hRead]
      rw [dif_pos hRead] at h
      rw [hTold, ← Option.some.inj h]
      exact .readsSpeed ⟨read, hRead⟩ hAt
    · have hTold : p.told .main = [.tookSpeeds p.qd] := by simp [told, hAt, hRead]
      rw [dif_neg hRead] at h
      rw [hTold, ← Option.some.inj h]
      exact .takesSpeeds read hAt (Nat.not_lt.mp hRead)
  | pose read =>
    simp only [hAt] at h
    by_cases hRead : read < 6
    · have hTold : p.told .main = [] := by simp [told, hAt, hRead]
      rw [dif_pos hRead] at h
      rw [hTold, ← Option.some.inj h]
      exact .readsPose ⟨read, hRead⟩ hAt
    · have hTold : p.told .main = [.tookPose p.seqnr p.tcpPose] := by simp [told, hAt, hRead]
      rw [dif_neg hRead] at h
      rw [hTold, ← Option.some.inj h]
      exact .takesPose read hAt (Nat.not_lt.mp hRead)
  | answer =>
    simp only [hAt] at h
    have hTold : p.told .main = [] := by simp [told, hAt]
    rw [hTold, ← Option.some.inj h]
    exact .answers hAt
  | closed =>
    simp only [hAt] at h
    cases h

/-- What a step of the moving thread does. -/
inductive SpeedMoves (p : Program) : List ProgramEvent → Program → Prop where
  | goesOn (at_ : p.speedAt = .loop) (keep : p.keepRunning = true) : SpeedMoves p [] { p with speedAt := .take }
  | halts (at_ : p.speedAt = .loop) (keep : p.keepRunning = false) :
      SpeedMoves p [.halted] { p with speedAt := .closed }
  | takes (at_ : p.speedAt = .take) (updated : p.updatedTqd = true) :
      SpeedMoves p [] { p with speedQd := p.tqd, updatedTqd := false, speedAt := .move }
  | keeps (at_ : p.speedAt = .take) (same : p.updatedTqd = false) : SpeedMoves p [] { p with speedAt := .move }
  | moves (at_ : p.speedAt = .move) : SpeedMoves p [.moved p.speedQd] { p with speedAt := .loop }

theorem speedMoves_of_speed {p q : Program} (h : p.speed = some q) : SpeedMoves p (p.told .speed) q := by
  unfold speed at h
  cases hAt : p.speedAt with
  | loop =>
    simp only [hAt] at h
    by_cases hKeep : p.keepRunning = true
    · have hTold : p.told .speed = [] := by simp [told, hAt, hKeep]
      rw [if_pos hKeep] at h
      rw [hTold, ← Option.some.inj h]
      exact .goesOn hAt hKeep
    · have hTold : p.told .speed = [.halted] := by simp [told, hAt, hKeep]
      rw [if_neg hKeep] at h
      rw [hTold, ← Option.some.inj h]
      exact .halts hAt (Bool.not_eq_true _ ▸ hKeep)
  | take =>
    simp only [hAt] at h
    have hTold : p.told .speed = [] := by simp [told, hAt]
    rw [hTold]
    by_cases hUpdated : p.updatedTqd = true
    · rw [if_pos hUpdated] at h
      rw [← Option.some.inj h]
      exact .takes hAt hUpdated
    · rw [if_neg hUpdated] at h
      rw [← Option.some.inj h]
      exact .keeps hAt (Bool.not_eq_true _ ▸ hUpdated)
  | move =>
    simp only [hAt] at h
    have hTold : p.told .speed = [.moved p.speedQd] := by simp [told, hAt]
    rw [hTold, ← Option.some.inj h]
    exact .moves hAt
  | closed =>
    simp only [hAt] at h
    cases h

/-- What a step of the solving thread does. -/
inductive KinMoves (p : Program) (solution : Vec) : Program → Prop where
  | goesOn (at_ : p.kinAt = .loop) (keep : p.keepRunning = true) : KinMoves p solution { p with kinAt := .take }
  | ends (at_ : p.kinAt = .loop) (keep : p.keepRunning = false) : KinMoves p solution { p with kinAt := .closed }
  | takes (at_ : p.kinAt = .take) (updated : p.updatedTTcpPose = true) :
      KinMoves p solution { p with
        kinPose := p.tTcpPose, kinPoseSeqnr := p.tTcpPoseSeqnr, doCalculations := true, updatedTTcpPose := false
        kinAt := .solve }
  | keeps (at_ : p.kinAt = .take) (same : p.updatedTTcpPose = false) :
      KinMoves p solution { p with kinAt := if p.doCalculations then .solve else .loop }
  | solves (at_ : p.kinAt = .solve) : KinMoves p solution { p with kinQRef := solution, kinAt := .write 0 }
  | writes (i : Fin 6) (at_ : p.kinAt = .write i) :
      KinMoves p solution { p with
        outputs := { p.outputs with qRef := Function.update p.outputs.qRef i (p.kinQRef i) }, kinAt := .write (i + 1) }
  | numbers (written : Nat) (at_ : p.kinAt = .write written) (all : 6 ≤ written) :
      KinMoves p solution { p with
        outputs := { p.outputs with qRefSeqnr := p.kinPoseSeqnr }, doCalculations := false, kinAt := .loop }

theorem kinMoves_of_kin {p q : Program} {solution : Vec} (h : p.kin solution = some q) : KinMoves p solution q := by
  unfold kin at h
  cases hAt : p.kinAt with
  | loop =>
    simp only [hAt] at h
    rw [← Option.some.inj h]
    by_cases hKeep : p.keepRunning = true
    · rw [if_pos hKeep]
      exact .goesOn hAt hKeep
    · rw [if_neg hKeep]
      exact .ends hAt (Bool.not_eq_true _ ▸ hKeep)
  | take =>
    simp only [hAt] at h
    by_cases hUpdated : p.updatedTTcpPose = true
    · simp only [if_pos hUpdated, if_true] at h
      rw [← Option.some.inj h]
      exact .takes hAt hUpdated
    · simp only [if_neg hUpdated] at h
      rw [← Option.some.inj h]
      exact .keeps hAt (Bool.not_eq_true _ ▸ hUpdated)
  | solve =>
    simp only [hAt] at h
    rw [← Option.some.inj h]
    exact .solves hAt
  | write written =>
    simp only [hAt] at h
    by_cases hWritten : written < 6
    · rw [dif_pos hWritten] at h
      rw [← Option.some.inj h]
      exact .writes ⟨written, hWritten⟩ hAt
    · rw [dif_neg hWritten] at h
      rw [← Option.some.inj h]
      exact .numbers written hAt (Nat.not_lt.mp hWritten)
  | closed =>
    simp only [hAt] at h
    cases h

theorem main_isSome {p : Program} (h : p.mainAt ≠ .closed) : p.main.isSome = true := by
  unfold main
  split
  case h_1 => split <;> [rfl; (split <;> rfl)]
  case h_4 | h_5 => split <;> rfl
  case h_7 => contradiction
  all_goals rfl

theorem speed_isSome {p : Program} (h : p.speedAt ≠ .closed) : p.speed.isSome = true := by
  unfold speed
  split
  case h_2 => split <;> rfl
  case h_4 => contradiction
  all_goals rfl

theorem kin_isSome {p : Program} (h : p.kinAt ≠ .closed) (solution : Vec) : (p.kin solution).isSome = true := by
  unfold kin
  split
  case h_4 => split <;> rfl
  case h_5 => contradiction
  all_goals rfl

/-- What the other two threads leave to the main thread as it is. -/
structure MainKept (p q : Program) : Prop where
  inputs : q.inputs = p.inputs
  keepRunning : q.keepRunning = p.keepRunning
  mainAt : q.mainAt = p.mainAt
  seqnr : q.seqnr = p.seqnr
  oldSeqnr : q.oldSeqnr = p.oldSeqnr
  qd : q.qd = p.qd
  tcpPose : q.tcpPose = p.tcpPose
  answered : q.outputs.seqnr = p.outputs.seqnr

theorem SpeedMoves.mainKept {p q : Program} {told : List ProgramEvent} (h : p.SpeedMoves told q) : p.MainKept q := by
  cases h <;> exact ⟨rfl, rfl, rfl, rfl, rfl, rfl, rfl, rfl⟩

theorem KinMoves.mainKept {p q : Program} {solution : Vec} (h : p.KinMoves solution q) : p.MainKept q := by
  cases h <;> exact ⟨rfl, rfl, rfl, rfl, rfl, rfl, rfl, rfl⟩

end Program

end LibUrx.Controller
