import LibUrx.Base.Runs
import LibUrx.Robot.Initialise

/-! # Runs of a robot

Several threads call a robot. What the source does under the lock is one step. A call of `calculate_q_ref`
goes on after its step, in steps of its own: it looks at the flag, waits, and raises the flag. A call of
`recv` is two steps, the frame and its publication.
-/
namespace LibUrx
open Bytes Rtde Runs
set_option autoImplicit false

/-- How far a call of `calculate_q_ref` has come, with the attempts that its wait has left. -/
inductive Phase where
  | sent
  | waiting (first : Bool) (left : Nat)
  | waited
  | returned

structure QRefCall where
  seqnr : UInt32
  phase : Phase

/-- What a run is judged by: the pose commands sent and the numbers that `recv` has published. -/
inductive Event where
  | posed (seqnr : UInt32)
  | delivered (seqnr : UInt32)
  deriving DecidableEq

structure System where
  robot : Robot
  calls : List QRefCall
  frames : Nat
  history : List Event

inductive Action where
  | initOutput (connected : Bool) (g : Registration)
  | initOutputTcpPose (connected : Bool) (g : Registration)
  | initInput (g : Registration)
  | initInputTcpPose (g : Registration)
  | updateW (newW : List UInt64) (sendCode : Int)
  | calculateQRef (newPose : List UInt64) (sendCode : Int)
  | look (k : Nat)
  | matched (k : Nat)
  | expired (k : Nat)
  | raise (k : Nat)
  | takeFrame (reply : Option (List UInt8)) (ts : UInt64)
  | publish (now : Int)
  | state (synchronous : Bool)
  | start (x : Exchange)
  | stop (sendCode : Int) (x : Exchange)

def attempts : Nat := 500

/-- Only the first wait is followed by anything. -/
def afterWait (first : Bool) : Phase := if first then .waited else .returned

namespace System

def new (storage buffer : Buf) (x : Exchange) : System := ⟨Robot.init storage buffer x, [], 0, []⟩

def next (s : System) : Action → Option System
  | .initOutput connected g => (s.robot.initOutput connected g).map fun (_, b) => { s with robot := b }
  | .initOutputTcpPose connected g => (s.robot.initOutputTcpPose connected g).map fun (_, b) => { s with robot := b }
  | .initInput g => (s.robot.initInput g).map fun (_, b) => { s with robot := b }
  | .initInputTcpPose g => (s.robot.initInputTcpPose g).map fun (_, b) => { s with robot := b }
  | .updateW newW sendCode => some { s with robot := (s.robot.updateW newW sendCode).2 }
  | .calculateQRef newPose sendCode =>
    match s.robot.sendPose newPose sendCode with
    | (false, b) => some { s with robot := b }
    | (true, b) =>
      let seqnr := getWord b.mem Member.inSeqnr
      some { s with robot := b, calls := s.calls ++ [⟨seqnr, .sent⟩], history := s.history ++ [.posed seqnr] }
  | .look k =>
    match s.calls[k]? with
    | some ⟨seqnr, .sent⟩ =>
      some { s with calls := s.calls.set k ⟨seqnr, .waiting (!s.robot.qRefInitialized) attempts⟩ }
    | _ => none
  | .matched k =>
    match s.calls[k]? with
    | some ⟨seqnr, .waiting first (_ + 1)⟩ =>
      if s.robot.qRefOutSeqnr = seqnr then some { s with calls := s.calls.set k ⟨seqnr, afterWait first⟩ } else none
    | _ => none
  | .expired k =>
    match s.calls[k]? with
    | some ⟨seqnr, .waiting first (left + 1)⟩ =>
      if s.robot.qRefOutSeqnr = seqnr then none
      -- the loop ends after its last attempt as it does after a match
      else some { s with
        calls := s.calls.set k ⟨seqnr, if left = 0 then afterWait first else .waiting first left⟩ }
    | _ => none
  | .raise k =>
    match s.calls[k]? with
    | some ⟨seqnr, .waited⟩ =>
      some { s with robot := { s.robot with qRefInitialized := true }, calls := s.calls.set k ⟨seqnr, .returned⟩ }
    | _ => none
  | .takeFrame reply ts =>
    (s.robot.takeFrame reply ts).map fun (ok, b) =>
      { s with robot := b, frames := if ok then s.frames + 1 else s.frames }
  | .publish now =>
    if s.frames = 0 then none
    else
      let (ok, b) := s.robot.publish now
      some { s with
        robot := b
        frames := s.frames - 1
        history := if ok then s.history ++ [.delivered b.qRefOutSeqnr] else s.history }
  | .state synchronous => some { s with robot := (s.robot.state synchronous).2 }
  | .start x => some { s with robot := s.robot.start x }
  | .stop sendCode x => some { s with robot := (s.robot.stop sendCode x).2 }

def Step (s : System) (a : Action) (t : System) : Prop := s.next a = some t

theorem step_initInput {s : System} {g : Registration} {ok : Bool} {b : Robot}
    (h : s.robot.initInput g = some (ok, b)) : s.Step (.initInput g) { s with robot := b } := by
  simp [Step, next, h]

def registersOutput : Action → Bool
  | .initOutput _ _ | .initOutputTcpPose _ _ => true
  | _ => false

def registersInput : Action → Bool
  | .initInput _ | .initInputTcpPose _ => true
  | _ => false

/-- What `calculate_q_ref` does after it has sent its pose. -/
def isWait : Action → Bool
  | .look _ | .matched _ | .expired _ | .raise _ => true
  | _ => false

theorem robot_of_wait {s t : System} {a : Action} (hWait : isWait a = true) (hStep : s.Step a t) :
    ∃ flag, t.robot = { s.robot with qRefInitialized := flag } ∧ t.frames = s.frames ∧ t.history = s.history := by
  unfold Step at hStep
  cases a with
  | look k =>
    simp only [next] at hStep
    split at hStep
    · obtain rfl := Option.some.inj hStep
      exact ⟨_, rfl, rfl, rfl⟩
    · cases hStep
  | matched k =>
    simp only [next] at hStep
    split at hStep
    · split at hStep
      · obtain rfl := Option.some.inj hStep
        exact ⟨_, rfl, rfl, rfl⟩
      · cases hStep
    · cases hStep
  | expired k =>
    simp only [next] at hStep
    split at hStep
    · split at hStep
      · cases hStep
      · obtain rfl := Option.some.inj hStep
        exact ⟨_, rfl, rfl, rfl⟩
    · cases hStep
  | raise k =>
    simp only [next] at hStep
    split at hStep
    · obtain rfl := Option.some.inj hStep
      exact ⟨_, rfl, rfl, rfl⟩
    · cases hStep
  | _ => cases hWait

/-- Both commands fill in a vector and hand it over under a code of their own. -/
theorem vector_of_step {s t : System} {a : Action} {vs : List UInt64} {sendCode : Int}
    (hSends : a = .updateW vs sendCode ∨ a = .calculateQRef vs sendCode) (hStep : s.Step a t) :
    ∃ m c ok, Command.code c ≠ Command.noCommand.code ∧ s.robot.sendVector m c vs sendCode = (ok, t.robot) := by
  unfold Step at hStep
  cases hSends with
  | inl hSpeeds =>
    subst hSpeeds
    obtain rfl := Option.some.inj hStep
    exact ⟨_, .newControlInputCommand, _, by decide, rfl⟩
  | inr hPose =>
    subst hPose
    simp only [next] at hStep
    split at hStep
    · rename_i hSend
      obtain rfl := Option.some.inj hStep
      exact ⟨_, .newTcpPoseRefCommand, _, by decide, hSend⟩
    · rename_i hSend
      obtain rfl := Option.some.inj hStep
      exact ⟨_, .newTcpPoseRefCommand, _, by decide, hSend⟩

/-- What a step can do to the robot. -/
inductive RobotMoves (b b' : Robot) : Action → Prop where
  | output {fields : List FieldOf} {connected ok : Bool} {g : Registration} {a : Action} (known : Known true fields)
      (registers : registersOutput a = true) (done : Robot.initOutputWith fields b connected g = some (ok, b')) :
      RobotMoves b b' a
  | input {fields : List FieldOf} {ok : Bool} {g : Registration} {a : Action} (known : Known false fields)
      (registers : registersInput a = true) (done : Robot.initInputWith fields b g = some (ok, b')) : RobotMoves b b' a
  | vector {m : Nat} {c : Command} {vs : List UInt64} {sendCode : Int} {ok : Bool} {a : Action}
      (sends : a = .updateW vs sendCode ∨ a = .calculateQRef vs sendCode)
      (done : b.sendVector m c vs sendCode = (ok, b')) : RobotMoves b b' a
  | wait {flag : Bool} {a : Action} (waits : isWait a = true) (done : b' = { b with qRefInitialized := flag }) :
      RobotMoves b b' a
  | takeFrame {reply : Option (List UInt8)} {ts : UInt64} {ok : Bool} (done : b.takeFrame reply ts = some (ok, b')) :
      RobotMoves b b' (.takeFrame reply ts)
  | publish (now : Int) (done : b' = (b.publish now).2) : RobotMoves b b' (.publish now)
  | state (synchronous : Bool) (done : b' = (b.state synchronous).2) : RobotMoves b b' (.state synchronous)
  | start (x : Exchange) (done : b' = b.start x) : RobotMoves b b' (.start x)
  | stop (sendCode : Int) (x : Exchange) (done : b' = (b.stop sendCode x).2) : RobotMoves b b' (.stop sendCode x)

theorem robotMoves_of_step {s t : System} {a : Action} (hStep : s.Step a t) : RobotMoves s.robot t.robot a := by
  have hWaits (hWait : isWait a = true) : RobotMoves s.robot t.robot a := by
    obtain ⟨flag, hRobot, -⟩ := robot_of_wait hWait hStep
    exact .wait hWait hRobot
  unfold Step at hStep
  cases a with
  | initOutput connected g =>
    obtain ⟨⟨ok, b⟩, hInit, rfl⟩ := Option.map_eq_some_iff.mp hStep
    exact .output known_outputFields rfl hInit
  | initOutputTcpPose connected g =>
    obtain ⟨⟨ok, b⟩, hInit, rfl⟩ := Option.map_eq_some_iff.mp hStep
    exact .output known_outputFieldsTcpPose rfl hInit
  | initInput g =>
    obtain ⟨⟨ok, b⟩, hInit, rfl⟩ := Option.map_eq_some_iff.mp hStep
    exact .input known_inputFields rfl hInit
  | initInputTcpPose g =>
    obtain ⟨⟨ok, b⟩, hInit, rfl⟩ := Option.map_eq_some_iff.mp hStep
    exact .input known_inputFieldsTcpPose rfl hInit
  | updateW newW sendCode =>
    obtain ⟨m, c, ok, -, hSend⟩ := vector_of_step (Or.inl rfl) hStep
    exact .vector (Or.inl rfl) hSend
  | calculateQRef newPose sendCode =>
    obtain ⟨m, c, ok, -, hSend⟩ := vector_of_step (Or.inr rfl) hStep
    exact .vector (Or.inr rfl) hSend
  | look k | matched k | expired k | raise k => exact hWaits rfl
  | takeFrame reply ts =>
    obtain ⟨⟨ok, b⟩, hTake, rfl⟩ := Option.map_eq_some_iff.mp hStep
    exact .takeFrame hTake
  | publish now =>
    simp only [next] at hStep
    split at hStep
    · cases hStep
    · obtain rfl := Option.some.inj hStep
      exact .publish now rfl
  | state synchronous =>
    obtain rfl := Option.some.inj hStep
    exact .state synchronous rfl
  | start x =>
    obtain rfl := Option.some.inj hStep
    exact .start x rfl
  | stop sendCode x =>
    obtain rfl := Option.some.inj hStep
    exact .stop sendCode x rfl

end System

namespace Rtde.World

theorem send_mem (w : World) (id sendCode : Int) : (w.send id sendCode).2.mem = w.mem := by
  rcases send_cases w id sendCode with ⟨hSend, -⟩ | ⟨e, -, -, -, hSend⟩ <;> rw [hSend]
  rfl

end Rtde.World

namespace Robot

/-- A robot as a command hands it to the handler: vector, number and command are in their members. -/
def commanded (b : Robot) (a : Nat) (c : Command) (vs : List UInt64) : Robot :=
  (b.withMem (setDoubles b.mem a vs)).number c

/-- A command is turned down, or numbered and sent, and only after a good send taken back. -/
theorem sendVector_cases {b b' : Robot} {a : Nat} {c : Command} {vs : List UInt64} {sendCode : Int} {ok : Bool}
    (h : b.sendVector a c vs sendCode = (ok, b')) :
    (b' = b ∧ ok = false ∧ (vs.length ≠ dof ∨ b.inInitialized = false)) ∨
      (vs.length = dof ∧ b.inInitialized = true ∧
        ∃ w, (b.commanded a c vs).handler.send b.inRecipe.recipeId sendCode = (ok, w) ∧
          b' = { b.commanded a c vs with
            handler := if ok then { w with mem := setWord w.mem Member.cmd Command.noCommand.code } else w }) := by
  unfold sendVector at h
  split at h
  · rename_i hLength
    cases h
    exact Or.inl ⟨rfl, rfl, Or.inl hLength⟩
  · rename_i hLength
    split at h
    · rename_i hNot
      cases h
      exact Or.inl ⟨rfl, rfl, Or.inr (by simpa using hNot)⟩
    · rename_i hIn
      refine Or.inr ⟨by simpa using hLength, by simpa using hIn, ?_⟩
      change (match (((b.commanded a c vs).handler.send b.inRecipe.recipeId sendCode).1,
        { b.commanded a c vs with handler := ((b.commanded a c vs).handler.send b.inRecipe.recipeId sendCode).2 }) with
        | (false, b) => (false, b)
        | (true, b) => (true, b.withMem (setWord b.mem Member.cmd Command.noCommand.code))) = (ok, b') at h
      cases hSend : (b.commanded a c vs).handler.send b.inRecipe.recipeId sendCode with
      | mk sent w =>
        rw [hSend] at h
        cases sent with
        | false =>
          cases h
          exact ⟨w, rfl, rfl⟩
        | true =>
          cases h
          exact ⟨w, rfl, rfl⟩

theorem sendVector_filed {b : Robot} (hMap : b.handler.OnlyInput) (hFiled : b.handler.recipesIn ≠ [])
    (hIn : b.inInitialized = true) {vs : List UInt64} (hLength : vs.length = dof) (a : Nat) (c : Command)
    (sendCode : Int) : ∃ mem, b.sendVector a c vs sendCode = (decide (0 < sendCode),
      { b.commanded a c vs with handler := { (b.commanded a c vs).handler.sentBy 1 with mem } }) := by
  have hSent : (b.commanded a c vs).handler.send b.inRecipe.recipeId sendCode =
      (decide (0 < sendCode), (b.commanded a c vs).handler.sentBy 1) :=
    World.OnlyInput.send (w := (b.commanded a c vs).handler) hMap hFiled sendCode
  cases hResult : b.sendVector a c vs sendCode with
  | mk ok b' =>
    rcases sendVector_cases hResult with ⟨-, -, hNot | hNot⟩ | ⟨-, -, w, hSend, rfl⟩
    · exact absurd hLength hNot
    · rw [hIn] at hNot
      cases hNot
    · obtain ⟨rfl, rfl⟩ := Prod.mk.inj (hSent.symm.trans hSend)
      cases decide (0 < sendCode) with
      | false => exact ⟨_, rfl⟩
      | true => exact ⟨_, rfl⟩

theorem takeFrame_eq_some {b b' : Robot} {reply : Option (List UInt8)} {ts : UInt64} {ok : Bool}
    (h : b.takeFrame reply ts = some (ok, b')) :
    ∃ buffer mem, b.handler.recv reply ts = some (ok, { b.handler with buffer, mem }) ∧
      b' = { b with handler := { b.handler with buffer, mem } } := by
  obtain ⟨⟨ok', w⟩, hRecv, hSame⟩ := Option.map_eq_some_iff.mp h
  obtain ⟨rfl, rfl⟩ := Prod.mk.inj hSame
  obtain ⟨buffer, mem, rfl⟩ := World.recv_eq_some hRecv
  exact ⟨buffer, mem, hRecv, rfl⟩

end Robot

end LibUrx
