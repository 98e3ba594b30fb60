import LibUrx.Robot.Definedness
import LibUrx.Rtde.Reach

/-! # The receive buffer of a robot

The buffer of the handler has no initialiser either. Every read writes the front of it, up to the terminator behind
what has come, so that what has been written is the front of the buffer at any time. An action is clean if, beyond what
it does with the members, it looks at nothing behind that, and if a package that it takes has come whole.
-/
namespace LibUrx
open Bytes Text Rtde Runs
set_option autoImplicit false

namespace System

/-- The read that an action makes, with the most it takes. -/
def reads (s : System) : Action → Option (Nat × Exchange)
  | .initOutput connected g | .initOutputTcpPose connected g =>
    if s.robot.asks connected then some (packetBytes, g.exchange) else none
  | .initInput g | .initInputTcpPose g => some (packetBytes, g.exchange)
  | .takeFrame reply _ => some (packetBytes, ⟨0, reply⟩)
  | .start x => if s.robot.outInitialized then some (4, x) else none
  | .stop _ x => if s.robot.running then some (4, x) else none
  | _ => none

end System

/-- A system, with the number of cells at the front of the buffer that have been written. -/
structure Tracked where
  system : System
  filled : Nat

namespace Tracked

def new (storage buffer : Buf) (x : Exchange) : Tracked := ⟨System.new storage buffer x, filledBy 1024 x⟩

def buffer (s : Tracked) : Buf := s.system.robot.handler.buffer

/-- The cells that have been written once the action has read. -/
def filledAfter (s : Tracked) (a : Action) : Nat :=
  match s.system.reads a with
  | none => s.filled
  | some (rsz, x) => max s.filled (filledBy rsz x)

def Step (s : Tracked) (a : Action) (t : Tracked) : Prop := s.system.Step a t.system ∧ t.filled = s.filledAfter a

/-- The check of an answer to a registration looks at the first `k` cells only. -/
def AnswerSeen (s : Tracked) (g : Registration) (k : Nat) : Prop :=
  ∀ resp, s.system.robot.handler.answer g.exchange = some resp → registerReach resp ≤ k

/-- The check of an answer to a start or stop request looks at the first `k` cells only. -/
def ShortSeen (s : Tracked) (x : Exchange) (k : Nat) : Prop :=
  0 ≤ (doSendRecv s.buffer 4 x).1 → shortReach PackageType.start.code (doSendRecv s.buffer 4 x).2 ≤ k

/-- What the action looks at in the buffer has been written, and a package that is taken has come whole with this read.
The check of a package begins with the last byte of its head. A read that fails prints the buffer as a text. -/
def SeesWritten (s : Tracked) (a : Action) : Prop :=
  match a with
  | .initOutput connected g | .initOutputTcpPose connected g =>
    s.system.robot.asks connected = true → s.AnswerSeen g (s.filledAfter a)
  | .initInput g | .initInputTcpPose g => s.AnswerSeen g (s.filledAfter a)
  | .takeFrame none _ => ∃ i < s.filled, s.buffer i = 0
  | .takeFrame (some bytes) ts => 4 ≤ s.filledAfter a ∧
      ((s.system.robot.takeFrame (some bytes) ts).map Prod.fst = some true →
        4 + s.system.robot.outRecipe.bytes ≤ (bytes.take packetBytes).length)
  | .start x => s.system.robot.outInitialized = true → s.ShortSeen x (s.filledAfter a)
  | .stop _ x => s.system.robot.running = true → s.ShortSeen x (s.filledAfter a)
  | _ => True

/-- A step that reads nothing unwritten, neither a member nor in the buffer. -/
def Clean (s : Tracked) (a : Action) : Prop := s.system.Clean a ∧ s.SeesWritten a

def AnswerEnough (s : Tracked) (g : Registration) (k : Nat) : Prop :=
  ∀ resp, s.system.robot.handler.answer g.exchange = some resp → AnswerReceived resp k

/-- Answers bring enough for their check, packages that fit come whole, no frame comes before three bytes have, and no
read fails before there is a zero byte. -/
def Enough (s : Tracked) (a : Action) : Prop :=
  match a with
  | .initOutput connected g | .initOutputTcpPose connected g =>
    s.system.robot.asks connected = true → s.AnswerEnough g (s.filledAfter a)
  | .initInput g | .initInputTcpPose g => s.AnswerEnough g (s.filledAfter a)
  | .takeFrame none _ => ∃ i < s.filled, s.buffer i = 0
  | .takeFrame (some bytes) _ => 4 ≤ s.filledAfter a ∧
      (s.system.robot.outInitialized = true →
        World.Accepts s.system.robot.outRecipe (readOver packetBytes bytes s.buffer) →
        4 + s.system.robot.outRecipe.bytes ≤ (bytes.take packetBytes).length)
  | _ => True

def Harmless (s : Tracked) (a : Action) : Prop := s.system.Harmless a ∧ s.Enough a

/-- A tracked system that has read nothing unwritten so far. -/
structure Untouched (s : Tracked) : Prop where
  system : s.system.Untouched
  room : s.filled ≤ packetBytes
  head : s.system.robot.outInitialized = true → 4 ≤ s.filled
  running : s.system.robot.running = true → s.system.robot.outInitialized = true

theorem filledBy_le (rsz : Nat) (x : Exchange) : filledBy rsz x ≤ rsz := by
  rw [filledBy]
  split
  · exact Nat.zero_le _
  · split
    · exact Nat.zero_le _
    · exact min_le_left _ _

theorem untouched_new (storage buffer : Buf) (x : Exchange) : (new storage buffer x).Untouched where
  system := System.untouched_new storage buffer x
  room := (filledBy_le 1024 x).trans (by decide)
  head h := by cases h
  running h := by cases h

variable {s t : Tracked} {a : Action}

theorem le_filledAfter (s : Tracked) (a : Action) : s.filled ≤ s.filledAfter a := by
  rw [filledAfter]
  split
  · exact le_rfl
  · exact le_max_left _ _

theorem size_of_reads {s : System} {a : Action} {rsz : Nat} {x : Exchange} (h : s.reads a = some (rsz, x)) :
    rsz ≤ packetBytes := by
  cases a with
  | initOutput connected g | initOutputTcpPose connected g =>
    exact (congrArg Prod.fst (Option.ite_some_none_eq_some.mp h).2).ge
  | initInput g | initInputTcpPose g | takeFrame reply ts => exact (congrArg Prod.fst (Option.some.inj h)).ge
  | start x | stop sendCode x =>
    obtain ⟨rfl, -⟩ := Prod.mk.inj (Option.ite_some_none_eq_some.mp h).2
    decide
  | _ => cases h

theorem filledAfter_le (hRoom : s.filled ≤ packetBytes) (a : Action) : s.filledAfter a ≤ packetBytes := by
  rw [filledAfter]
  split
  · exact hRoom
  · rename_i hReads
    exact max_le hRoom ((filledBy_le _ _).trans (size_of_reads hReads))

theorem answerSeen_iff (s : Tracked) (g : Registration) {k : Nat} (hInside : k ≤ packetBytes) :
    s.AnswerSeen g k ↔ s.AnswerEnough g k := forall₂_congr fun _ _ => registerReach_le_iff hInside

theorem takeFrame_true_iff {b : Robot} (h : b.Sound) (bytes : List UInt8) (ts : UInt64) :
    (b.takeFrame (some bytes) ts).map Prod.fst = some true ↔
      b.outInitialized = true ∧ World.Accepts b.outRecipe (readOver packetBytes bytes b.handler.buffer) := by
  have hTaken : (b.takeFrame (some bytes) ts).map Prod.fst =
      (b.handler.parseIncomingData (readOver packetBytes bytes b.handler.buffer) ts).map Prod.fst := by
    rw [Robot.takeFrame, World.recv_some, Option.map_map, Option.map_map]
    rfl
  rw [hTaken]
  cases hReady : b.outInitialized with
  | false =>
    have hOut : b.handler.out = none := by rw [h.out, hReady]; rfl
    rw [World.parseIncomingData_none hOut]
    split <;> simp
  | true =>
    have hOut : b.handler.out = some 0 := by rw [h.out, hReady]; rfl
    rw [and_iff_right rfl]
    cases Classical.em (World.Accepts b.outRecipe (readOver packetBytes bytes b.handler.buffer)) with
    | inl hAccepts =>
      rw [World.parseIncomingData_accepted hOut (h.formed 0) h.outDir hAccepts]
      exact iff_of_true rfl hAccepts
    | inr hRefused =>
      rw [World.parseIncomingData_refused hOut hRefused]
      exact iff_of_false (by simp) hRefused

theorem Untouched.sees_iff (h : s.Untouched) (a : Action) : s.SeesWritten a ↔ s.Enough a := by
  have hInside := filledAfter_le h.room a
  have hShort (hReady : s.system.robot.outInitialized = true) (x : Exchange) : s.ShortSeen x (s.filledAfter a) :=
    fun _ => (shortReach_le _ _).trans ((h.head hReady).trans (le_filledAfter s a))
  cases a with
  | initOutput connected g | initOutputTcpPose connected g => exact imp_congr_right fun _ => answerSeen_iff s g hInside
  | initInput g | initInputTcpPose g => exact answerSeen_iff s g hInside
  | takeFrame reply ts =>
    cases reply with
    | none => exact Iff.rfl
    | some bytes =>
      refine and_congr_right fun _ => ?_
      rw [takeFrame_true_iff h.system.sound, and_imp]
      rfl
  | start x => exact iff_of_true (fun hReady => hShort hReady x) trivial
  | stop sendCode x => exact iff_of_true (fun hRunning => hShort (h.running hRunning) x) trivial
  | _ => exact Iff.rfl

theorem four_le_of_accepted {g : Registration} {k : Nat} {r : RtdeRecipe} {resp : Buf} (hEnough : s.AnswerEnough g k)
    (hAnswer : s.system.robot.handler.answer g.exchange = some resp) (hTaken : (r.registerResponse resp).1 = true) :
    4 ≤ k := by
  obtain ⟨hHead, hScan, -⟩ := (r.registerResponse_true_iff resp).mp hTaken
  obtain ⟨i, hLo, hHi, -⟩ := (hEnough resp hAnswer).text hHead hScan
  omega

theorem initOutput_of_registers {s t : System} (hRegisters : System.registersOutput a = true) (hStep : s.Step a t) :
    ∃ fields connected g ok, Known true fields ∧ (a = .initOutput connected g ∨ a = .initOutputTcpPose connected g) ∧
      Robot.initOutputWith fields s.robot connected g = some (ok, t.robot) := by
  unfold System.Step at hStep
  cases a with
  | initOutput connected g =>
    obtain ⟨⟨ok, b⟩, hInit, rfl⟩ := Option.map_eq_some_iff.mp hStep
    exact ⟨_, connected, g, ok, known_outputFields, Or.inl rfl, hInit⟩
  | initOutputTcpPose connected g =>
    obtain ⟨⟨ok, b⟩, hInit, rfl⟩ := Option.map_eq_some_iff.mp hStep
    exact ⟨_, connected, g, ok, known_outputFieldsTcpPose, Or.inr rfl, hInit⟩
  | _ => cases hRegisters

/-- The output is set up by an accepted answer, and by then a whole head has been read. -/
theorem Untouched.head_step (h : s.Untouched) (hStep : s.Step a t) (hEnough : s.Enough a)
    (hReady : t.system.robot.outInitialized = true) : 4 ≤ t.filled := by
  have hKept (hBefore : s.system.robot.outInitialized = true) : 4 ≤ t.filled :=
    hStep.2 ▸ (h.head hBefore).trans (le_filledAfter s a)
  cases hRegisters : System.registersOutput a with
  | false =>
    have hSame : t.system.robot.outInitialized = s.system.robot.outInitialized :=
      (System.output_step h.system.sound hRegisters hStep.1).2
    exact hKept (hSame ▸ hReady)
  | true =>
    obtain ⟨fields, connected, g, ok, hKnown, hAction, hInit⟩ := initOutput_of_registers hRegisters hStep.1
    have hAsked : s.system.robot.asks connected = true → s.AnswerEnough g (s.filledAfter a) := by
      rcases hAction with rfl | rfl <;> exact hEnough
    rcases Robot.initOutputWith_cases hKnown h.system.sound.outDir hInit with
      ⟨hSame, -⟩ | ⟨hNew, hConnected, hFresh, packet, r, -, hCases⟩
    · exact hKept (by rwa [hSame] at hReady)
    · rcases hCases with ⟨-, buffer, hRobot⟩ | ⟨-, resp, hAnswer, hTaken, -⟩
      · rw [hRobot] at hReady
        exact hKept hReady
      · have hAsks : s.system.robot.asks connected = true := by
          rw [Robot.asks, hNew, hConnected, hFresh]
          rfl
        rw [hStep.2]
        exact four_le_of_accepted (hAsked hAsks) hAnswer hTaken

theorem Untouched.running_step (h : s.Untouched) (hStep : s.Step a t) (hRunning : t.system.robot.running = true) :
    t.system.robot.outInitialized = true := by
  have hSame (hRuns : t.system.robot.running = s.system.robot.running)
      (hReady : t.system.robot.outInitialized = s.system.robot.outInitialized) :
      t.system.robot.outInitialized = true := by
    rw [hReady]
    exact h.running (hRuns ▸ hRunning)
  cases System.robotMoves_of_step hStep.1 with
  | output known _ done =>
    rcases Robot.initOutputWith_cases known h.system.sound.outDir done with
      ⟨hRobot, -⟩ | ⟨-, -, -, packet, r, -, ⟨-, buffer, hRobot⟩ | ⟨-, resp, -, -, hRobot⟩⟩
    · exact hSame (by rw [hRobot]) (by rw [hRobot])
    · exact hSame (by rw [hRobot]) (by rw [hRobot])
    · rw [hRobot]
  | input known _ done =>
    obtain ⟨packet, r, -, ⟨-, buffer, hRobot⟩ | ⟨resp, filed, -, -, -, -, -, hRobot⟩⟩ :=
      Robot.initInputWith_cases known h.system.sound.onlyInput h.system.sound.inDir done
    · exact hSame (by rw [hRobot]) (by rw [hRobot])
    · exact hSame (by rw [hRobot]) (by rw [hRobot])
  | vector _ done =>
    rcases Robot.sendVector_cases done with ⟨hRobot, -⟩ | ⟨-, -, w, -, hRobot⟩
    · exact hSame (by rw [hRobot]) (by rw [hRobot])
    · refine hSame ?_ ?_ <;> rw [hRobot] <;> rfl
  | wait _ done => exact hSame (by rw [done]) (by rw [done])
  | takeFrame done =>
    obtain ⟨buffer, mem, -, hRobot⟩ := Robot.takeFrame_eq_some done
    exact hSame (by rw [hRobot]) (by rw [hRobot])
  | publish now done =>
    have hRobot : t.system.robot = (s.system.robot.publish now).2 := done
    refine hSame ?_ ?_ <;> rw [hRobot, Robot.publish] <;> split <;> rfl
  | state synchronous done =>
    have hRobot : t.system.robot = (s.system.robot.state synchronous).2 := done
    refine hSame ?_ ?_ <;> rw [hRobot, Robot.state] <;> split <;> rfl
  | start x done =>
    have hRobot : t.system.robot = s.system.robot.start x := done
    rw [hRobot, Robot.start] at hRunning ⊢
    cases hReady : s.system.robot.outInitialized with
    | true => simp
    | false =>
      simp only [hReady, Bool.not_false, if_true] at hRunning ⊢
      rw [h.running hRunning] at hReady
      cases hReady
  | stop sendCode x done =>
    have hRobot : t.system.robot = (s.system.robot.stop sendCode x).2 := done
    rw [hRobot, Robot.stop] at hRunning ⊢
    cases hRuns : s.system.robot.running with
    | true => simp [hRuns] at hRunning
    | false => simp [hRuns] at hRunning

theorem Untouched.step (h : s.Untouched) (hStep : s.Step a t) :
    (s.Clean a ↔ s.Harmless a) ∧ (s.Harmless a → t.Untouched) := by
  obtain ⟨hMembers, hNext⟩ := h.system.step hStep.1
  refine ⟨and_congr hMembers (h.sees_iff a), fun hHarmless => ?_⟩
  refine ⟨hNext hHarmless.1, ?_, h.head_step hStep hHarmless.2, h.running_step hStep⟩
  rw [hStep.2]
  exact filledAfter_le h.room a

/-- The constructor's check of the answer to its version request looks at what has come only. -/
def VersionSeen (buffer : Buf) (x : Exchange) : Prop :=
  0 ≤ (doSendRecv buffer 1024 x).1 →
    shortReach PackageType.requestProtocolVersion.code (doSendRecv buffer 1024 x).2 ≤ filledBy 1024 x

theorem versionSeen_iff (buffer : Buf) (x : Exchange) :
    VersionSeen buffer x ↔ (0 ≤ x.sendCode → x.reply ≠ some []) := by
  rcases lt_or_ge x.sendCode 0 with hLost | hSent
  · rw [VersionSeen, doSendRecv, if_pos hLost]
    exact iff_of_true (fun h => absurd hLost (not_lt.mpr h)) fun h => absurd hLost (not_lt.mpr h)
  · obtain ⟨sendCode, reply⟩ := x
    rw [VersionSeen, doSendRecv, if_neg (not_lt.mpr hSent), imp_iff_right hSent]
    cases reply with
    | none => exact iff_of_true (fun h => absurd h (by simp [doRecv])) (Option.some_ne_none []).symm
    | some bytes =>
      rw [imp_iff_right (by rw [doRecv_some]; exact Int.natCast_nonneg _), ne_eq, Option.some.injEq]
      exact shortReach_le_filledBy_iff (by decide) (by decide) buffer hSent bytes

/-- Nothing unwritten is read in the construction and in a run behind it if and only if the version request is not
answered with nothing at all and every step is harmless. -/
theorem clean_iff_harmless {storage buffer : Buf} {x : Exchange} {actions : List Action} {s : Tracked} :
    VersionSeen buffer x ∧ Path (Restrict Clean Step) (new storage buffer x) actions s ↔
      (0 ≤ x.sendCode → x.reply ≠ some []) ∧ Path (Restrict Harmless Step) (new storage buffer x) actions s :=
  and_congr (versionSeen_iff buffer x)
    (Path.restrict_iff (p := Untouched) (fun _ _ _ h hStep => h.step hStep) (untouched_new storage buffer x))

theorem step_initInput {s : Tracked} {g : Registration} {ok : Bool} {b : Robot}
    (h : s.system.robot.initInput g = some (ok, b)) :
    s.Step (.initInput g) ⟨{ s.system with robot := b }, s.filledAfter (.initInput g)⟩ := ⟨System.step_initInput h, rfl⟩

set_option maxRecDepth 100000 in
/-- Setting up the input sends the speeds that nobody has set. -/
theorem initInput_sends_unwritten : ¬ ∀ (storage buffer : Buf) (x : Exchange) (actions : List Action) (s : Tracked),
    Path Step (new storage buffer x) actions s →
      VersionSeen buffer x ∧ Path (Restrict Clean Step) (new storage buffer x) actions s := by
  intro h
  have hInit : ((Robot.init (fun _ => 0) (fun _ => 0) ⟨-1, none⟩).initInput
      (answeredWith .setupInputs (typesOf false inputFields))).map
        (fun p => (p.2.packages.length, decide p.2.InputWritten)) = some (1, false) := by decide +kernel
  obtain ⟨⟨ok, b⟩, hResult, hEnd⟩ := Option.map_eq_some_iff.mp hInit
  obtain ⟨hSent, hUnwritten⟩ := Prod.mk.inj hEnd
  have hStep := step_initInput (s := new (fun _ => 0) (fun _ => 0) ⟨-1, none⟩) hResult
  cases (h _ _ _ _ _ (.cons hStep (.nil _))).2 with
  | cons head _ =>
    cases ((System.clean_iff hStep.1).mp head.1.1).1 with
    | inl hNothing =>
      have hNone : (new (fun _ => 0) (fun _ => 0) ⟨-1, none⟩).system.robot.packages = [] := Robot.packages_init _ _ _
      rw [hNone] at hNothing
      rw [hNothing] at hSent
      cases hSent
    | inr hWritten => exact absurd hWritten (of_decide_eq_false hUnwritten)

end Tracked

end LibUrx
