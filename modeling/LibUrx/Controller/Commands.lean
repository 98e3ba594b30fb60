import LibUrx.Controller.Registers
import LibUrx.Robot.Delivery

/-! # The commands of a robot, as its controller hears them

Once both recipes with poses are registered, each command is one package, and the package has what the members held
when it was sent. Only a pose command changes the pose.
-/
namespace LibUrx.Controller
open Bytes Text Rtde
set_option autoImplicit false

def vecOf (vs : List UInt64) : Vec := fun i => vs.getD i 0

/-- What the packages of a robot say, oldest first. -/
def sent (b : Robot) : List Inputs := b.packages.map Inputs.ofPackage

/-- Nothing below the members of commands has changed. -/
def SameBelow (m m' : Memory) : Prop := ∀ a n, a + n ≤ Member.inSeqnr → m'.read a n = m.read a n

theorem SameBelow.refl (m : Memory) : SameBelow m m := fun _ _ _ => rfl

theorem SameBelow.trans {m m' m'' : Memory} (h : SameBelow m m') (h' : SameBelow m' m'') : SameBelow m m'' :=
  fun a n hEnd => (h' a n hEnd).trans (h a n hEnd)

theorem SameBelow.setWord (m : Memory) {a : Nat} (hAbove : Member.inSeqnr ≤ a) (v : UInt32) :
    SameBelow m (setWord m a v) := by
  intro b n hEnd
  have hApart : Apart a 4 b n := Or.inr (by omega)
  exact read_setWord_of_apart hApart m v

theorem SameBelow.setDoubles (m : Memory) {a : Nat} (hAbove : Member.inSeqnr ≤ a) (vs : List UInt64) :
    SameBelow m (setDoubles m a vs) := fun _ _ hEnd => read_setDoubles_of_le (by omega) vs

theorem Outputs.Held.below {m m' : Memory} {o : Outputs} (h : Outputs.Held m o) (hBelow : SameBelow m m') :
    Outputs.Held m' o := by
  obtain ⟨hSeqnr, hQRefSeqnr, hQRef⟩ := h
  refine ⟨?_, ?_, ?_⟩
  · rw [getWord, hBelow _ _ (by decide)]
    exact hSeqnr
  · rw [getWord, hBelow _ _ (by decide)]
    exact hQRefSeqnr
  · rw [← hQRef]
    apply List.map_congr_left
    intro i hI
    have hLt := List.mem_range.mp hI
    rw [getDouble, getDouble, hBelow _ _ (by unfold dof at hLt; unfold Member.qRefBuf Member.inSeqnr; omega)]

theorem read_setDoubles_of_ge {m : Memory} {a b n : Nat} {vs : List UInt64} (h : a + 8 * vs.length ≤ b) :
    (setDoubles m a vs).read b n = m.read b n := by
  induction vs generalizing m a with
  | nil => rfl
  | cons v rest ih =>
    rw [List.length_cons] at h
    rw [setDoubles, ih (by omega)]
    exact Memory.read_write_of_apart (Or.inl (by rw [length_leBytes]; omega))

theorem getWord_congr {m m' : Memory} {a : Nat} (h : m'.read a 4 = m.read a 4) : getWord m' a = getWord m a := by
  rw [getWord, getWord, h]

theorem getDouble_congr {m m' : Memory} {a : Nat} (h : m'.read a 8 = m.read a 8) : getDouble m' a = getDouble m a := by
  rw [getDouble, getDouble, h]

theorem getDouble_setDoubles (m : Memory) (a : Nat) {vs : List UInt64} {i : Nat} (h : i < vs.length) :
    getDouble (setDoubles m a vs) (a + 8 * i) = vs.getD i 0 := by
  have hGet : vs[i]? = some (vs.getD i 0) := by
    rw [List.getD_eq_getElem?_getD, List.getElem?_eq_getElem h, Option.getD_some]
  rw [getDouble, read_setDoubles m a hGet, leNat_leBytes_of_lt (UInt64.toNat_lt _), UInt64.ofNat_toNat]

theorem getDouble_setWord_of_apart {a b : Nat} (h : Apart a 4 b 8) (m : Memory) (v : UInt32) :
    getDouble (setWord m a v) b = getDouble m b := by
  rw [getDouble, getDouble, read_setWord_of_apart h]

namespace Inputs

theorem held_setSeqnr (m : Memory) (v : UInt32) :
    held (setWord m Member.inSeqnr v) = { held m with seqnr := v } := by
  rw [held, held, Inputs.mk.injEq]
  refine ⟨getWord_setWord_self _ _ _, getWord_setWord_of_apart (by decide) _ _, funext fun i => ?_, funext fun i => ?_⟩
  · exact getDouble_setWord_of_apart (Or.inl (by unfold Member.inSeqnr Member.setQd; omega)) _ _
  · exact getDouble_setWord_of_apart (Or.inl (by unfold Member.inSeqnr Member.tcpPoseRef; omega)) _ _

theorem held_setCmd (m : Memory) (v : UInt32) : held (setWord m Member.cmd v) = { held m with cmd := v } := by
  rw [held, held, Inputs.mk.injEq]
  refine ⟨getWord_setWord_of_apart (by decide) _ _, getWord_setWord_self _ _ _, funext fun i => ?_, funext fun i => ?_⟩
  · exact getDouble_setWord_of_apart (Or.inl (by unfold Member.cmd Member.setQd; omega)) _ _
  · exact getDouble_setWord_of_apart (Or.inl (by unfold Member.cmd Member.tcpPoseRef; omega)) _ _

theorem held_setQd (m : Memory) {vs : List UInt64} (hLength : vs.length = dof) :
    held (setDoubles m Member.setQd vs) = { held m with qd := vecOf vs } := by
  have hSix : vs.length = 6 := hLength
  rw [held, held, Inputs.mk.injEq]
  refine ⟨?_, ?_, funext fun i => getDouble_setDoubles _ _ (by omega), funext fun i => ?_⟩
  · exact getWord_congr (read_setDoubles_of_le (by decide) vs)
  · exact getWord_congr (read_setDoubles_of_le (by decide) vs)
  · exact getDouble_congr (read_setDoubles_of_ge (by unfold Member.setQd Member.tcpPoseRef; omega))

theorem held_setPose (m : Memory) {vs : List UInt64} (hLength : vs.length = dof) :
    held (setDoubles m Member.tcpPoseRef vs) = { held m with tcpPose := vecOf vs } := by
  have hSix : vs.length = 6 := hLength
  rw [held, held, Inputs.mk.injEq]
  refine ⟨?_, ?_, funext fun i => ?_, funext fun i => getDouble_setDoubles _ _ (by omega)⟩
  · exact getWord_congr (read_setDoubles_of_le (by decide) vs)
  · exact getWord_congr (read_setDoubles_of_le (by decide) vs)
  · exact getDouble_congr (read_setDoubles_of_le (by unfold Member.setQd Member.tcpPoseRef; omega) vs)

theorem held_number (b : Robot) (c : Command) :
    held (b.number c).mem = { held b.mem with seqnr := b.lastSeqnr + 1, cmd := c.code } := by
  change held (setWord (setWord b.mem Member.inSeqnr (b.lastSeqnr + 1)) Member.cmd c.code) = _
  rw [held_setCmd, held_setSeqnr]

theorem held_speeds (b : Robot) (c : Command) {vs : List UInt64} (hLength : vs.length = dof) :
    held (b.commanded Member.setQd c vs).mem =
      ⟨b.lastSeqnr + 1, c.code, vecOf vs, (held b.mem).tcpPose⟩ := by
  have hNumber := held_number (b.withMem (setDoubles b.mem Member.setQd vs)) c
  rw [show (b.withMem (setDoubles b.mem Member.setQd vs)).mem = setDoubles b.mem Member.setQd vs from rfl,
    held_setQd b.mem hLength] at hNumber
  exact hNumber

theorem held_pose (b : Robot) (c : Command) {vs : List UInt64} (hLength : vs.length = dof) :
    held (b.commanded Member.tcpPoseRef c vs).mem =
      ⟨b.lastSeqnr + 1, c.code, (held b.mem).qd, vecOf vs⟩ := by
  have hNumber := held_number (b.withMem (setDoubles b.mem Member.tcpPoseRef vs)) c
  rw [show (b.withMem (setDoubles b.mem Member.tcpPoseRef vs)).mem = setDoubles b.mem Member.tcpPoseRef vs from rfl,
    held_setPose b.mem hLength] at hNumber
  exact hNumber

end Inputs

theorem sent_sentBy {b : Robot} (h : b.inRecipe.Combines [true]) :
    sent { b with handler := b.handler.sentBy 1 } = sent b ++ [Inputs.held b.mem] := by
  have hSmall : 4 + b.inRecipe.bytes < 65536 := Robot.bytes_of_fitsBlock h (by decide)
  rw [sent, Robot.packages_sentBy h.dirIn hSmall, List.map_append, List.map_singleton, Inputs.ofPackage_store h]
  rfl

/-- A robot with both recipes with poses, that has handed over `k` commands since. -/
structure Serving (b : Robot) (k : Nat) : Prop extends b.Numbered k where
  setUp : b.Assembled [true]
  outInitialized : b.outInitialized = true
  outRecipe : (RtdeRecipe.init.extended outputFieldsTcpPose).Alike b.outRecipe
  below : b.OutputBelow

/-- The calls of a robot that is set up. What it receives comes from its controller. -/
def serves : Action → Bool
  | .initOutput _ _ | .initOutputTcpPose _ _ | .initInput _ | .initInputTcpPose _ | .takeFrame (some _) _ => false
  | .updateW _ _ | .calculateQRef _ _ | .look _ | .matched _ | .expired _ | .raise _ | .takeFrame none _ | .publish _
  | .state _ | .start _ | .stop _ _ => true

theorem registers_of_serves {a : Action} (h : serves a = true) :
    System.registersInput a = false ∧ System.registersOutput a = false := by
  cases a with
  | initOutput | initOutputTcpPose | initInput | initInputTcpPose => cases h
  | _ => exact ⟨rfl, rfl⟩

/-- What a step of a robot tells its controller, and what it leaves in the members. -/
inductive Tells (b b' : Robot) (a : Action) : Prop where
  | nothing (same : sent b' = sent b) (kept : (Inputs.held b'.mem).tcpPose = (Inputs.held b.mem).tcpPose)
      (quiet : b.handsOver a = false)
  | other (x : Inputs) (more : sent b' = sent b ++ [x]) (cmd : x.cmd ≠ 3)
      (pose : x.tcpPose = (Inputs.held b.mem).tcpPose)
      (kept : (Inputs.held b'.mem).tcpPose = (Inputs.held b.mem).tcpPose)
      (action : ∀ vs sendCode, a ≠ .calculateQRef vs sendCode)
  | pose (vs : List UInt64) (sendCode : Int) (x : Inputs) (action : a = .calculateQRef vs sendCode)
      (more : sent b' = sent b ++ [x]) (cmd : x.cmd = 3) (seqnr : x.seqnr = b.lastSeqnr + 1)
      (pose : x.tcpPose = vecOf vs) (kept : (Inputs.held b'.mem).tcpPose = vecOf vs)

/-- A vector is turned down, or the package has what the members held when it was sent. -/
theorem Serving.sendVector {b b' : Robot} {k : Nat} (h : Serving b k) {a : Nat} {c : Command} {vs : List UInt64}
    {sendCode : Int} {ok : Bool} (hAbove : Member.inSeqnr ≤ a) (hSend : b.sendVector a c vs sendCode = (ok, b')) :
    (b' = b ∧ vs.length ≠ dof) ∨ (vs.length = dof ∧
      sent b' = sent b ++ [Inputs.held (b.commanded a c vs).mem] ∧
      (Inputs.held b'.mem).tcpPose = (Inputs.held (b.commanded a c vs).mem).tcpPose ∧ SameBelow b.mem b'.mem) := by
  rcases h.setUp.sendVector_cases hSend with ⟨rfl, -, hWhy⟩ | ⟨hLength, -, -, rfl⟩
  · refine Or.inl ⟨rfl, ?_⟩
    rcases hWhy with hNot | hNot
    · exact hNot
    · rw [h.inInitialized] at hNot
      cases hNot
  · have hRecipe : (b.commanded a c vs).inRecipe.Combines [true] := h.setUp.recipe
    have hBelow : SameBelow b.mem (b.commanded a c vs).mem :=
      ((SameBelow.setDoubles _ hAbove vs).trans (SameBelow.setWord _ le_rfl _)).trans
        (SameBelow.setWord _ (by decide) _)
    have hSent := sent_sentBy hRecipe
    refine Or.inr ⟨hLength, ?_, ?_, ?_⟩
    · cases ok with
      | false | true => exact hSent
    · cases ok with
      | false => rfl
      | true =>
        change (Inputs.held (setWord (b.commanded a c vs).mem Member.cmd Command.noCommand.code)).tcpPose = _
        rw [Inputs.held_setCmd]
    · cases ok with
      | false => exact hBelow
      | true => exact hBelow.trans (SameBelow.setWord _ (by decide) _)

theorem Serving.stop {b : Robot} {k : Nat} (h : Serving b k) (hRunning : b.running = true) (sendCode : Int)
    (x : Exchange) :
    sent (b.stop sendCode x).2 = sent b ++ [Inputs.held (b.number .stopCommand).mem] ∧
      (b.stop sendCode x).2.mem = (b.number .stopCommand).mem := by
  have hHandler : (b.number .stopCommand).handler.send (b.number .stopCommand).inRecipe.recipeId sendCode =
      (decide (0 < sendCode), (b.number .stopCommand).handler.sentBy 1) :=
    World.OnlyInput.send (w := (b.number .stopCommand).handler) h.onlyInput h.filed sendCode
  have hSent : ((b.number .stopCommand).send sendCode).2 =
      { b.number .stopCommand with handler := (b.number .stopCommand).handler.sentBy 1 } := by
    rw [Robot.send, hHandler]
  have hStop : (b.stop sendCode x).2 = { ((b.number .stopCommand).send sendCode).2 with
      running := false, handler := (((b.number .stopCommand).send sendCode).2.handler.stop x).2 } := by
    simp [Robot.stop, hRunning]
  have hRecipe : (b.number .stopCommand).inRecipe.Combines [true] := h.setUp.recipe
  rw [hStop, hSent]
  constructor
  · have hSame := Robot.sameInput_handlerStop
      { b.number .stopCommand with handler := (b.number .stopCommand).handler.sentBy 1 } x
    rw [sent, hSame.packages]
    exact sent_sentBy hRecipe
  · change (((b.number .stopCommand).handler.sentBy 1).stop x).2.mem = _
    rw [World.stop_world]
    rfl

theorem tells_nothing {b b' : Robot} {a : Action} (hPackages : b'.packages = b.packages) (hMem : b'.mem = b.mem)
    (hQuiet : b.handsOver a = false) : Tells b b' a ∧ SameBelow b.mem b'.mem := by
  rw [hMem]
  exact ⟨.nothing (congrArg (List.map Inputs.ofPackage) hPackages) (by rw [hMem]) hQuiet, SameBelow.refl _⟩

/-- What a call tells the controller. -/
theorem Serving.tells {s t : System} {a : Action} {k : Nat} (h : Serving s.robot k) (hServes : serves a = true)
    (hStep : s.Step a t) : Tells s.robot t.robot a ∧ SameBelow s.robot.mem t.robot.mem := by
  cases a with
  | initOutput | initOutputTcpPose | initInput | initInputTcpPose => cases hServes
  | updateW vs sendCode =>
    obtain rfl := Option.some.inj hStep
    have hVector : s.robot.updateW vs sendCode = ((s.robot.updateW vs sendCode).1, (s.robot.updateW vs sendCode).2) := rfl
    rcases h.sendVector (by decide) hVector with ⟨hSame, hLength⟩ | ⟨hLength, hSent, hKept, hBelow⟩
    · exact tells_nothing (by rw [hSame]) (by rw [hSame]) (by simp [Robot.handsOver, hLength])
    · rw [Inputs.held_speeds s.robot _ hLength] at hSent hKept
      have hCmd : Command.newControlInputCommand.code ≠ 3 := by decide
      exact ⟨.other _ hSent hCmd rfl hKept (by rintro _ _ ⟨⟩), hBelow⟩
  | calculateQRef vs sendCode =>
    obtain ⟨ok, b', hVector⟩ : ∃ ok b', s.robot.sendPose vs sendCode = (ok, b') := ⟨_, _, rfl⟩
    have hRobot : t.robot = b' := by
      simp only [System.Step, System.next, hVector] at hStep
      cases ok with
      | false | true => rw [← Option.some.inj hStep]
    rw [hRobot]
    rcases h.sendVector (by decide) hVector with ⟨rfl, hLength⟩ | ⟨hLength, hSent, hKept, hBelow⟩
    · exact tells_nothing rfl rfl (by simp [Robot.handsOver, hLength])
    · rw [Inputs.held_pose s.robot _ hLength] at hSent hKept
      exact ⟨.pose vs sendCode _ rfl hSent rfl rfl rfl hKept, hBelow⟩
  | look | matched | expired | raise =>
    obtain ⟨flag, hRobot, -⟩ := System.robot_of_wait rfl hStep
    exact tells_nothing (by rw [hRobot]; rfl) (by rw [hRobot]; rfl) rfl
  | takeFrame reply ts =>
    cases reply with
    | some bytes => cases hServes
    | none =>
      obtain rfl := Option.some.inj hStep
      exact tells_nothing rfl rfl rfl
  | publish now =>
    cases System.robotMoves_of_step hStep with
    | publish _ done =>
      rw [done, publish_eq h.outInitialized]
      exact tells_nothing rfl rfl rfl
    | output _ registers | input _ registers | wait registers => cases registers
    | vector sends => rcases sends with hNot | hNot <;> cases hNot
  | state synchronous =>
    obtain rfl := Option.some.inj hStep
    have hSame : (s.robot.state synchronous).2.packages = s.robot.packages ∧
        (s.robot.state synchronous).2.mem = s.robot.mem := by
      rw [Robot.state]
      split <;> exact ⟨rfl, rfl⟩
    exact tells_nothing hSame.1 hSame.2 rfl
  | start x =>
    obtain rfl := Option.some.inj hStep
    have hMem : (s.robot.start x).mem = s.robot.mem := by
      unfold Robot.start
      split
      · rfl
      · change (s.robot.handler.start x).2.mem = _
        rw [World.start_world]
        rfl
    exact tells_nothing (Robot.sameInput_start _ x).packages hMem rfl
  | stop sendCode x =>
    obtain rfl := Option.some.inj hStep
    cases hRunning : s.robot.running with
    | false =>
      have hSame : (s.robot.stop sendCode x).2 = s.robot := by simp [Robot.stop, hRunning]
      exact tells_nothing (by rw [hSame]) (by rw [hSame]) hRunning
    | true =>
      obtain ⟨hSent, hMem⟩ := h.stop hRunning sendCode x
      have hHeld := Inputs.held_number s.robot .stopCommand
      have hCmd : Command.stopCommand.code ≠ 3 := by decide
      rw [hHeld] at hSent
      refine ⟨.other _ hSent hCmd rfl ?_ (by rintro _ _ ⟨⟩), ?_⟩
      · rw [hMem, hHeld]
      · rw [hMem]
        exact (SameBelow.setWord _ le_rfl _).trans (SameBelow.setWord _ (by decide) _)

theorem Serving.step {s t : System} {a : Action} {k : Nat} (h : Serving s.robot k)
    (hNoRegistration : System.registersInput a = false ∧ System.registersOutput a = false) (hStep : s.Step a t) :
    Serving t.robot (k + if s.robot.handsOver a then 1 else 0) := by
  obtain ⟨hInput, hOutput⟩ := hNoRegistration
  obtain ⟨hRecipe, hInit⟩ := System.output_step h.toSound hOutput hStep
  have hSetUp := System.assembled_step h.setUp hStep
  rw [System.setUp_of_others hInput, List.append_nil] at hSetUp
  exact ⟨h.toNumbered.step hInput hStep, hSetUp, hInit.trans h.outInitialized, hRecipe ▸ h.outRecipe,
    System.below_step h.toSound h.below hStep⟩

/-- What the robot says of its controller's results stays, or it is published from the members. -/
def Publishes (s t : System) : Prop :=
  (t.robot.qRefOutSeqnr = s.robot.qRefOutSeqnr ∧ t.robot.urState = s.robot.urState ∧ t.frames = s.frames) ∨
    (s.frames ≠ 0 ∧ t.robot.qRefOutSeqnr = getWord s.robot.mem Member.qRefOutSeqnrBuf ∧
      t.robot.urState.jqRef = getDoubles s.robot.mem Member.qRefBuf)

theorem publishes_of_sendVector {b b' : Robot} {a : Nat} {c : Command} {vs : List UInt64} {sendCode : Int} {ok : Bool}
    (hSend : b.sendVector a c vs sendCode = (ok, b')) :
    b'.qRefOutSeqnr = b.qRefOutSeqnr ∧ b'.urState = b.urState := by
  rcases Robot.sendVector_cases hSend with ⟨rfl, -⟩ | ⟨-, -, w, -, rfl⟩
  · exact ⟨rfl, rfl⟩
  · exact ⟨rfl, rfl⟩

theorem Serving.publishes {s t : System} {a : Action} {k : Nat} (h : Serving s.robot k) (hServes : serves a = true)
    (hStep : s.Step a t) : Publishes s t := by
  cases a with
  | initOutput | initOutputTcpPose | initInput | initInputTcpPose => cases hServes
  | updateW vs sendCode =>
    obtain rfl := Option.some.inj hStep
    have hVector : s.robot.updateW vs sendCode = ((s.robot.updateW vs sendCode).1, (s.robot.updateW vs sendCode).2) := rfl
    obtain ⟨hSeqnr, hState⟩ := publishes_of_sendVector hVector
    exact Or.inl ⟨hSeqnr, hState, rfl⟩
  | calculateQRef vs sendCode =>
    obtain ⟨ok, b', hVector⟩ : ∃ ok b', s.robot.sendPose vs sendCode = (ok, b') := ⟨_, _, rfl⟩
    obtain ⟨hSeqnr, hState⟩ := publishes_of_sendVector hVector
    simp only [System.Step, System.next, hVector] at hStep
    cases ok with
    | false | true =>
      rw [← Option.some.inj hStep]
      exact Or.inl ⟨hSeqnr, hState, rfl⟩
  | look | matched | expired | raise =>
    obtain ⟨flag, hRobot, hFrames, -⟩ := System.robot_of_wait rfl hStep
    rw [Publishes, hRobot, hFrames]
    exact Or.inl ⟨rfl, rfl, rfl⟩
  | takeFrame reply ts =>
    cases reply with
    | some bytes => cases hServes
    | none =>
      obtain rfl := Option.some.inj hStep
      exact Or.inl ⟨rfl, rfl, rfl⟩
  | publish now =>
    simp only [System.Step, System.next] at hStep
    by_cases hFrames : s.frames = 0
    · rw [if_pos hFrames] at hStep
      cases hStep
    · rw [if_neg hFrames, publish_eq h.outInitialized] at hStep
      obtain rfl := Option.some.inj hStep
      exact Or.inr ⟨hFrames, rfl, rfl⟩
  | state synchronous =>
    obtain rfl := Option.some.inj hStep
    have hSame : (s.robot.state synchronous).2.qRefOutSeqnr = s.robot.qRefOutSeqnr ∧
        (s.robot.state synchronous).2.urState = s.robot.urState := by
      rw [Robot.state]
      split <;> exact ⟨rfl, rfl⟩
    exact Or.inl ⟨hSame.1, hSame.2, rfl⟩
  | start x =>
    obtain rfl := Option.some.inj hStep
    have hSame : (s.robot.start x).qRefOutSeqnr = s.robot.qRefOutSeqnr ∧ (s.robot.start x).urState = s.robot.urState := by
      rw [Robot.start]
      split <;> exact ⟨rfl, rfl⟩
    exact Or.inl ⟨hSame.1, hSame.2, rfl⟩
  | stop sendCode x =>
    obtain rfl := Option.some.inj hStep
    have hSame : (s.robot.stop sendCode x).2.qRefOutSeqnr = s.robot.qRefOutSeqnr ∧
        (s.robot.stop sendCode x).2.urState = s.robot.urState := by
      rw [Robot.stop]
      split <;> exact ⟨rfl, rfl⟩
    exact Or.inl ⟨hSame.1, hSame.2, rfl⟩

/-- No reception touches the members of commands. -/
theorem read_parsedMemory {b : Robot} (h : b.OutputBelow) (hFormed : b.outRecipe.Formed) (load : Buf) (ts : UInt64)
    (m : Memory) {a : Nat} (hAbove : Member.inSeqnr ≤ a) (n : Nat) :
    (b.outRecipe.parsedMemory load ts m).read a n = m.read a n := by
  rw [RtdeRecipe.parsedMemory, h.tsNs, Memory.read_writeAll_of_apart]
  intro entry hEntry
  simp only [Option.toList_none, List.map_nil, List.append_nil] at hEntry
  exact decodedWrites_apart hFormed.wellTyped (fun tok hTok => Or.inl ((h.ends tok hTok).trans hAbove)) entry hEntry

theorem Inputs.held_congr {m m' : Memory} (h : ∀ a n, Member.inSeqnr ≤ a → m'.read a n = m.read a n) :
    held m' = held m := by
  rw [held, held, Inputs.mk.injEq]
  refine ⟨getWord_congr (h _ _ le_rfl), getWord_congr (h _ _ (by decide)), funext fun i => ?_, funext fun i => ?_⟩
  · exact getDouble_congr (h _ _ (by unfold Member.inSeqnr Member.setQd; omega))
  · exact getDouble_congr (h _ _ (by unfold Member.inSeqnr Member.tcpPoseRef; omega))

/-- A whole package of the output registers is refused, or it leaves them in the members. -/
theorem Serving.receives {b b' : Robot} {k : Nat} (h : Serving b k) {id : UInt8} {t : Telemetry} {o : Outputs}
    {ts : UInt64} {ok : Bool} (hTake : b.takeFrame (some (o.package id t)) ts = some (ok, b')) :
    ((ok = false ∧ b'.mem = b.mem) ∨ Outputs.Held b'.mem o) ∧ Inputs.held b'.mem = Inputs.held b.mem ∧
      b'.packages = b.packages ∧ b'.qRefOutSeqnr = b.qRefOutSeqnr ∧ b'.urState = b.urState := by
  have hBytes : b.outRecipe.expectedBytes = 304 := h.outRecipe.bytes.trans bytes_outputFieldsTcpPose
  have hLength : (o.package id t).length = 308 := by
    change (_ :: _ :: _ :: _ :: o.payload t).length = 308
    simp [o.length_payload t]
  have hRead : readOf (some (o.package id t)) = o.package id t := by
    rw [readOf, Option.getD_some, List.take_of_length_le (by rw [hLength]; decide)]
  rcases Robot.takeFrame_cases h.toSound h.outInitialized hBytes (some (o.package id t)) ts with
    ⟨buffer, hRefused⟩ | ⟨-, buffer, load, hLoad, hTaken⟩
  · obtain ⟨rfl, rfl⟩ := Prod.mk.inj (Option.some.inj (hTake.symm.trans hRefused))
    exact ⟨Or.inl ⟨rfl, rfl⟩, rfl, rfl, rfl, rfl⟩
  · obtain ⟨rfl, rfl⟩ := Prod.mk.inj (Option.some.inj (hTake.symm.trans hTaken))
    rw [hRead] at hLoad
    have hHeld := Outputs.held_of_parsed h.outRecipe (h.formed 0) (hLoad (by rw [hLength])) ts b.mem
    have hKept := Inputs.held_congr fun a n hAbove =>
      read_parsedMemory h.below (h.formed 0) load ts b.mem hAbove n
    exact ⟨Or.inr hHeld, hKept, rfl, rfl, rfl⟩

end LibUrx.Controller
