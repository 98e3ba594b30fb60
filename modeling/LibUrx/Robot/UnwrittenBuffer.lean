import LibUrx.Robot.BufferReads
import LibUrx.Rtde.BufferFront

/-! # Clean runs do not depend on what has not been written

A step that looks only at what has been written in the receive buffer does the same whatever the rest of the buffer
holds. So does a clean run: from every first content of the buffer it is a run, with the same requests, packages,
members and states.
-/
namespace LibUrx
open Bytes Text Rtde Runs
set_option autoImplicit false

namespace Robot

def holding (b : Robot) (buffer : Buf) : Robot := { b with handler := b.handler.holding buffer }

variable {b b' : Robot} {buffer : Buf} {k : Nat} {g : Registration} {ok : Bool}

theorem initOutputWith_holding {fields : List FieldOf} (hKnown : Known b.outRecipe.dirOut fields) {connected : Bool}
    (hAsks : b.asks connected = true) (h : SameFront k b.handler.buffer buffer)
    (hSeen : ∀ resp, b.handler.answer g.exchange = some resp →
      registerReach resp ≤ max k (filledBy packetBytes g.exchange))
    (hDone : initOutputWith fields b connected g = some (ok, b')) :
    ∃ buffer', SameFront (max k (filledBy packetBytes g.exchange)) b'.handler.buffer buffer' ∧
      initOutputWith fields (b.holding buffer) connected g = some (ok, b'.holding buffer') := by
  rw [initOutputWith_asking hKnown hAsks] at hDone
  obtain ⟨⟨ok, w⟩, hRegister, hEnd⟩ := Option.map_eq_some_iff.mp hDone
  obtain ⟨rfl, rfl⟩ := Prod.mk.inj hEnd
  obtain ⟨buffer', hFront, hOver⟩ :=
    World.registerRecipe_holding (w := b.handler.setRecipe 0 (b.outRecipe.extended fields)) h hSeen hRegister
  change World.registerRecipe
    ((b.holding buffer).handler.setRecipe 0 ((b.holding buffer).outRecipe.extended fields)) 0 g =
    _ at hOver
  have hAsking := initOutputWith_asking (b := b.holding buffer) hKnown hAsks g
  rw [hOver] at hAsking
  refine ⟨buffer', ?_, hAsking.trans ?_⟩
  · cases ok <;> exact hFront
  · cases ok <;> rfl

theorem initInputWith_holding {fields : List FieldOf} (h : SameFront k b.handler.buffer buffer)
    (hSeen : ∀ resp, b.handler.answer g.exchange = some resp →
      registerReach resp ≤ max k (filledBy packetBytes g.exchange))
    (hDone : initInputWith fields b g = some (ok, b')) :
    ∃ buffer', SameFront (max k (filledBy packetBytes g.exchange)) b'.handler.buffer buffer' ∧
      initInputWith fields (b.holding buffer) g = some (ok, b'.holding buffer') := by
  rw [initInputWith_eq] at hDone
  obtain ⟨⟨ok, w⟩, hRegister, hEnd⟩ := Option.map_eq_some_iff.mp hDone
  obtain ⟨rfl, rfl⟩ := Prod.mk.inj hEnd
  obtain ⟨buffer', hFront, hOver⟩ :=
    World.registerRecipe_holding (w := b.handler.setRecipe 1 (addFieldsAnyway b.inRecipe fields)) h hSeen hRegister
  refine ⟨buffer', hFront, (initInputWith_eq (b.holding buffer) g).trans ?_⟩
  change Option.map _
    (((b.handler.setRecipe 1 (addFieldsAnyway b.inRecipe fields)).holding buffer).registerRecipe 1 g) = _
  rw [hOver]
  rfl

theorem send_holding (b : Robot) (buffer : Buf) (sendCode : Int) :
    (b.holding buffer).send sendCode = ((b.send sendCode).1, (b.send sendCode).2.holding buffer) := by
  have hSend : (b.holding buffer).handler.send b.inRecipe.recipeId sendCode =
      ((b.handler.send b.inRecipe.recipeId sendCode).1,
        (b.handler.send b.inRecipe.recipeId sendCode).2.holding buffer) :=
    World.send_buffer b.handler buffer b.inRecipe.recipeId sendCode
  have hId : (b.holding buffer).inRecipe.recipeId = b.inRecipe.recipeId := rfl
  rw [Robot.send, hId, hSend]
  rfl

theorem sendVector_holding (b : Robot) (buffer : Buf) (a : Nat) (c : Command) (vs : List UInt64) (sendCode : Int) :
    (b.holding buffer).sendVector a c vs sendCode =
      ((b.sendVector a c vs sendCode).1, (b.sendVector a c vs sendCode).2.holding buffer) := by
  have hSend := send_holding ((b.withMem (setDoubles b.mem a vs)).number c) buffer sendCode
  change (((b.holding buffer).withMem (setDoubles (b.holding buffer).mem a vs)).number c).send sendCode = _ at hSend
  have hReady : (b.holding buffer).inInitialized = b.inInitialized := rfl
  rw [sendVector, sendVector, hReady, hSend]
  split
  · rfl
  · split
    · rfl
    · cases ((b.withMem (setDoubles b.mem a vs)).number c).send sendCode with
      | mk ok b' => cases ok <;> rfl

theorem start_idle {b : Robot} (h : b.outInitialized = false) (x : Exchange) : b.start x = b := by simp [start, h]

theorem stop_idle {b : Robot} (h : b.running = false) (sendCode : Int) (x : Exchange) :
    b.stop sendCode x = (false, b) := by
  simp [stop, h]

theorem start_holding (b : Robot) (buffer : Buf) (x : Exchange) (h : b.outInitialized = true) :
    (b.holding buffer).start x = (b.start x).holding (doSendRecv buffer 4 x).2 := by
  have hReady : (b.holding buffer).outInitialized = true := h
  have hStart : ((b.holding buffer).handler.start x).2 = (b.handler.start x).2.holding (doSendRecv buffer 4 x).2 :=
    World.start_holding b.handler buffer x
  rw [start, start, if_neg (by simp [hReady]), if_neg (by simp [h]), hStart]
  rfl

theorem stop_holding (b : Robot) (buffer : Buf) (sendCode : Int) (x : Exchange) (h : b.running = true) :
    ((b.holding buffer).stop sendCode x).2 = (b.stop sendCode x).2.holding (doSendRecv buffer 4 x).2 := by
  have hRuns : (b.holding buffer).running = true := h
  have hSend := send_holding (b.number .stopCommand) buffer sendCode
  change ((b.holding buffer).number .stopCommand).send sendCode = _ at hSend
  rw [stop, stop, if_neg (by simp [hRuns]), if_neg (by simp [h]), hSend]
  dsimp only
  have hStop := World.stop_holding ((b.number .stopCommand).send sendCode).2.handler buffer x
  change (((((b.number .stopCommand).send sendCode).2.holding buffer).handler).stop x).2 = _ at hStop
  rw [hStop]
  rfl

theorem buffer_start (b : Robot) (x : Exchange) (h : b.outInitialized = true) :
    (b.start x).handler.buffer = (doSendRecv b.handler.buffer 4 x).2 := by
  rw [start, if_neg (by simp [h])]
  exact congrArg World.buffer (World.start_world b.handler x)

theorem buffer_stop (b : Robot) (sendCode : Int) (x : Exchange) (h : b.running = true) :
    (b.stop sendCode x).2.handler.buffer = (doSendRecv b.handler.buffer 4 x).2 := by
  rw [stop, if_neg (by simp [h])]
  have hSent : ((b.number .stopCommand).send sendCode).2.handler.buffer = b.handler.buffer := World.buffer_send _ _ _
  refine (congrArg World.buffer (World.stop_world _ x)).trans ?_
  change (doSendRecv ((b.number .stopCommand).send sendCode).2.handler.buffer 4 x).2 = _
  rw [hSent]

theorem takeFrame_none (b : Robot) (ts : UInt64) : b.takeFrame none ts = some (false, b) := by
  simp [takeFrame, World.recv, doRecv]

theorem takeFrame_holding {bytes : List UInt8} {ts : UInt64} (h : SameFront k b.handler.buffer buffer)
    (hSound : b.Sound) (hBounded : b.outRecipe.Bounded) (hHead : 4 ≤ max k (min packetBytes (bytes.length + 1)))
    (hWhole : b.outInitialized = true → World.Accepts b.outRecipe (readOver packetBytes bytes b.handler.buffer) →
      4 + b.outRecipe.expectedBytes ≤ (bytes.take packetBytes).length)
    (hDone : b.takeFrame (some bytes) ts = some (ok, b')) :
    ∃ buffer', SameFront (max k (min packetBytes (bytes.length + 1))) b'.handler.buffer buffer' ∧
      (b.holding buffer).takeFrame (some bytes) ts = some (ok, b'.holding buffer') := by
  have hSource (i : Nat) (hOut : b.handler.out = some i) : i = 0 ∧ b.outInitialized = true := by
    rw [hSound.out] at hOut
    split at hOut
    · exact ⟨(Option.some.inj hOut).symm, ‹_›⟩
    · cases hOut
  obtain ⟨⟨ok, w⟩, hRecv, hEnd⟩ := Option.map_eq_some_iff.mp hDone
  obtain ⟨rfl, rfl⟩ := Prod.mk.inj hEnd
  obtain ⟨hFront, hOver⟩ := World.recv_holding h (fun i hOut => by
      obtain ⟨rfl, -⟩ := hSource i hOut
      exact ⟨hSound.formed 0, hBounded, hSound.outDir⟩) hHead (fun i hOut => by
      obtain ⟨rfl, hReady⟩ := hSource i hOut
      exact hWhole hReady) hRecv
  refine ⟨_, hFront, ?_⟩
  have hOver' : (b.holding buffer).handler.recv (some bytes) ts = _ := hOver
  rw [takeFrame, hOver']
  rfl

theorem publish_holding (b : Robot) (buffer : Buf) (now : Int) :
    (b.holding buffer).publish now = ((b.publish now).1, (b.publish now).2.holding buffer) := by
  have hReady : (b.holding buffer).outInitialized = b.outInitialized := rfl
  rw [publish, publish, hReady]
  split <;> rfl

theorem state_holding (b : Robot) (buffer : Buf) (synchronous : Bool) :
    (b.holding buffer).state synchronous = ((b.state synchronous).1, (b.state synchronous).2.holding buffer) := by
  have hNew : (b.holding buffer).updatedState = b.updatedState := rfl
  rw [state, state, hNew]
  split <;> rfl

theorem init_holding (storage buffer buffer' : Buf) (x : Exchange) :
    init storage buffer' x = (init storage buffer x).holding (doSendRecv buffer' 1024 x).2 := by
  let mem := setWord (setWord ⟨storage, []⟩ Member.inSeqnr 1) Member.cmd Command.noCommand.code
  have hVersion := World.setVersion_holding ((World.fresh mem buffer).setRecipe 1 RtdeRecipe.init.dirInput.2) buffer' x
  exact congrArg (fun w => ({ init storage buffer x with handler := w } : Robot)) hVersion

end Robot

namespace System

def holding (s : System) (buffer : Buf) : System := { s with robot := s.robot.holding buffer }

/-- An action that reads nothing does not look at the buffer. -/
theorem next_holding {s : System} {a : Action} (hNone : s.reads a = none) (buffer : Buf) :
    (s.holding buffer).next a = (s.next a).map fun t => t.holding buffer := by
  have hOutput {connected : Bool} {g : Registration} (fields : List FieldOf)
      (hReads : (if s.robot.asks connected then some (packetBytes, g.exchange) else none) = none) :
      ((Robot.initOutputWith fields (s.robot.holding buffer) connected g).map fun p =>
          ({ s with robot := p.2 } : System)) =
        ((Robot.initOutputWith fields s.robot connected g).map fun p => ({ s with robot := p.2 } : System)).map
          fun t => t.holding buffer := by
    have hIdle : s.robot.asks connected = false := by
      cases hAsks : s.robot.asks connected with
      | false => rfl
      | true =>
        rw [hAsks] at hReads
        cases hReads
    rw [Robot.initOutputWith_idle hIdle, Robot.initOutputWith_idle (b := s.robot.holding buffer) hIdle]
    rfl
  have hCalls : (s.holding buffer).calls = s.calls := rfl
  have hFrames : (s.holding buffer).frames = s.frames := rfl
  have hSeqnr : (s.holding buffer).robot.qRefOutSeqnr = s.robot.qRefOutSeqnr := rfl
  cases a with
  | initOutput connected g => exact hOutput outputFields hNone
  | initOutputTcpPose connected g => exact hOutput outputFieldsTcpPose hNone
  | initInput g | initInputTcpPose g | takeFrame reply ts => cases hNone
  | updateW newW sendCode =>
    have hSend := s.robot.sendVector_holding buffer Member.setQd .newControlInputCommand newW sendCode
    exact congrArg (fun p => some ({ s with robot := p.2 } : System)) hSend
  | calculateQRef newPose sendCode =>
    have hSend : (s.holding buffer).robot.sendPose newPose sendCode =
        ((s.robot.sendPose newPose sendCode).1, (s.robot.sendPose newPose sendCode).2.holding buffer) :=
      s.robot.sendVector_holding buffer Member.tcpPoseRef .newTcpPoseRefCommand newPose sendCode
    simp only [next, hSend]
    cases s.robot.sendPose newPose sendCode with
    | mk ok b => cases ok <;> rfl
  | look k =>
    simp only [next, hCalls]
    split <;> rfl
  | matched k | expired k =>
    simp only [next, hCalls, hSeqnr]
    split
    · split <;> rfl
    · rfl
  | raise k =>
    simp only [next, hCalls]
    split <;> rfl
  | publish now =>
    have hPublish : (s.holding buffer).robot.publish now = _ := s.robot.publish_holding buffer now
    simp only [next, hFrames, hPublish]
    split <;> rfl
  | state synchronous =>
    have hState := s.robot.state_holding buffer synchronous
    exact congrArg (fun p => some ({ s with robot := p.2 } : System)) hState
  | start x =>
    cases hReady : s.robot.outInitialized with
    | true =>
      have hReads : s.reads (.start x) = some (4, x) := if_pos hReady
      rw [hReads] at hNone
      cases hNone
    | false =>
      simp only [next, Robot.start_idle hReady]
      rw [Robot.start_idle (b := (s.holding buffer).robot) hReady]
      rfl
  | stop sendCode x =>
    cases hRuns : s.robot.running with
    | true =>
      have hReads : s.reads (.stop sendCode x) = some (4, x) := if_pos hRuns
      rw [hReads] at hNone
      cases hNone
    | false =>
      simp only [next, Robot.stop_idle hRuns]
      rw [Robot.stop_idle (b := (s.holding buffer).robot) hRuns]
      rfl

theorem holding_self (s : System) : s.holding s.robot.handler.buffer = s := rfl

theorem buffer_of_unread {s t : System} {a : Action} (hNone : s.reads a = none) (hStep : s.Step a t) :
    t.robot.handler.buffer = s.robot.handler.buffer := by
  have hSame := next_holding hNone s.robot.handler.buffer
  rw [holding_self, show s.next a = some t from hStep] at hSame
  exact congrArg (fun t => t.robot.handler.buffer) (Option.some.inj hSame)

end System

namespace Tracked

def holding (s : Tracked) (buffer : Buf) : Tracked := ⟨s.system.holding buffer, s.filled⟩

variable {s t : Tracked} {a : Action} {buffer : Buf}

theorem filledAfter_of_reads {rsz : Nat} {x : Exchange} (h : s.system.reads a = some (rsz, x)) :
    s.filledAfter a = max s.filled (filledBy rsz x) := by
  rw [filledAfter, h]

/-- The step can be made over another buffer, and ends alike. -/
def Follows (s : Tracked) (a : Action) (t : Tracked) (buffer : Buf) : Prop :=
  ∃ buffer', SameFront t.filled t.buffer buffer' ∧ (s.holding buffer).Step a (t.holding buffer')

theorem Follows.of_next {buffer' : Buf} (hStep : s.Step a t) (hEnd : SameFront (s.filledAfter a) t.buffer buffer')
    (hOver : (s.system.holding buffer).next a = some (t.system.holding buffer')) : s.Follows a t buffer :=
  ⟨buffer', hStep.2 ▸ hEnd, hOver, hStep.2⟩

theorem Follows.of_unread (hNone : s.system.reads a = none) (hStep : s.Step a t)
    (hFront : SameFront s.filled s.buffer buffer) : s.Follows a t buffer := by
  have hSame : t.buffer = s.buffer := System.buffer_of_unread hNone hStep.1
  have hUnread : s.filledAfter a = s.filled := by rw [filledAfter, hNone]
  have hNext : s.system.next a = some t.system := hStep.1
  refine ⟨buffer, ?_, ?_, hStep.2⟩
  · rw [hStep.2, hUnread, hSame]
    exact hFront
  · change (s.system.holding buffer).next a = some (t.system.holding buffer)
    rw [System.next_holding hNone, hNext]
    rfl

/-- For an action that does nothing but call a function of the robot. -/
theorem Follows.of_robot {rsz : Nat} {x : Exchange} {call callOver : Option (Bool × Robot)}
    (hReads : s.system.reads a = some (rsz, x)) (hStep : s.Step a t)
    (hCall : s.system.next a = call.map fun p => { s.system with robot := p.2 })
    (hCallOver : (s.system.holding buffer).next a = callOver.map fun p => { s.system with robot := p.2 })
    (hDone : ∀ ok b, call = some (ok, b) → ∃ buffer',
      SameFront (max s.filled (filledBy rsz x)) b.handler.buffer buffer' ∧ callOver = some (ok, b.holding buffer')) :
    s.Follows a t buffer := by
  obtain ⟨⟨ok, b⟩, hResult, hEnd⟩ := Option.map_eq_some_iff.mp (hCall.symm.trans hStep.1)
  obtain ⟨buffer', hSame, hOver⟩ := hDone ok b hResult
  have hBuffer : t.buffer = b.handler.buffer := congrArg (fun t => t.robot.handler.buffer) hEnd.symm
  apply Follows.of_next hStep
  · rw [filledAfter_of_reads hReads, hBuffer]
    exact hSame
  · rw [hCallOver, hOver, ← hEnd]
    rfl

/-- For an action that ends in an exchange of which nothing but the buffer remains. -/
theorem Follows.of_exchange {x : Exchange} {b : Robot} (hReads : s.system.reads a = some (4, x)) (hStep : s.Step a t)
    (hFront : SameFront s.filled s.buffer buffer) (hCall : s.system.next a = some { s.system with robot := b })
    (hCallOver : (s.system.holding buffer).next a =
      some { s.system with robot := b.holding (doSendRecv buffer 4 x).2 })
    (hBuffer : b.handler.buffer = (doSendRecv s.buffer 4 x).2) : s.Follows a t buffer := by
  have hEnd := Option.some.inj (hCall.symm.trans hStep.1)
  have hSame : t.buffer = (doSendRecv s.buffer 4 x).2 :=
    (congrArg (fun t => t.robot.handler.buffer) hEnd.symm).trans hBuffer
  apply Follows.of_next hStep
  · rw [filledAfter_of_reads hReads, hSame]
    exact (hFront.exchange 4 x).2
  · rw [hCallOver, ← hEnd]
    rfl

/-- What one step does is decided by the cells that have been written, if it looks at no others. -/
theorem step_holding (h : s.Untouched) (hBounded : s.system.robot.outRecipe.Bounded)
    (hFront : SameFront s.filled s.buffer buffer) (hSeen : s.SeesWritten a) (hStep : s.Step a t) :
    s.Follows a t buffer := by
  cases hReads : s.system.reads a with
  | none => exact .of_unread hReads hStep hFront
  | some read =>
    obtain ⟨rsz, x⟩ := read
    have hAfter := filledAfter_of_reads hReads
    have hKnown {fields : List FieldOf} (hNames : Known true fields) : Known s.system.robot.outRecipe.dirOut fields :=
      h.system.sound.outDir.symm ▸ hNames
    cases a with
    | initOutput connected g =>
      obtain ⟨hAsks, hRead⟩ := Option.ite_some_none_eq_some.mp hReads
      obtain ⟨rfl, rfl⟩ := Prod.mk.inj hRead
      exact .of_robot hReads hStep rfl rfl fun ok b hInit => Robot.initOutputWith_holding
        (hKnown known_outputFields) hAsks hFront (fun resp hAnswer => hAfter ▸ hSeen hAsks resp hAnswer) hInit
    | initOutputTcpPose connected g =>
      obtain ⟨hAsks, hRead⟩ := Option.ite_some_none_eq_some.mp hReads
      obtain ⟨rfl, rfl⟩ := Prod.mk.inj hRead
      exact .of_robot hReads hStep rfl rfl fun ok b hInit => Robot.initOutputWith_holding
        (hKnown known_outputFieldsTcpPose) hAsks hFront (fun resp hAnswer => hAfter ▸ hSeen hAsks resp hAnswer) hInit
    | initInput g | initInputTcpPose g =>
      obtain ⟨rfl, rfl⟩ := Prod.mk.inj (Option.some.inj hReads)
      exact .of_robot hReads hStep rfl rfl fun ok b hInit =>
        Robot.initInputWith_holding hFront (fun resp hAnswer => hAfter ▸ hSeen resp hAnswer) hInit
    | takeFrame reply ts =>
      obtain ⟨rfl, rfl⟩ := Prod.mk.inj (Option.some.inj hReads)
      obtain ⟨⟨ok, b⟩, hTake, hEnd⟩ := Option.map_eq_some_iff.mp hStep.1
      have hBuffer : t.buffer = b.handler.buffer := congrArg (fun t => t.robot.handler.buffer) hEnd.symm
      have hTakes {buffer' : Buf}
          (hOver : (s.system.holding buffer).robot.takeFrame reply ts = some (ok, b.holding buffer')) :
          (s.system.holding buffer).next (.takeFrame reply ts) = some (t.system.holding buffer') := by
        simp only [System.next, ← hEnd, hOver]
        rfl
      cases reply with
      | none =>
        obtain ⟨rfl, rfl⟩ := Prod.mk.inj (Option.some.inj ((s.system.robot.takeFrame_none ts).symm.trans hTake))
        refine .of_next hStep ?_ (hTakes (Robot.takeFrame_none _ ts))
        rw [hAfter, hBuffer]
        exact hFront.mono (max_le le_rfl (Nat.zero_le s.filled))
      | some bytes =>
        have hBytes : filledBy packetBytes ⟨0, some bytes⟩ = min packetBytes (bytes.length + 1) := if_neg (lt_irrefl 0)
        rw [hBytes] at hAfter
        obtain ⟨hHead, hWhole⟩ := hSeen
        rw [takeFrame_true_iff h.system.sound, and_imp] at hWhole
        obtain ⟨buffer', hSame, hOver⟩ :=
          Robot.takeFrame_holding hFront h.system.sound hBounded (hAfter ▸ hHead) hWhole hTake
        exact .of_next hStep (by rwa [hAfter, hBuffer]) (hTakes hOver)
    | start x =>
      obtain ⟨hReady, hRead⟩ := Option.ite_some_none_eq_some.mp hReads
      obtain ⟨rfl, rfl⟩ := Prod.mk.inj hRead
      exact .of_exchange hReads hStep hFront rfl
        (congrArg (fun b => some ({ s.system with robot := b } : System))
          (s.system.robot.start_holding buffer x hReady))
        (s.system.robot.buffer_start x hReady)
    | stop sendCode x =>
      obtain ⟨hRuns, hRead⟩ := Option.ite_some_none_eq_some.mp hReads
      obtain ⟨rfl, rfl⟩ := Prod.mk.inj hRead
      exact .of_exchange hReads hStep hFront rfl
        (congrArg (fun b => some ({ s.system with robot := b } : System))
          (s.system.robot.stop_holding buffer sendCode x hRuns))
        (s.system.robot.buffer_stop sendCode x hRuns)
    | _ => cases hReads

theorem bounded_step (h : s.Untouched) (hBounded : s.system.robot.outRecipe.Bounded) (hStep : s.Step a t) :
    t.system.robot.outRecipe.Bounded := by
  cases hRegisters : System.registersOutput a with
  | false =>
    rw [(System.output_step h.system.sound hRegisters hStep.1).1]
    exact hBounded
  | true =>
    obtain ⟨fields, connected, g, ok, hKnown, -, hInit⟩ := initOutput_of_registers hRegisters hStep.1
    rcases Robot.initOutputWith_cases hKnown h.system.sound.outDir hInit with
      ⟨hRobot, -⟩ | ⟨-, -, -, packet, r, hMsg, ⟨-, buffer, hRobot⟩ | ⟨-, resp, -, -, hRobot⟩⟩
    · rw [hRobot]
      exact hBounded
    · rw [hRobot]
      change (World.recipes (World.asked s.system.robot.handler 0 r.clearFields packet buffer) 0).Bounded
      rw [World.asked_self]
      exact fun tok hMem => absurd hMem List.not_mem_nil
    · have hAlike := RtdeRecipe.alike_getMsg hMsg
      have hExtended := hBounded.extended (h.system.sound.outDir.symm ▸ hKnown)
      rw [hRobot]
      change (World.recipes (World.asked s.system.robot.handler 0 (r.accepted resp) packet resp) 0).Bounded
      rw [World.asked_self]
      intro tok hMem
      have hOld : tok ∈ (s.system.robot.outRecipe.extended fields).fields := hAlike.fields ▸ hMem
      exact (hExtended tok hOld).trans hAlike.bytes.ge

theorem run_holding (h : s.Untouched) (hBounded : s.system.robot.outRecipe.Bounded) {actions : List Action}
    (hFront : SameFront s.filled s.buffer buffer) (hRun : Path (Restrict Clean Step) s actions t) :
    ∃ buffer', SameFront t.filled t.buffer buffer' ∧ Path Step (s.holding buffer) actions (t.holding buffer') := by
  induction hRun generalizing buffer with
  | nil => exact ⟨buffer, hFront, .nil _⟩
  | cons head tail ih =>
    obtain ⟨hClean, hStep⟩ := head
    obtain ⟨hSame, hKeep⟩ := h.step hStep
    obtain ⟨buffer', hNext, hOver⟩ := step_holding h hBounded hFront hClean.2 hStep
    obtain ⟨last, hEnd, hRest⟩ := ih (hKeep (hSame.mp hClean)) (bounded_step h hBounded hStep) hNext
    exact ⟨last, hEnd, .cons hOver hRest⟩

/-- A clean run is a run from every content of the buffer, and ends in the same system but for cells of the buffer that
have not been written. -/
theorem clean_run_any_buffer {storage buffer buffer' : Buf} {x : Exchange} {actions : List Action} {s : Tracked}
    (hRun : Path (Restrict Clean Step) (new storage buffer x) actions s) :
    ∃ last, SameFront s.filled s.buffer last ∧ Path Step (new storage buffer' x) actions (s.holding last) := by
  have hFront : SameFront (filledBy 1024 x) (new storage buffer x).buffer (doSendRecv buffer' 1024 x).2 := by
    have hNothing : SameFront 0 buffer buffer' := fun i hLt => absurd hLt (Nat.not_lt_zero i)
    have hBuffer : (new storage buffer x).buffer = (doSendRecv buffer 1024 x).2 := congrArg World.buffer
      (World.setVersion_world ((World.fresh _ buffer).setRecipe 1 RtdeRecipe.init.dirInput.2) x)
    rw [hBuffer]
    exact (hNothing.exchange 1024 x).2.mono (le_max_right _ _)
  have hBounded : (new storage buffer x).system.robot.outRecipe.Bounded := by
    change (Robot.init storage buffer x).outRecipe.Bounded
    rw [Robot.outRecipe_init]
    exact fun tok hMem => absurd hMem List.not_mem_nil
  have hStart : new storage buffer' x = (new storage buffer x).holding (doSendRecv buffer' 1024 x).2 := by
    rw [new, System.new, Robot.init_holding storage buffer buffer' x]
    rfl
  rw [hStart]
  exact run_holding (untouched_new storage buffer x) hBounded hFront hRun

end Tracked

end LibUrx
