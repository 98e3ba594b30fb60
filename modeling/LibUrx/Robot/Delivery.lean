import LibUrx.Robot.Sequence
import LibUrx.Robot.Snapshot

/-! # The delivery of states

One receiver calls `recv` and any number of clients call `state` and `updated_state`. What is judged is the
log of what the calls have told, newest first: a package counts as received when its publication succeeds.
-/
namespace LibUrx
open Bytes Rtde Runs
set_option autoImplicit false

inductive Report where
  | received (package : List UInt8)
  | refused
  | snapshot (synchronous : Bool) (s : RobotState)
  | timedOut
  | asked (updated : Bool)
  deriving DecidableEq

/-- `pending` is what the receiver has read when it has taken a frame that it has not published yet. -/
structure Delivery where
  robot : Robot
  pending : Option (List UInt8)
  log : List Report

inductive DeliveryCall where
  | takeFrame (reply : Option (List UInt8)) (ts : UInt64)
  | publish (now : Int)
  | state (synchronous : Bool)
  | updatedState

/-- What a read delivers. -/
def readOf (reply : Option (List UInt8)) : List UInt8 := (reply.getD []).take packetBytes

/-- A package has been received since the last snapshot. -/
def fresh : List Report → Bool
  | [] => false
  | .received _ :: _ => true
  | .snapshot _ _ :: _ => false
  | _ :: earlier => fresh earlier

/-- The package that was received last. -/
def latest : List Report → Option (List UInt8)
  | [] => none
  | .received package :: _ => some package
  | _ :: earlier => latest earlier

/-- What a call may tell, after what has been told before. -/
def Right (earlier : List Report) : Report → Prop
  | .received _ => True
  | .refused => True
  | .snapshot synchronous s => (synchronous = true → fresh earlier = true) ∧
      ∀ package, latest earlier = some package → RobotState.ofPackage package = some s
  | .timedOut => fresh earlier = false
  | .asked updated => updated = fresh earlier

def AllRight : List Report → Prop
  | [] => True
  | report :: earlier => Right earlier report ∧ AllRight earlier

namespace Delivery

def next (d : Delivery) : DeliveryCall → Option Delivery
  | .takeFrame reply ts =>
    match d.pending with
    | some _ => none
    | none => (d.robot.takeFrame reply ts).map fun (ok, b) =>
      if ok then ⟨b, some (readOf reply), d.log⟩ else ⟨b, none, .refused :: d.log⟩
  | .publish now =>
    match d.pending with
    | none => none
    | some package =>
      let (ok, b) := d.robot.publish now
      some ⟨b, none, (if ok then .received package else .refused) :: d.log⟩
  | .state synchronous =>
    let (s, b) := d.robot.state synchronous
    some ⟨b, d.pending, (if synchronous && !d.robot.updatedState then .timedOut else .snapshot synchronous s) :: d.log⟩
  | .updatedState => some ⟨d.robot, d.pending, .asked d.robot.updatedState :: d.log⟩

def Step (d : Delivery) (c : DeliveryCall) (d' : Delivery) : Prop := d.next c = some d'

/-- A read that delivers the head of a package delivers all of the package. -/
def Whole (d : Delivery) : DeliveryCall → Prop
  | .takeFrame reply _ => World.Accepts d.robot.outRecipe (ofBytes (readOf reply)) →
      4 + d.robot.outRecipe.expectedBytes ≤ (readOf reply).length
  | _ => True

instance (r : RtdeRecipe) (data : Buf) : Decidable (World.Accepts r data) := inferInstanceAs (Decidable (_ ∧ _))

instance (d : Delivery) (c : DeliveryCall) : Decidable (d.Whole c) :=
  match c with
  | .takeFrame _ _ => inferInstanceAs (Decidable (_ → _))
  | .publish _ | .state _ | .updatedState => inferInstanceAs (Decidable True)

end Delivery

namespace Robot

/-- A frame is refused and changes no member, or it is decoded into the members. -/
theorem takeFrame_cases {b : Robot} (h : b.Sound) (hOut : b.outInitialized = true)
    (hBytes : b.outRecipe.expectedBytes = 304) (reply : Option (List UInt8)) (ts : UInt64) :
    (∃ buffer, b.takeFrame reply ts = some (false, { b with handler := { b.handler with buffer } })) ∨
      (World.Accepts b.outRecipe (ofBytes (readOf reply)) ∧ ∃ buffer load,
        (308 ≤ (readOf reply).length → slice load 0 304 = ((readOf reply).drop 4).take 304) ∧
          b.takeFrame reply ts = some (true,
            { b with handler := { b.handler with buffer, mem := b.outRecipe.parsedMemory load ts b.mem } })) := by
  have hSource : b.handler.out = some 0 := by rw [h.out, if_pos hOut]
  cases reply with
  | none => exact Or.inl ⟨b.handler.buffer, rfl⟩
  | some bytes =>
    obtain ⟨data, hData⟩ : ∃ data, (doRecv b.handler.buffer packetBytes (some bytes)).2 = data := ⟨_, rfl⟩
    by_cases hAccepts : World.Accepts b.outRecipe data
    · refine Or.inr ⟨accepts_of_read hBytes (hData ▸ hAccepts), data, payload data, fun hAll => ?_, ?_⟩
      · rw [← hData]
        exact slice_payload_read hAll
      · rw [takeFrame, World.recv_some, hData,
          World.parseIncomingData_accepted hSource (h.formed 0) h.outDir hAccepts]
        rfl
    · refine Or.inl ⟨data, ?_⟩
      rw [takeFrame, World.recv_some, hData, World.parseIncomingData_refused hSource hAccepts]
      rfl

end Robot

namespace Delivery

/-- The output with poses is set up, the flag and the state are as the log says, and the members hold the
package that waits for its publication. -/
structure Delivering (d : Delivery) : Prop extends d.robot.Sound where
  outInitialized : d.robot.outInitialized = true
  recipe : (RtdeRecipe.init.extended outputFieldsTcpPose).Alike d.robot.outRecipe
  updated : d.robot.updatedState = fresh d.log
  state : ∀ package, latest d.log = some package → RobotState.ofPackage package = some d.robot.urState.copy
  pending : ∀ package, d.pending = some package →
    RobotState.ofPackage package = some (RobotState.held d.robot.mem)
  right : AllRight d.log

theorem Delivering.takeFrame {d d' : Delivery} (h : d.Delivering) {reply : Option (List UInt8)} {ts : UInt64}
    (hWhole : d.Whole (.takeFrame reply ts)) (hStep : d.Step (.takeFrame reply ts) d') : d'.Delivering := by
  have hBytes : d.robot.outRecipe.expectedBytes = 304 := h.recipe.bytes.trans bytes_outputFieldsTcpPose
  simp only [Step, next] at hStep
  split at hStep
  · cases hStep
  · cases Robot.takeFrame_cases h.toSound h.outInitialized hBytes reply ts with
    | inl hRefused =>
      obtain ⟨buffer, hTake⟩ := hRefused
      rw [hTake] at hStep
      obtain rfl := Option.some.inj hStep
      exact ⟨h.toSound.of_parts rfl rfl rfl rfl, h.outInitialized, h.recipe, h.updated, h.state, by simp, trivial,
        h.right⟩
    | inr hTaken =>
      obtain ⟨hAccepts, buffer, load, hLoad, hTake⟩ := hTaken
      have hAll : 4 + d.robot.outRecipe.expectedBytes ≤ (readOf reply).length := hWhole hAccepts
      rw [hTake] at hStep
      obtain rfl := Option.some.inj hStep
      refine ⟨h.toSound.of_parts rfl rfl rfl rfl, h.outInitialized, h.recipe, h.updated, h.state, ?_, h.right⟩
      rintro package hPending
      obtain rfl := Option.some.inj hPending
      exact RobotState.ofPackage_of_parsed h.recipe (h.formed 0) (hLoad (by omega)) ts d.robot.mem

theorem Delivering.publish {d d' : Delivery} (h : d.Delivering) {now : Int} (hStep : d.Step (.publish now) d') :
    d'.Delivering := by
  simp only [Step, next] at hStep
  split at hStep
  · cases hStep
  · rename_i package hPending
    rw [publish_eq h.outInitialized] at hStep
    obtain rfl := Option.some.inj hStep
    refine ⟨h.toSound.of_parts rfl rfl rfl rfl, h.outInitialized, h.recipe, rfl, ?_, by simp, trivial, h.right⟩
    intro other hLatest
    obtain rfl := Option.some.inj hLatest
    exact h.pending package hPending

theorem Delivering.state_step {d d' : Delivery} (h : d.Delivering) {synchronous : Bool}
    (hStep : d.Step (.state synchronous) d') : d'.Delivering := by
  simp only [Step, next, Robot.state] at hStep
  split at hStep
  · rename_i hLate
    have hOld : fresh d.log = false := by
      rw [← h.updated]
      simpa using (Bool.and_eq_true_iff.mp hLate).2
    obtain rfl := Option.some.inj hStep
    exact ⟨h.toSound, h.outInitialized, h.recipe, h.updated, h.state, h.pending, hOld, h.right⟩
  · rename_i hTimely
    obtain rfl := Option.some.inj hStep
    refine ⟨h.toSound.of_parts rfl rfl rfl rfl, h.outInitialized, h.recipe, rfl, h.state, h.pending, ⟨?_, h.state⟩,
      h.right⟩
    intro hSynchronous
    rw [← h.updated]
    simpa [hSynchronous] using hTimely

theorem Delivering.step {d d' : Delivery} {c : DeliveryCall} (h : d.Delivering) (hWhole : d.Whole c)
    (hStep : d.Step c d') : d'.Delivering := by
  cases c with
  | takeFrame reply ts => exact h.takeFrame hWhole hStep
  | publish now => exact h.publish hStep
  | state synchronous => exact h.state_step hStep
  | updatedState =>
    obtain rfl := Option.some.inj hStep
    exact ⟨h.toSound, h.outInitialized, h.recipe, h.updated, h.state, h.pending, h.updated, h.right⟩

/-- A call of `recv` that fails leaves the flag and the state alone. -/
theorem Delivering.refused {d d' : Delivery} {c : DeliveryCall} (h : d.Delivering) (hStep : d.Step c d')
    (hLog : d'.log = .refused :: d.log) :
    d'.robot.updatedState = d.robot.updatedState ∧ d'.robot.urState = d.robot.urState := by
  cases c with
  | takeFrame reply ts =>
    simp only [Step, next] at hStep
    split at hStep
    · cases hStep
    · obtain ⟨⟨ok, b⟩, hTake, rfl⟩ := Option.map_eq_some_iff.mp hStep
      obtain ⟨buffer, mem, -, rfl⟩ := Robot.takeFrame_eq_some hTake
      cases ok <;> exact ⟨rfl, rfl⟩
  | publish now =>
    simp only [Step, next] at hStep
    split at hStep
    · cases hStep
    · rw [publish_eq h.outInitialized] at hStep
      obtain rfl := Option.some.inj hStep
      cases (List.cons.inj hLog).1
  | state synchronous =>
    obtain rfl := Option.some.inj hStep
    have hReport := (List.cons.inj hLog).1
    dsimp only at hReport
    split at hReport <;> cases hReport
  | updatedState =>
    obtain rfl := Option.some.inj hStep
    cases (List.cons.inj hLog).1

end Delivery

namespace Robot

/-- The output of a robot was never set up, and nothing of it is kept. -/
structure Blank (b : Robot) : Prop extends b.Sound where
  recipe : b.outRecipe = RtdeRecipe.init
  outInitialized : b.outInitialized = false
  updatedState : b.updatedState = false

theorem blank_init (storage buffer : Buf) (x : Exchange) : (init storage buffer x).Blank :=
  ⟨sound_init storage buffer x, outRecipe_init storage buffer x, rfl, rfl⟩

theorem Blank.step {s t : System} {a : Action} (h : s.robot.Blank) (hNoOutput : System.registersOutput a = false)
    (hStep : s.Step a t) : t.robot.Blank := by
  have hSound := System.sound_step h.toSound hStep
  obtain ⟨hRecipe, hInit⟩ := System.output_step h.toSound hNoOutput hStep
  refine ⟨hSound, hRecipe.trans h.recipe, hInit.trans h.outInitialized, ?_⟩
  cases System.robotMoves_of_step hStep with
  | output _ registers =>
    rw [hNoOutput] at registers
    cases registers
  | input known _ done =>
    obtain ⟨packet, r, -, hCases⟩ := initInputWith_cases known h.onlyInput h.inDir done
    cases hCases with
    | inl hRefused =>
      obtain ⟨-, buffer, hRobot⟩ := hRefused
      rw [hRobot]
      exact h.updatedState
    | inr hTaken =>
      obtain ⟨resp, filed, -, -, -, -, -, hRobot⟩ := hTaken
      rw [hRobot]
      exact h.updatedState
  | vector _ done =>
    cases sendVector_cases done with
    | inl hRefused =>
      rw [hRefused.1]
      exact h.updatedState
    | inr hSent =>
      obtain ⟨-, -, w, -, hRobot⟩ := hSent
      rw [hRobot]
      exact h.updatedState
  | wait _ done =>
    rw [done]
    exact h.updatedState
  | takeFrame done =>
    obtain ⟨buffer, mem, -, hRobot⟩ := takeFrame_eq_some done
    rw [hRobot]
    exact h.updatedState
  | publish now done =>
    rw [done, publish, h.outInitialized]
    exact h.updatedState
  | state synchronous done =>
    rw [done, Robot.state]
    split
    · exact h.updatedState
    · rfl
  | start x done =>
    rw [done, Robot.start, h.outInitialized]
    exact h.updatedState
  | stop sendCode x done =>
    rw [done, Robot.stop]
    split <;> exact h.updatedState

theorem Blank.initOutputTcpPose {b b' : Robot} {connected : Bool} {g : Registration} (h : b.Blank)
    (hInit : b.initOutputTcpPose connected g = some (true, b')) : Delivery.Delivering ⟨b', none, []⟩ := by
  have hSound := h.toSound.initOutputWith known_outputFieldsTcpPose hInit
  rcases initOutputWith_cases known_outputFieldsTcpPose h.outDir hInit with ⟨-, hReady | hNot⟩ |
    ⟨-, -, -, packet, r, hMsg, hRefused | ⟨-, resp, -, -, rfl⟩⟩
  · rw [h.outInitialized] at hReady
    cases hReady.1
  · cases hNot.2.1
  · cases hRefused.1
  · have hAlike := RtdeRecipe.alike_getMsg hMsg
    rw [h.recipe] at hAlike
    exact ⟨hSound, rfl, ⟨hAlike.fields, hAlike.bytes, hAlike.dirOut, hAlike.tsNs⟩, h.updatedState, by simp [latest],
      by simp, trivial⟩

end Robot

namespace Delivery

/-- Where every read that delivers the head of a package delivers all of it, the flag is as the log says, each
snapshot is the package received last, and a failing `recv` changes nothing. -/
theorem delivers_latest {storage buffer : Buf} {x : Exchange} {actions : List Action} {s : System} {connected : Bool}
    {g : Registration} {b : Robot} {calls : List DeliveryCall} {d : Delivery}
    (hBefore : Path (Restrict (fun _ a => System.registersOutput a = false) System.Step) (System.new storage buffer x) actions s)
    (hInit : s.robot.initOutputTcpPose connected g = some (true, b))
    (hRun : Path (Restrict Whole Step) ⟨b, none, []⟩ calls d) :
    d.robot.updatedState = fresh d.log ∧ AllRight d.log ∧
      ∀ c d', d.Step c d' → d'.log = .refused :: d.log →
        d'.robot.updatedState = d.robot.updatedState ∧ d'.robot.urState = d.robot.urState := by
  have hBlank : s.robot.Blank := hBefore.invariant (p := fun s => s.robot.Blank)
    (fun _ _ _ hBlank hStep => hBlank.step hStep.1 hStep.2) (Robot.blank_init storage buffer x)
  have hEnd : d.Delivering := hRun.invariant (p := Delivering)
    (fun _ _ _ hDelivering hStep => hDelivering.step hStep.1 hStep.2) (hBlank.initOutputTcpPose hInit)
  exact ⟨hEnd.updated, hEnd.right, fun _ _ hStep hLog => hEnd.refused hStep hLog⟩

/-- A package of the output with poses: recipe id 1, `output_int_register_0` is `n`, and every other byte too. -/
def posePackage (n : UInt8) : List UInt8 := [1, 52, 85, 1, 0, 0, 0, n] ++ List.replicate 300 n

def poseAnswered : Registration := answeredWith .setupOutputs (typesOf true outputFieldsTcpPose)

/-- A robot with its output set up, as it serves its calls. -/
def poseRun (allowed : Delivery → DeliveryCall → Bool) (calls : List DeliveryCall) : Option Delivery :=
  ((Robot.init (fun _ => 0) (fun _ => 0) ⟨-1, none⟩).initOutputTcpPose true poseAnswered).bind fun (ok, b) =>
    if ok then runWhile allowed next ⟨b, none, []⟩ calls else none

theorem path_of_poseRun {allowed : Delivery → DeliveryCall → Bool} {calls : List DeliveryCall} {d : Delivery}
    (h : poseRun allowed calls = some d) :
    ∃ b, (Robot.init (fun _ => 0) (fun _ => 0) ⟨-1, none⟩).initOutputTcpPose true poseAnswered = some (true, b) ∧
      Path (Restrict (fun d c => allowed d c = true) Step) ⟨b, none, []⟩ calls d := by
  obtain ⟨⟨ok, b⟩, hInit, hRest⟩ := Option.bind_eq_some_iff.mp h
  cases ok with
  | false => cases hRest
  | true => exact ⟨b, hInit, path_of_runWhile hRest⟩

def wholeCalls : List DeliveryCall :=
  [.takeFrame (some (posePackage 1)) 0, .publish 0, .takeFrame (some (posePackage 2)) 0, .updatedState, .publish 0,
    .state true, .state true]

set_option maxRecDepth 100000 in
theorem delivers_latest_pose : ∃ b d,
    (Robot.init (fun _ => 0) (fun _ => 0) ⟨-1, none⟩).initOutputTcpPose true poseAnswered = some (true, b) ∧
      Path (Restrict Whole Step) ⟨b, none, []⟩ wholeCalls d ∧ d.robot.updatedState = false ∧ AllRight d.log := by
  have hRuns : (poseRun (fun d c => decide (d.Whole c)) wholeCalls).map (fun d => fresh d.log) = some false := by
    decide +kernel
  obtain ⟨d, hRun, hOld⟩ := Option.map_eq_some_iff.mp hRuns
  obtain ⟨b, hInit, hPath⟩ := path_of_poseRun hRun
  simp only [decide_eq_true_eq] at hPath
  obtain ⟨hUpdated, hRight, -⟩ := delivers_latest (s := System.new (fun _ => 0) (fun _ => 0) ⟨-1, none⟩) (.nil _) hInit hPath
  exact ⟨b, d, hInit, hPath, hUpdated.trans hOld, hRight⟩

/-- The second package is cut off in front of its joint references. -/
def cutCalls : List DeliveryCall :=
  [.takeFrame (some (posePackage 1)) 0, .publish 0, .takeFrame (some ((posePackage 2).take 256)) 0, .publish 0,
    .state true]

/-- The joint references of the first package, and all else from the second. -/
def mixedState : RobotState where
  localTsUs := none
  urTs := 0x0202020202020202
  seqnr := 2
  jqRef := List.replicate dof 0x0101010101010101
  jq := List.replicate dof 0x0202020202020202
  jqd := List.replicate dof 0x0202020202020202
  jqdd := List.replicate dof 0x0202020202020202
  jt := List.replicate dof 0x0202020202020202
  tcpPose := List.replicate dof 0x0202020202020202

set_option maxRecDepth 100000 in
/-- A package that is cut off is completed from the package before it, and handed out. -/
theorem cut_package_is_mixed : ¬ ∀ (storage buffer : Buf) (x : Exchange) (actions : List Action) (s : System)
    (connected : Bool) (g : Registration) (b : Robot) (calls : List DeliveryCall) (d : Delivery),
    Path (Restrict (fun _ a => System.registersOutput a = false) System.Step) (System.new storage buffer x) actions s →
      s.robot.initOutputTcpPose connected g = some (true, b) → Path Step ⟨b, none, []⟩ calls d → AllRight d.log := by
  intro h
  have hRuns : (poseRun (fun _ _ => true) cutCalls).map (fun d => d.log) =
      some [.snapshot true mixedState, .received ((posePackage 2).take 256), .received (posePackage 1)] := by
    decide +kernel
  obtain ⟨d, hRun, hLog⟩ := Option.map_eq_some_iff.mp hRuns
  obtain ⟨b, hInit, hPath⟩ := path_of_poseRun hRun
  have hRight := h _ _ _ _ _ _ _ b cutCalls d
    (.nil (System.new (fun _ => 0) (fun _ => 0) ⟨-1, none⟩)) hInit hPath.of_restrict
  rw [hLog] at hRight
  obtain ⟨⟨-, hLatest⟩, -⟩ := hRight
  have hSecond := hLatest _ rfl
  have hNone : RobotState.ofPackage ((posePackage 2).take 256) = none := by decide +kernel
  rw [hNone] at hSecond
  cases hSecond

end Delivery

end LibUrx
