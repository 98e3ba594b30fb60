import LibUrx.Robot.Definedness
import LibUrx.Robot.InputSide

/-! # Commands that stay armed

A motion command stands in a member of the robot while it is sent, and every package of the input recipe says
what stands there.
-/
namespace LibUrx
open Bytes Text Rtde Runs
set_option autoImplicit false

/-- No motion: there is no command, or the one to stop. -/
def Resting (n : UInt32) : Prop := n = Command.noCommand.code ∨ n = Command.stopCommand.code

/-- The second word of a package, which is where the command stands. -/
def commandOf (frame : List UInt8) : UInt32 := UInt32.ofNat (beNat ((frame.drop 8).take 4))

theorem take_drop_frameOf (packet : Buf) :
    ((frameOf packet).drop 8).take 4 = (slice packet 8 4).take (hdrSize packet - 8) := by
  apply List.ext_getElem?
  intro i
  rw [frameOf, List.getElem?_take, List.getElem?_drop, List.getElem?_take, slice_getElem?, slice_getElem?]
  cases Nat.lt_or_ge i 4 with
  | inl hWord =>
    rw [if_pos hWord, if_pos hWord]
    cases Nat.lt_or_ge i (hdrSize packet - 8) with
    | inl hInside => rw [if_pos hInside, if_pos (by omega), Nat.zero_add]
    | inr hOutside => rw [if_neg (by omega), if_neg (by omega)]
  | inr hBehind =>
    rw [if_neg (Nat.not_lt.mpr hBehind)]
    split
    · rw [if_neg (Nat.not_lt.mpr hBehind)]
    · rfl

theorem resting_take {n : UInt32} (h : Resting n) (k : Nat) :
    Resting (UInt32.ofNat (beNat ((leBytes 4 n.toNat).reverse.take k))) := by
  have hWord : (leBytes 4 n.toNat).reverse = [0, 0, 0, UInt8.ofNat n.toNat] := by
    cases h with
    | inl hNone | inr hStop =>
      subst n
      rfl
  rw [hWord]
  match k with
  | 0 | 1 | 2 | 3 => exact Or.inl rfl
  | k + 4 =>
    rw [List.take_of_length_le (by simp)]
    cases h with
    | inl hNone =>
      subst hNone
      exact Or.inl rfl
    | inr hStop =>
      subst hStop
      exact Or.inr rfl

theorem commandOf_store {r : RtdeRecipe} {rest : List Entry} (hLayout : r.Layout) (hFormed : r.Formed)
    (hDir : r.dirOut = false) (hEntries : r.fields.map Token.entry = commandEntries ++ rest) (dp : Buf) (m : Memory) :
    slice (r.store dp m).2 8 4 = (leBytes 4 (getWord m Member.cmd).toNat).reverse := by
  obtain ⟨seqnr, tail, hFields, hSeqnr, hTail⟩ := List.map_eq_cons_iff.mp hEntries
  obtain ⟨cmd, tail, rfl, hCmd, -⟩ := List.map_eq_cons_iff.mp hTail
  have hSeqnrBytes : seqnr.numBytes = 4 := congrArg (fun e => e.2.2) hSeqnr
  have hCmdBytes : cmd.numBytes = 4 := congrArg (fun e => e.2.2) hCmd
  have hCmdStorage : cmd.storage = Member.cmd := congrArg (fun e => e.2.1) hCmd
  have hLong : 8 ≤ r.expectedBytes := by
    rw [hLayout.expected, hFields, totalBytes_cons, totalBytes_cons, hSeqnrBytes, hCmdBytes]
    omega
  have hRead : m.read Member.cmd 4 = leBytes 4 (getWord m Member.cmd).toNat := by
    have hWord := leBytes_leNat (m.read Member.cmd 4)
    have hLt := leNat_lt (m.read Member.cmd 4)
    rw [Memory.length_read] at hWord hLt
    rw [getWord, UInt32.toNat_ofNat_of_lt' hLt, hWord]
  calc slice (r.store dp m).2 8 4
      = ((slice (r.store dp m).2 4 r.expectedBytes).drop 4).take 4 :=
        (slice_take_drop (r.store dp m).2 4 r.expectedBytes 4 4 hLong).symm
    _ = ((wireBytes m r.fields).drop 4).take 4 := by rw [RtdeRecipe.store_payload hLayout hFormed hDir]
    _ = (m.read Member.cmd 4).reverse := by
        rw [hFields, wireBytes_cons, wireBytes_cons, hSeqnrBytes, hCmdBytes, hCmdStorage,
          List.drop_left' (by simp), List.take_left' (by simp)]
    _ = (leBytes 4 (getWord m Member.cmd).toNat).reverse := by rw [hRead]

/-- However much of a package is sent, it commands no motion if the member does not. -/
theorem Rtde.RtdeRecipe.Combines.resting_store {r : RtdeRecipe} {setUps : List Bool} (h : r.Combines setUps)
    {m : Memory} (hRest : Resting (getWord m Member.cmd)) (dp : Buf) :
    Resting (commandOf (frameOf (r.store dp m).2)) := by
  rw [commandOf, take_drop_frameOf]
  cases setUps with
  | nil =>
    obtain ⟨-, -, hSize⟩ := RtdeRecipe.store_header h.dirIn dp m
    have hFields : r.fields = [] := List.map_eq_nil_iff.mp h.entries
    rw [h.layout.expected, hFields] at hSize
    rw [hSize]
    exact Or.inl rfl
  | cons pose rest =>
    have hEntries : r.fields.map Token.entry = commandEntries ++ (registerEntries Member.setQd speedRegisters ++
        ((if pose then registerEntries Member.tcpPoseRef poseRegisters else []) ++ rest.flatMap setUpEntries)) := by
      rw [h.entries, List.flatMap_cons, setUpEntries, List.append_assoc, List.append_assoc]
    rw [commandOf_store h.layout h.formed h.dirIn hEntries]
    exact resting_take hRest _

namespace Robot

def command (b : Robot) : UInt32 := getWord b.mem Member.cmd

/-- A vector is turned down at once, or it is sent and the handler says so. -/
def Delivers (b : Robot) (vs : List UInt64) (sendCode : Int) : Prop :=
  vs.length ≠ dof ∨ b.inInitialized = false ∨ 0 < sendCode

theorem Assembled.command_sendVector {b b' : Robot} {setUps : List Bool} (h : b.Assembled setUps) {a : Nat}
    {c : Command} {vs : List UInt64} {sendCode : Int} {ok : Bool} (hSend : b.sendVector a c vs sendCode = (ok, b')) :
    (b.Delivers vs sendCode ∧ (b'.command = b.command ∨ b'.command = Command.noCommand.code)) ∨
      (¬ b.Delivers vs sendCode ∧ b'.command = c.code) := by
  cases h.sendVector_cases hSend with
  | inl hRefused =>
    obtain ⟨rfl, -, hWhy⟩ := hRefused
    exact Or.inl ⟨hWhy.imp_right Or.inl, Or.inl rfl⟩
  | inr hSent =>
    obtain ⟨hLength, hIn, hOk, rfl⟩ := hSent
    cases ok with
    | true => exact Or.inl ⟨Or.inr (Or.inr (of_decide_eq_true hOk.symm)), Or.inr (getWord_setWord_self _ _ _)⟩
    | false =>
      refine Or.inr ⟨?_, getWord_setWord_self _ _ _⟩
      rintro (hNot | hNot | hPos)
      · exact hNot hLength
      · rw [hIn] at hNot
        cases hNot
      · exact absurd hPos (of_decide_eq_false hOk.symm)

/-- The packages that a step adds command no motion. -/
def AddsResting (b b' : Robot) : Prop :=
  ∃ more, b'.packages = b.packages ++ more ∧ ∀ frame ∈ more, Resting (commandOf frame)

theorem addsResting_of_same {b b' : Robot} (h : b'.packages = b.packages) : b.AddsResting b' :=
  ⟨[], h.trans (List.append_nil _).symm, by simp⟩

theorem addsResting_sentBy {b : Robot} {setUps : List Bool} (h : b.inRecipe.Combines setUps)
    (hRest : Resting b.command) : b.AddsResting { b with handler := b.handler.sentBy 1 } := by
  refine ⟨[frameOf (b.inRecipe.store b.inRecipe.dp b.mem).2].filter isPackage, List.filter_append _ _, ?_⟩
  intro frame hMem
  obtain rfl := List.mem_singleton.mp (List.mem_of_mem_filter hMem)
  exact h.resting_store hRest _

theorem Assembled.addsResting_initInputWith {b b' : Robot} {setUps : List Bool} (h : b.Assembled setUps)
    {fields : List FieldOf} {ok pose : Bool} {g : Registration} (hKnown : Known false fields)
    (hEntries : ∀ o, (placed false o fields).map Token.entry = setUpEntries pose) (hRest : Resting b.command)
    (hInit : Robot.initInputWith fields b g = some (ok, b')) : b.AddsResting b' := by
  obtain ⟨asking, hAsking, hAsked, hCases⟩ := h.asks_combined hKnown hEntries hInit
  cases hCases with
  | inl hRefused =>
    obtain ⟨-, -, rfl⟩ := hRefused
    exact addsResting_of_same hAsking.packages
  | inr hTaken =>
    obtain ⟨-, rfl⟩ := hTaken
    have hResting : Resting asking.command := by rwa [command, hAsking.mem]
    obtain ⟨more, hMore, hAll⟩ := addsResting_sentBy hAsked hResting
    exact ⟨more, hAsking.packages ▸ hMore, hAll⟩

theorem Assembled.addsResting_stop {b : Robot} {setUps : List Bool} (h : b.Assembled setUps) (sendCode : Int)
    (x : Exchange) : b.AddsResting (b.stop sendCode x).2 := by
  unfold Robot.stop
  split
  · exact addsResting_of_same rfl
  · have hRest : Resting (b.number .stopCommand).command := Or.inr (getWord_setWord_self _ _ _)
    have hSent : b.AddsResting ((b.number .stopCommand).send sendCode).2 := by
      cases (b.number .stopCommand).handler.send_cases (b.number .stopCommand).inRecipe.recipeId sendCode with
      | inl hNone =>
        rw [send, hNone.1]
        exact addsResting_of_same rfl
      | inr hFiled =>
        obtain ⟨e, -, hMem, -, hSend⟩ := hFiled
        rw [send, hSend, h.onlyInput e hMem]
        exact addsResting_sentBy (b := b.number .stopCommand) h.recipe hRest
    obtain ⟨more, hMore, hAll⟩ := hSent
    exact ⟨more, (sameInput_handlerStop _ x).packages.trans hMore, hAll⟩

/-- No reception writes as far up as to the members of commands. -/
structure OutputBelow (b : Robot) : Prop where
  ends : ∀ tok ∈ b.outRecipe.fields, tok.storage + tok.numBytes ≤ Member.inSeqnr
  tsNs : b.outRecipe.tsNs = none

theorem outputBelow_init (storage buffer : Buf) (x : Exchange) : (init storage buffer x).OutputBelow := by
  constructor
  · rw [outRecipe_init]
    intro tok hMem
    cases hMem
  · rw [outRecipe_init]
    rfl

theorem ends_of_ranges {fields : List Token} {ranges : List (Nat × Nat)}
    (h : fields.map (fun tok => (tok.storage, tok.numBytes)) = ranges)
    (hEnds : ∀ range ∈ ranges, range.1 + range.2 ≤ Member.inSeqnr) :
    ∀ tok ∈ fields, tok.storage + tok.numBytes ≤ Member.inSeqnr := by
  intro tok hMem
  have hRange : (tok.storage, tok.numBytes) ∈ ranges := h ▸ List.mem_map_of_mem hMem
  exact hEnds _ hRange

theorem OutputBelow.initOutputWith {b b' : Robot} (h : b.OutputBelow) (hDir : b.outRecipe.dirOut = true)
    {fields : List FieldOf} {connected ok : Bool} {g : Registration} (hKnown : Known true fields)
    (hEnds : ∀ o, ∀ tok ∈ placed true o fields, tok.storage + tok.numBytes ≤ Member.inSeqnr)
    (hInit : initOutputWith fields b connected g = some (ok, b')) : b'.OutputBelow := by
  cases initOutputWith_cases hKnown hDir hInit with
  | inl hSame => exact hSame.1 ▸ h
  | inr hAsked =>
    obtain ⟨-, -, hFresh, packet, r, hMsg, hCases⟩ := hAsked
    have hAlike := RtdeRecipe.alike_getMsg hMsg
    have hTs : r.tsNs = none := hAlike.tsNs.trans h.tsNs
    cases hCases with
    | inl hRefused =>
      obtain ⟨-, buffer, rfl⟩ := hRefused
      have hRecipe := World.asked_self b.handler 0 r.clearFields packet buffer
      refine ⟨fun tok hMem => ?_, (congrArg RtdeRecipe.tsNs hRecipe).trans hTs⟩
      have hNone : tok ∈ r.clearFields.fields := hRecipe ▸ hMem
      cases hNone
    | inr hTaken =>
      obtain ⟨-, resp, -, -, rfl⟩ := hTaken
      have hRecipe := World.asked_self b.handler 0 (r.accepted resp) packet resp
      refine ⟨fun tok hMem => ?_, (congrArg RtdeRecipe.tsNs hRecipe).trans hTs⟩
      have hField : tok ∈ (r.accepted resp).fields := hRecipe ▸ hMem
      change tok ∈ r.fields at hField
      rw [hAlike.fields, RtdeRecipe.extended, hFresh, hDir, List.nil_append] at hField
      exact hEnds _ tok hField

theorem OutputBelow.command_takeFrame {b b' : Robot} (h : b.OutputBelow) (hSound : b.Sound)
    {reply : Option (List UInt8)} {ts : UInt64} {ok : Bool} (hTake : b.takeFrame reply ts = some (ok, b')) :
    b'.command = b.command := by
  obtain ⟨buffer, mem, hRecv, rfl⟩ := takeFrame_eq_some hTake
  have hOut (i : Nat) (hSource : b.handler.out = some i) : i = 0 := by
    rw [hSound.out] at hSource
    split at hSource
    · exact (Option.some.inj hSource).symm
    · cases hSource
  have hCases := World.recv_cases (fun i hSource => by
    obtain rfl := hOut i hSource
    exact ⟨hSound.formed 0, hSound.outDir⟩) hRecv
  cases hCases with
  | inl hRefused => exact congrArg (fun m => getWord m Member.cmd) hRefused.2
  | inr hTaken =>
    obtain ⟨-, i, load, hSource, hMem⟩ := hTaken
    obtain rfl := hOut i hSource
    have hParsed : mem = b.outRecipe.parsedMemory load ts b.mem := hMem
    change getWord mem Member.cmd = getWord b.mem Member.cmd
    rw [hParsed, RtdeRecipe.parsedMemory, h.tsNs, getWord, getWord, Memory.read_writeAll_of_apart]
    intro entry hEntry
    simp only [Option.toList_none, List.map_nil, List.append_nil] at hEntry
    refine decodedWrites_apart (hSound.formed 0).wellTyped (fun tok hTok => Or.inl ?_) entry hEntry
    have hEnd := h.ends tok hTok
    unfold Member.inSeqnr at hEnd
    unfold Member.cmd
    omega

end Robot

namespace System

def commands : Action → Bool
  | .updateW _ _ | .calculateQRef _ _ => true
  | _ => false

def Delivers (s : System) : Action → Prop
  | .updateW vs sendCode | .calculateQRef vs sendCode => s.robot.Delivers vs sendCode
  | _ => True

/-- What a command leaves in its member. -/
theorem command_of_commands {s t : System} {a : Action} {setUps : List Bool} (h : s.robot.Assembled setUps)
    (hCommands : commands a = true) (hStep : s.Step a t) :
    (s.Delivers a ∧ (t.robot.command = s.robot.command ∨ t.robot.command = Command.noCommand.code)) ∨
      (¬ s.Delivers a ∧ t.robot.command ≠ Command.noCommand.code) := by
  have hVector {vs : List UInt64} {sendCode : Int}
      (hSends : a = .updateW vs sendCode ∨ a = .calculateQRef vs sendCode) :
      (s.robot.Delivers vs sendCode ∧
        (t.robot.command = s.robot.command ∨ t.robot.command = Command.noCommand.code)) ∨
      (¬ s.robot.Delivers vs sendCode ∧ t.robot.command ≠ Command.noCommand.code) := by
    obtain ⟨m, c, ok, hOther, hSend⟩ := vector_of_step hSends hStep
    cases h.command_sendVector hSend with
    | inl hDelivered => exact Or.inl hDelivered
    | inr hArmed =>
      refine Or.inr ⟨hArmed.1, ?_⟩
      rw [hArmed.2]
      exact hOther
  cases a with
  | updateW => exact hVector (Or.inl rfl)
  | calculateQRef => exact hVector (Or.inr rfl)
  | _ => cases hCommands

theorem command_waits {s t : System} {waits : List Action}
    (hRun : Path (Restrict (fun _ a => isWait a = true) Step) s waits t) : t.robot.command = s.robot.command := by
  induction hRun with
  | nil => rfl
  | cons head _ ih =>
    obtain ⟨flag, hRobot, -⟩ := robot_of_wait head.1 head.2
    rw [ih, hRobot]
    rfl

/-- A run that has left no motion command behind. -/
structure Disarmed (s : System) (setUps : List Bool) : Prop extends s.robot.Assembled setUps where
  below : s.robot.OutputBelow
  resting : Resting s.robot.command

theorem disarmed_new (storage buffer : Buf) (x : Exchange) : (new storage buffer x).Disarmed [] where
  toAssembled := Robot.assembled_init storage buffer x
  below := Robot.outputBelow_init storage buffer x
  resting := by
    have hNone : (new storage buffer x).robot.command = Command.noCommand.code := by
      change getWord (Robot.init storage buffer x).mem Member.cmd = _
      rw [Robot.mem_init, getWord_setWord_self]
    exact Or.inl hNone

theorem ends_outputFields (o : Nat) :
    ∀ tok ∈ placed true o outputFields, tok.storage + tok.numBytes ≤ Member.inSeqnr :=
  Robot.ends_of_ranges (Robot.ranges_outputFields o) (by decide)

theorem ends_outputFieldsTcpPose (o : Nat) :
    ∀ tok ∈ placed true o outputFieldsTcpPose, tok.storage + tok.numBytes ≤ Member.inSeqnr :=
  Robot.ends_of_ranges (Robot.ranges_outputFieldsTcpPose o) (by decide)

theorem below_step {s t : System} {a : Action} (hSound : s.robot.Sound) (h : s.robot.OutputBelow)
    (hStep : s.Step a t) : t.robot.OutputBelow := by
  cases hOutput : registersOutput a with
  | true =>
    unfold Step at hStep
    cases a with
    | initOutput connected g =>
      obtain ⟨⟨ok, b⟩, hInit, rfl⟩ := Option.map_eq_some_iff.mp hStep
      exact h.initOutputWith hSound.outDir known_outputFields ends_outputFields hInit
    | initOutputTcpPose connected g =>
      obtain ⟨⟨ok, b⟩, hInit, rfl⟩ := Option.map_eq_some_iff.mp hStep
      exact h.initOutputWith hSound.outDir known_outputFieldsTcpPose ends_outputFieldsTcpPose hInit
    | _ => cases hOutput
  | false =>
    obtain ⟨hRecipe, -⟩ := output_step hSound hOutput hStep
    exact ⟨hRecipe ▸ h.ends, hRecipe ▸ h.tsNs⟩

theorem resting_step {s t : System} {a : Action} {setUps : List Bool} (h : s.Disarmed setUps) (hDelivers : s.Delivers a)
    (hStep : s.Step a t) : Resting t.robot.command := by
  have hSame (hMem : t.robot.mem = s.robot.mem) : Resting t.robot.command := by
    rw [Robot.command, hMem]
    exact h.resting
  cases robotMoves_of_step hStep with
  | output known _ done => exact hSame (Robot.mem_initOutputWith h.toSound known done)
  | input known _ done => exact hSame (Robot.mem_initInputWith h.toSound known done)
  | vector sends =>
    have hCommands : commands a = true := by cases sends with
      | inl hAction | inr hAction =>
        rw [hAction]
        rfl
    cases command_of_commands h.toAssembled hCommands hStep with
    | inl hDelivered =>
      cases hDelivered.2 with
      | inl hKept => exact hKept ▸ h.resting
      | inr hNone => exact Or.inl hNone
    | inr hArmed => exact absurd hDelivers hArmed.1
  | wait _ done =>
    rw [done]
    exact h.resting
  | takeFrame done =>
    rw [h.below.command_takeFrame h.toSound done]
    exact h.resting
  | publish now done =>
    rw [done, Robot.publish]
    split <;> exact h.resting
  | state synchronous done =>
    rw [done, Robot.state]
    split <;> exact h.resting
  | start x done =>
    rw [done, Robot.start]
    split
    · exact h.resting
    · rw [World.start_world]
      exact h.resting
  | stop sendCode x done =>
    rw [done, Robot.stop]
    split
    · exact h.resting
    · have hStop : Robot.command { ((s.robot.number .stopCommand).send sendCode).2 with
          running := false, handler := (((s.robot.number .stopCommand).send sendCode).2.handler.stop x).2 } =
          Command.stopCommand.code := by
        rw [World.stop_world]
        change getWord ((s.robot.number .stopCommand).handler.send _ sendCode).2.mem Member.cmd = _
        rw [World.send_mem]
        exact getWord_setWord_self _ _ _
      exact Or.inr hStop

theorem disarmed_run {s t : System} {actions : List Action} {done : List Bool} (h : s.Disarmed done)
    (hRun : Path (Restrict Delivers Step) s actions t) : t.Disarmed (done ++ setUps actions) := by
  induction hRun generalizing done with
  | nil => rwa [setUps, List.flatMap_nil, List.append_nil]
  | cons head _ ih =>
    rw [setUps, List.flatMap_cons, ← List.append_assoc]
    exact ih ⟨assembled_step h.toAssembled head.2, below_step h.toSound h.below head.2, resting_step h head.1 head.2⟩

/-- What other calls than commands hand over commands no motion. -/
theorem Disarmed.addsResting {s t : System} {a : Action} {setUps : List Bool} (h : s.Disarmed setUps)
    (hOther : commands a = false) (hStep : s.Step a t) : s.robot.AddsResting t.robot := by
  cases hInput : registersInput a with
  | true =>
    obtain ⟨fields, pose, ok, g, hKnown, hEntries, -, hInit⟩ := initInput_of_step hInput hStep
    exact h.addsResting_initInputWith hKnown hEntries h.resting hInit
  | false =>
    cases hHands : s.robot.handsOver a with
    | true =>
      cases a with
      | stop sendCode x =>
        obtain rfl := Option.some.inj hStep
        exact h.addsResting_stop sendCode x
      | updateW | calculateQRef => cases hOther
      | _ => cases hHands
    | false => exact Robot.addsResting_of_same (Robot.sameInput_step h.toSound hInput hHands hStep).packages

/-- A command is taken back if and only if it is turned down at once or sent well. Where all of a run are, no
package says anything of a motion but those of the commands themselves. -/
theorem disarmed_iff {storage buffer : Buf} {x : Exchange} {actions : List Action} {s : System}
    (hRun : Path Step (new storage buffer x) actions s) :
    (s.robot.command = Command.noCommand.code → ∀ a t waits u, commands a = true → s.Step a t →
      Path (Restrict (fun _ a => isWait a = true) Step) t waits u →
      (u.robot.command = Command.noCommand.code ↔ s.Delivers a)) ∧
    (Path (Restrict Delivers Step) (new storage buffer x) actions s → Resting s.robot.command ∧
      ∀ a t, commands a = false → s.Step a t → s.robot.AddsResting t.robot) := by
  constructor
  · intro hNone a t waits u hCommands hStep hWaits
    rw [command_waits hWaits]
    cases command_of_commands (assembled_new hRun) hCommands hStep with
    | inl hDelivered =>
      refine iff_of_true ?_ hDelivered.1
      cases hDelivered.2 with
      | inl hKept => exact hKept.trans hNone
      | inr hBack => exact hBack
    | inr hArmed => exact iff_of_false hArmed.2 hArmed.1
  · intro hDelivers
    have hEnd := disarmed_run (s := new storage buffer x) (disarmed_new storage buffer x) hDelivers
    exact ⟨hEnd.resting, fun a t hOther hStep => hEnd.addsResting hOther hStep⟩

theorem ready_initInput : ∃ b, Path Step (new (fun _ => 0) (fun _ => 0) ⟨-1, none⟩) [.initInput Robot.inputAnswered]
      { new (fun _ => 0) (fun _ => 0) ⟨-1, none⟩ with robot := b } ∧
    b.inInitialized = true ∧ b.command = Command.noCommand.code := by
  obtain ⟨b, hInit⟩ := Robot.exists_initInput
  refine ⟨b, .cons (step_initInput hInit) (.nil _), (Robot.numbered_initInput (Or.inl hInit)).inInitialized, ?_⟩
  have hMem := Robot.mem_initInputWith (Robot.sound_init (fun _ => 0) (fun _ => 0) ⟨-1, none⟩) known_inputFields hInit
  rw [Robot.command, hMem, Robot.mem_init, getWord_setWord_self]

theorem disarmed_iff_sent : ∃ b, Path Step (new (fun _ => 0) (fun _ => 0) ⟨-1, none⟩) [.initInput Robot.inputAnswered]
      { new (fun _ => 0) (fun _ => 0) ⟨-1, none⟩ with robot := b } ∧
    (b.updateW [1, 2, 3, 4, 5, 6] 60).2.command = Command.noCommand.code := by
  obtain ⟨b, hRun, -, hNone⟩ := ready_initInput
  exact ⟨b, hRun, ((disarmed_iff hRun).1 hNone (.updateW [1, 2, 3, 4, 5, 6] 60) _ [] _ rfl rfl (.nil _)).mpr
    (Or.inr (Or.inr (by decide)))⟩

/-- A speed command that could not be sent is still there when the call returns. -/
theorem failed_command_stays : ¬ ∀ (storage buffer : Buf) (x : Exchange) (actions : List Action) (s : System),
    Path Step (new storage buffer x) actions s → s.robot.command = Command.noCommand.code →
    ∀ a t waits u, commands a = true → s.Step a t → Path (Restrict (fun _ a => isWait a = true) Step) t waits u →
      u.robot.command = Command.noCommand.code := by
  intro h
  obtain ⟨b, hRun, hIn, hNone⟩ := ready_initInput
  have hBack := h _ _ _ _ _ hRun hNone (.updateW [1, 2, 3, 4, 5, 6] (-1)) _ [] _ rfl rfl (.nil _)
  cases command_of_commands (a := .updateW [1, 2, 3, 4, 5, 6] (-1)) (assembled_new hRun) rfl rfl with
  | inl hDelivered =>
    cases hDelivered.1 with
    | inl hLength => exact hLength rfl
    | inr hNot =>
      cases hNot with
      | inl hOff =>
        change b.inInitialized = false at hOff
        rw [hIn] at hOff
        cases hOff
      | inr hPos => exact absurd hPos (by decide)
  | inr hArmed => exact hArmed.2 hBack

end System

end LibUrx
