import LibUrx.Robot.Sequence

/-! # Speed commands on the wire

A speed command travels from the vector of the caller into the members of the robot, and from there through
the addresses in the input recipe into a data package.
-/
namespace LibUrx
open Bytes Rtde Runs
set_option autoImplicit false

/-- A word as it stands in a package. -/
def beBytes (w n : Nat) : List UInt8 := (leBytes w n).reverse

namespace Rtde.RtdeRecipe

/-- The frame of a package: size, type, recipe id, and the variables. -/
theorem frameOf_store {r : RtdeRecipe} (hLayout : r.Layout) (hFormed : r.Formed) (hDir : r.dirOut = false)
    (hSmall : 4 + r.bytes < 65536) (dp : Buf) (m : Memory) :
    frameOf (r.store dp m).2 =
      [UInt8.ofNat ((4 + r.bytes) / 256), UInt8.ofNat (4 + r.bytes), PackageType.dataPackage.code,
        UInt8.ofNat (r.recipeId % 256).toNat] ++ wireBytes m r.fields := by
  obtain ⟨hType, hId, hSize⟩ := store_header hDir dp m
  rw [expectedBytes, Nat.mod_eq_of_lt hSmall] at hSize
  have hBytes := hdrSize_eq (r.store dp m).2
  have hLow := ((r.store dp m).2 1).toNat_lt
  have hFirst : (r.store dp m).2 0 = UInt8.ofNat ((4 + r.bytes) / 256) := by
    apply UInt8.toNat_inj.mp
    rw [UInt8.toNat_ofNat']
    omega
  have hSecond : (r.store dp m).2 1 = UInt8.ofNat (4 + r.bytes) := by
    apply UInt8.toNat_inj.mp
    rw [UInt8.toNat_ofNat']
    omega
  have hHead : slice (r.store dp m).2 0 4 = [UInt8.ofNat ((4 + r.bytes) / 256), UInt8.ofNat (4 + r.bytes),
      PackageType.dataPackage.code, UInt8.ofNat (r.recipeId % 256).toNat] := by
    rw [← hFirst, ← hSecond, ← hType, ← hId]
    rfl
  rw [frameOf, hSize, slice_add, hHead, ← store_payload hLayout hFormed hDir dp m]
  rfl

end Rtde.RtdeRecipe

theorem read_setDoubles_of_le {m : Memory} {a b n : Nat} (h : b + n ≤ a) (vs : List UInt64) :
    (setDoubles m a vs).read b n = m.read b n := by
  induction vs generalizing m a with
  | nil => rfl
  | cons v rest ih =>
    rw [setDoubles, ih (by omega)]
    exact Memory.read_write_of_apart (Or.inr h)

/-- What has been copied into an array is read back from it, element by element. -/
theorem flatMap_read_setDoubles (m : Memory) (a : Nat) (vs : List UInt64) :
    ((List.range vs.length).flatMap fun i => ((setDoubles m a vs).read (a + 8 * i) 8).reverse) =
      vs.flatMap fun v => beBytes 8 v.toNat := by
  induction vs generalizing m a with
  | nil => rfl
  | cons v rest ih =>
    have hFirst : (setDoubles (m.write a (leBytes 8 v.toNat)) (a + 8) rest).read a 8 = leBytes 8 v.toNat := by
      have hRead := Memory.read_write_self m a (leBytes 8 v.toNat)
      rw [length_leBytes] at hRead
      rw [read_setDoubles_of_le le_rfl, hRead]
    have hRest := ih (m.write a (leBytes 8 v.toNat)) (a + 8)
    have hShift (i : Nat) : a + 8 * (i + 1) = a + 8 + 8 * i := by omega
    rw [List.length_cons, List.range_succ_eq_map, List.flatMap_cons, List.flatMap_map, List.flatMap_cons, ← hRest]
    simp only [setDoubles, Nat.mul_zero, Nat.add_zero, Nat.succ_eq_add_one, hShift, hFirst]
    rfl

theorem read_setWord_self (m : Memory) (a : Nat) (v : UInt32) : (setWord m a v).read a 4 = leBytes 4 v.toNat := by
  have hRead := Memory.read_write_self m a (leBytes 4 v.toNat)
  rwa [length_leBytes] at hRead

theorem read_setWord_of_apart {a b n : Nat} (h : Apart a 4 b n) (m : Memory) (v : UInt32) :
    (setWord m a v).read b n = m.read b n := Memory.read_write_of_apart (by rwa [length_leBytes])

theorem wireBytes_eq (m : Memory) (fields : List Token) :
    wireBytes m fields = (fields.map fun tok => (tok.storage, tok.numBytes)).flatMap fun p =>
      (m.read p.1 p.2).reverse := by
  rw [wireBytes, List.flatMap_map]

set_option maxRecDepth 100000 in
theorem members_inputFields : (placed false 0 inputFields).map (fun tok => (tok.storage, tok.numBytes)) =
    (Member.inSeqnr, 4) :: (Member.cmd, 4) :: (List.range dof).map fun i => (Member.setQd + 8 * i, 8) := by
  decide +kernel

namespace Robot

/-- What a speed command with number `n` puts on the wire. -/
def speedFrame (k : UInt8) (n : UInt32) (vs : List UInt64) : List UInt8 :=
  [0, 60, PackageType.dataPackage.code, k] ++ beBytes 4 n.toNat ++ beBytes 4 2 ++ vs.flatMap fun v => beBytes 8 v.toNat

theorem wireBytes_commanded (b : Robot) {vs : List UInt64} (hLength : vs.length = dof) :
    wireBytes (b.commanded Member.setQd .newControlInputCommand vs).mem (placed false 0 inputFields) =
      beBytes 4 (b.lastSeqnr + 1).toNat ++ beBytes 4 2 ++ vs.flatMap fun v => beBytes 8 v.toNat := by
  have hMem : (b.commanded Member.setQd .newControlInputCommand vs).mem =
      setWord (setWord (setDoubles b.mem Member.setQd vs) Member.inSeqnr (b.lastSeqnr + 1)) Member.cmd 2 := rfl
  have hSeqnr : (b.commanded Member.setQd .newControlInputCommand vs).mem.read Member.inSeqnr 4 =
      leBytes 4 (b.lastSeqnr + 1).toNat := by
    rw [hMem, read_setWord_of_apart (by decide), read_setWord_self]
  have hCmd : (b.commanded Member.setQd .newControlInputCommand vs).mem.read Member.cmd 4 = leBytes 4 2 := by
    rw [hMem, read_setWord_self]
    rfl
  have hQd (i : Nat) : (b.commanded Member.setQd .newControlInputCommand vs).mem.read (Member.setQd + 8 * i) 8 =
      (setDoubles b.mem Member.setQd vs).read (Member.setQd + 8 * i) 8 := by
    rw [hMem, read_setWord_of_apart (Or.inl (by unfold Member.cmd Member.setQd; omega)),
      read_setWord_of_apart (Or.inl (by unfold Member.inSeqnr Member.setQd; omega))]
  rw [wireBytes_eq, members_inputFields, List.flatMap_cons, List.flatMap_cons, List.flatMap_map,
    ← flatMap_read_setDoubles b.mem Member.setQd vs, hLength]
  simp only [hSeqnr, hCmd, hQd, beBytes, List.append_assoc]

/-- The input is set up under the id `k`, and `n` speed commands have been handed over since. -/
structure Steered (b : Robot) (k : UInt8) (n : Nat) : Prop extends Sound b where
  inInitialized : b.inInitialized = true
  filed : b.handler.recipesIn ≠ []
  recipe : (RtdeRecipe.init.dirInput.2.extended inputFields).Alike b.inRecipe
  id : b.inRecipe.recipeId = k.toNat
  last : b.lastSeqnr = UInt32.ofNat n

theorem Steered.frame {b : Robot} {k : UInt8} {n : Nat} (h : b.Steered k n) {vs : List UInt64}
    (hLength : vs.length = dof) :
    frameOf (b.inRecipe.store b.inRecipe.dp (b.commanded Member.setQd .newControlInputCommand vs).mem).2 =
      speedFrame k (UInt32.ofNat (n + 1)) vs := by
  have hLeads := leads_of_placed known_inputFields h.recipe leads_inputFields.1 (by decide) leads_inputFields.2
  have hFields : b.inRecipe.fields = placed false 0 inputFields := h.recipe.fields
  have hBytes : b.inRecipe.bytes = 56 := by
    rw [← leads_inputFields.1, ← hFields]
    exact hLeads.layout.expected
  have hId : UInt8.ofNat (b.inRecipe.recipeId % 256).toNat = k := by
    apply UInt8.toNat_inj.mp
    have hLt := k.toNat_lt
    rw [h.id, UInt8.toNat_ofNat']
    omega
  have hNext : b.lastSeqnr + 1 = UInt32.ofNat (n + 1) := by
    rw [h.last]
    exact (UInt32.ofNat_add n 1).symm
  rw [RtdeRecipe.frameOf_store hLeads.layout (h.formed 1) h.inDir hLeads.small, hFields, hBytes, hId,
    wireBytes_commanded b hLength, hNext, speedFrame]
  simp only [List.append_assoc]
  rfl

theorem Steered.command {b : Robot} {k : UInt8} {n : Nat} (h : b.Steered k n) {vs : List UInt64}
    (hLength : vs.length = dof) (sendCode : Int) :
    ∃ b', b.updateW vs sendCode = (decide (0 < sendCode), b') ∧ b'.Steered k (n + 1) ∧
      b'.handler.wire = b.handler.wire ++ [speedFrame k (UInt32.ofNat (n + 1)) vs] := by
  obtain ⟨mem, hSend⟩ := sendVector_filed h.onlyInput h.filed h.inInitialized hLength Member.setQd
    .newControlInputCommand sendCode
  refine ⟨_, hSend, ⟨h.toSound.sendVector hSend, h.inInitialized, h.filed, ?_, h.id, ?_⟩, ?_⟩
  · exact ⟨h.recipe.fields, h.recipe.bytes, h.recipe.dirOut, h.recipe.tsNs⟩
  · change b.lastSeqnr + 1 = _
    rw [h.last]
    exact (UInt32.ofNat_add n 1).symm
  · rw [← h.frame hLength]
    rfl

/-- Calls of `update_w`, one after the other, and what they return. -/
def updateAll (b : Robot) : List (List UInt64 × Int) → List Bool × Robot
  | [] => ([], b)
  | (newW, sendCode) :: rest =>
    let (ok, b) := b.updateW newW sendCode
    let (oks, b) := b.updateAll rest
    (ok :: oks, b)

/-- One package for each vector of six elements, with the next number. -/
def speedFrames (k : UInt8) : Nat → List (List UInt64 × Int) → List (List UInt8)
  | _, [] => []
  | n, (newW, _) :: rest =>
    if newW.length = dof then speedFrame k (UInt32.ofNat (n + 1)) newW :: speedFrames k (n + 1) rest
    else speedFrames k n rest

theorem Steered.updateAll {b : Robot} {k : UInt8} {n : Nat} (h : b.Steered k n) (commands : List (List UInt64 × Int)) :
    (b.updateAll commands).1 = commands.map (fun c => decide (c.1.length = dof) && decide (0 < c.2)) ∧
      (b.updateAll commands).2.handler.wire = b.handler.wire ++ speedFrames k n commands := by
  induction commands generalizing b n with
  | nil => exact ⟨rfl, (List.append_nil _).symm⟩
  | cons c rest ih =>
    obtain ⟨newW, sendCode⟩ := c
    by_cases hLength : newW.length = dof
    · obtain ⟨b', hSend, hSteered, hWire⟩ := h.command hLength sendCode
      obtain ⟨hResults, hFrames⟩ := ih hSteered
      simp only [Robot.updateAll, hSend, speedFrames, List.map_cons, if_pos hLength, hResults, hFrames, hWire]
      simp [hLength]
    · have hRefused : b.updateW newW sendCode = (false, b) := by
        rw [updateW, sendVector, if_pos hLength]
      obtain ⟨hResults, hFrames⟩ := ih h
      simp only [Robot.updateAll, hRefused, speedFrames, List.map_cons, if_neg hLength, hResults, hFrames]
      simp [hLength]

theorem length_speedFrame (k : UInt8) (n : UInt32) {vs : List UInt64} (hLength : vs.length = dof) :
    (speedFrame k n vs).length = 60 := by
  have hDoubles (vs : List UInt64) : (vs.flatMap fun v => beBytes 8 v.toNat).length = 8 * vs.length := by
    induction vs with
    | nil => rfl
    | cons v rest ih => rw [List.flatMap_cons, List.length_append, ih, beBytes, List.length_reverse, length_leBytes,
        List.length_cons, Nat.mul_succ, Nat.add_comm]
  rw [speedFrame, List.length_append, hDoubles, hLength]
  rfl

theorem length_of_mem_speedFrames {k : UInt8} {n : Nat} {commands : List (List UInt64 × Int)} :
    ∀ frame ∈ speedFrames k n commands, frame.length = 60 := by
  intro frame hMem
  induction commands generalizing n with
  | nil => cases hMem
  | cons c rest ih =>
    rw [speedFrames] at hMem
    split at hMem
    · rename_i hLength
      cases List.mem_cons.mp hMem with
      | inl hFirst => exact hFirst ▸ length_speedFrame k _ hLength
      | inr hRest => exact ih hRest
    · exact ih hMem

/-- Nothing has been done to the input side since the construction. -/
structure Untouched (b : Robot) : Prop extends Sound b where
  recipe : RtdeRecipe.init.dirInput.2.Alike b.inRecipe
  last : b.lastSeqnr = 0
  inInitialized : b.inInitialized = false

theorem untouched_init (storage buffer : Buf) (x : Exchange) : (init storage buffer x).Untouched where
  toSound := sound_init storage buffer x
  recipe := by
    rw [inRecipe_init]
    exact RtdeRecipe.Alike.refl _
  last := rfl
  inInitialized := rfl

/-- A call of `stop` that hands its command over. -/
def stops (b : Robot) : Action → Bool
  | .stop _ _ => b.running
  | _ => false

theorem Untouched.of_sameInput {b b' : Robot} (h : b.Untouched) (hSound : b'.Sound) (hSame : b.SameInput b') :
    b'.Untouched :=
  ⟨hSound, h.recipe.trans hSame.recipe, hSame.lastSeqnr.trans h.last, hSame.inInitialized.trans h.inInitialized⟩

/-- A run that neither registers the input nor stops a robot that runs: its commands are refused. -/
theorem Untouched.run {s t : System} {actions : List Action} (h : s.robot.Untouched)
    (hRun : Path (Restrict (fun s a => System.registersInput a = false ∧ s.robot.stops a = false) System.Step)
      s actions t) : t.robot.Untouched := by
  apply hRun.invariant (p := fun s => s.robot.Untouched) _ h
  rintro s a t hUntouched ⟨⟨hNoInput, hNoStop⟩, hStep⟩
  have hSound := System.sound_step hUntouched.toSound hStep
  cases hHands : s.robot.handsOver a with
  | false => exact hUntouched.of_sameInput hSound (sameInput_step hUntouched.toSound hNoInput hHands hStep)
  | true =>
    rcases handed_of_step hHands hStep with ⟨m, c, vs, sendCode, ok, -, hSend⟩ | ⟨sendCode, x, hStops, -⟩
    · rcases sendVector_cases hSend with ⟨hSame, -⟩ | ⟨-, hIn, -⟩
      · rw [hSame]
        exact hUntouched
      · rw [hUntouched.inInitialized] at hIn
        cases hIn
    · subst hStops
      have hRunning : s.robot.running = true := hHands
      exact Bool.noConfusion (hRunning.symm.trans hNoStop)

theorem Untouched.initInput {b b' : Robot} {g : Registration} (h : b.Untouched)
    (hInit : b.initInput g = some (true, b')) : ∃ k, b'.Steered k 0 := by
  obtain ⟨packet, r, hMsg, hCase⟩ := initInputWith_cases known_inputFields h.onlyInput h.inDir hInit
  cases hCase with
  | inl hRefused => cases hRefused.1
  | inr hTaken =>
    obtain ⟨resp, filed, -, -, hSend, hFiled, -, rfl⟩ := hTaken
    have hAlike := RtdeRecipe.alike_getMsg hMsg
    refine ⟨hdrRecipeId resp, h.toSound.initInputWith known_inputFields hInit, by simp [hSend], hFiled, ?_, rfl, h.last⟩
    have hExtended := (h.recipe.extended inputFields).trans hAlike
    exact ⟨hExtended.fields, hExtended.bytes, hExtended.dirOut, hExtended.tsNs⟩

/-- After the input has been set up, each speed command puts one package on the wire, with the next number. -/
theorem updateAll_frames {storage buffer : Buf} {x : Exchange} {actions : List Action} {s : System} {g : Registration}
    {b : Robot} (hRun : Path (Restrict (fun s a => System.registersInput a = false ∧ s.robot.stops a = false)
      System.Step) (System.new storage buffer x) actions s) (hInit : s.robot.initInput g = some (true, b)) :
    ∃ k : UInt8, b.inRecipe.recipeId = k.toNat ∧ ∀ commands : List (List UInt64 × Int),
      (b.updateAll commands).1 = commands.map (fun c => decide (c.1.length = dof) && decide (0 < c.2)) ∧
      (b.updateAll commands).2.handler.wire = b.handler.wire ++ speedFrames k 0 commands ∧
      ∀ frame ∈ speedFrames k 0 commands, frame.length = 60 := by
  have hUntouched := Untouched.run (s := System.new storage buffer x) (untouched_init storage buffer x) hRun
  obtain ⟨k, hSteered⟩ := hUntouched.initInput hInit
  refine ⟨k, hSteered.id, fun commands => ?_⟩
  obtain ⟨hResults, hWire⟩ := hSteered.updateAll commands
  exact ⟨hResults, hWire, length_of_mem_speedFrames⟩

/-- A command is refused before the input is set up, and the script is started. -/
def startedActions : List Action :=
  [.updateW [6, 5, 4, 3, 2, 1] 60, .initOutput true (answeredWith .setupOutputs (typesOf true outputFields)), .start ⟨-1, none⟩]

set_option maxRecDepth 100000 in
theorem updateAll_frames_init : ∃ s b,
    Path System.Step (System.new (fun _ => 0) (fun _ => 0) ⟨-1, none⟩) startedActions s ∧ s.robot.running = true ∧
    s.robot.initInput inputAnswered = some (true, b) ∧
    ∃ k : UInt8, b.inRecipe.recipeId = k.toNat ∧
      (b.updateAll [([], 1), ([1, 2, 3, 4, 5, 6], 60), (List.replicate 6 7, 0)]).1 = [false, true, false] ∧
      (b.updateAll [([], 1), ([1, 2, 3, 4, 5, 6], 60), (List.replicate 6 7, 0)]).2.handler.wire =
        b.handler.wire ++ [speedFrame k 1 [1, 2, 3, 4, 5, 6], speedFrame k 2 (List.replicate 6 7)] := by
  have hRuns : ((runWhile (fun s a => decide (System.registersInput a = false ∧ s.robot.stops a = false)) System.next
      (System.new (fun _ => 0) (fun _ => 0) ⟨-1, none⟩) startedActions).bind fun s =>
        (s.robot.initInput inputAnswered).map fun p => (p.1, s.robot.running)) = some (true, true) := by decide +kernel
  obtain ⟨s, hRun, hRest⟩ := Option.bind_eq_some_iff.mp hRuns
  obtain ⟨⟨ok, b⟩, hInit, hEnd⟩ := Option.map_eq_some_iff.mp hRest
  obtain ⟨rfl, hRunning⟩ := Prod.mk.inj hEnd
  have hPath := path_of_runWhile hRun
  obtain ⟨k, hId, hAll⟩ := updateAll_frames (hPath.mono fun _ _ _ h => ⟨of_decide_eq_true h.1, h.2⟩) hInit
  obtain ⟨hResults, hWire, -⟩ := hAll [([], 1), ([1, 2, 3, 4, 5, 6], 60), (List.replicate 6 7, 0)]
  exact ⟨s, b, hPath.of_restrict, hRunning, hInit, k, hId, hResults, hWire⟩

def stoppedActions : List Action :=
  [.initOutput true (answeredWith .setupOutputs (typesOf true outputFields)), .start ⟨-1, none⟩, .stop 0 ⟨-1, none⟩]

set_option maxRecDepth 100000 in
/-- A robot that has been stopped before has used number 1. -/
theorem first_number_is_two : ¬ ∀ (storage buffer : Buf) (x : Exchange) (actions : List Action) (s : System)
    (g : Registration) (b : Robot) (k : UInt8), Path System.Step (System.new storage buffer x) actions s →
    (∀ g, Action.initInput g ∉ actions) → s.robot.initInput g = some (true, b) → b.inRecipe.recipeId = k.toNat →
    ∀ commands : List (List UInt64 × Int),
      (b.updateAll commands).2.handler.wire = b.handler.wire ++ speedFrames k 0 commands := by
  intro h
  have hRuns : ((runWhile (fun _ _ => true) System.next (System.new (fun _ => 0) (fun _ => 0) ⟨-1, none⟩)
      stoppedActions).bind fun s => s.robot.initInput inputAnswered).map (fun p => (p.1, p.2.inRecipe.recipeId,
        decide ((p.2.updateAll [(List.replicate 6 0, 60)]).2.handler.wire =
          p.2.handler.wire ++ speedFrames 1 0 [(List.replicate 6 0, 60)]))) = some (true, 1, false) := by
    decide +kernel
  obtain ⟨⟨ok, b⟩, hEnd, hValues⟩ := Option.map_eq_some_iff.mp hRuns
  obtain ⟨s, hRun, hInit⟩ := Option.bind_eq_some_iff.mp hEnd
  obtain ⟨rfl, hValues⟩ := Prod.mk.inj hValues
  obtain ⟨hId, hDiffers⟩ := Prod.mk.inj hValues
  refine of_decide_eq_false hDiffers (h _ _ _ stoppedActions s _ b 1 (path_of_runWhile hRun).of_restrict ?_ hInit hId _)
  intro g hMem
  simp [stoppedActions] at hMem

end Robot

end LibUrx
