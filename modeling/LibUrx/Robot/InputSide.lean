import LibUrx.Robot.SpeedCommands

/-! # The input side of a robot

Nothing ever takes a field out of the input recipe, so it is the set-ups called so far, one after the other.
Once one of them has succeeded, the recipe is filed for good.
-/
namespace LibUrx
open Bytes Text Rtde Runs
set_option autoImplicit false

/-- A field of a recipe apart from its place in the package: name, storage, and number of bytes. -/
abbrev Entry := List UInt8 × Nat × Nat

def Rtde.Token.entry (tok : Token) : Entry := (tok.name, tok.storage, tok.numBytes)

theorem entries_placed (dirOut : Bool) (o : Nat) (fields : List FieldOf) :
    (placed dirOut o fields).map Token.entry = fields.map fun field =>
      (field.1, field.2, rtdeDatasize ((typeOfField dirOut field.1).getD .notFound) % 256) := by
  induction fields generalizing o with
  | nil => rfl
  | cons field rest ih =>
    rw [placed, List.map_cons, ih, List.map_cons]
    rfl

def commandEntries : List Entry :=
  [(text "input_int_register_0", Member.inSeqnr, 4), (text "input_int_register_1", Member.cmd, 4)]

def speedRegisters : List (List UInt8) :=
  [text "input_double_register_0", text "input_double_register_1", text "input_double_register_2",
    text "input_double_register_3", text "input_double_register_4", text "input_double_register_5"]

def poseRegisters : List (List UInt8) :=
  [text "input_double_register_8", text "input_double_register_9", text "input_double_register_10",
    text "input_double_register_11", text "input_double_register_12", text "input_double_register_13"]

/-- The names for an array of six values, and the place of each value. -/
def registerEntries (a : Nat) (names : List (List UInt8)) : List Entry :=
  names.zipIdx.map fun p => (p.1, a + 8 * p.2, 8)

/-- What one set-up adds to the input recipe, with or without the pose. -/
def setUpEntries (pose : Bool) : List Entry :=
  commandEntries ++ registerEntries Member.setQd speedRegisters ++
    if pose then registerEntries Member.tcpPoseRef poseRegisters else []

set_option maxRecDepth 100000 in
theorem entries_inputFieldsTcpPose (o : Nat) :
    (placed false o inputFieldsTcpPose).map Token.entry = setUpEntries true := by
  rw [entries_placed]
  decide +kernel

set_option maxRecDepth 100000 in
theorem entries_inputFields (o : Nat) : (placed false o inputFields).map Token.entry = setUpEntries false := by
  rw [entries_placed]
  decide +kernel

namespace Rtde

theorem World.OnlyInput.send_kept {w : World} (h : w.OnlyInput) (id sendCode : Int) :
    (w.send id sendCode).2.recipesIn = w.recipesIn ∧ (w.recipes 1).Alike ((w.send id sendCode).2.recipes 1) := by
  cases w.send_cases id sendCode with
  | inl hNone =>
    rw [hNone.1]
    exact ⟨rfl, RtdeRecipe.Alike.refl _⟩
  | inr hSent =>
    obtain ⟨e, -, hMem, -, hSend⟩ := hSent
    rw [hSend, h e hMem]
    exact ⟨rfl, rfl, rfl, rfl, rfl⟩

/-- A recipe for input with the fields of these set-ups, with the pose or without, in this order. -/
structure RtdeRecipe.Combines (r : RtdeRecipe) (setUps : List Bool) : Prop where
  layout : r.Layout
  formed : r.Formed
  dirIn : r.dirOut = false
  entries : r.fields.map Token.entry = setUps.flatMap setUpEntries

namespace RtdeRecipe

theorem Combines.alike {r r' : RtdeRecipe} {setUps : List Bool} (h : r.Combines setUps) (hAlike : r.Alike r') :
    r'.Combines setUps where
  layout := layout_congr hAlike.bytes hAlike.fields h.layout
  formed := hAlike.formed h.formed
  dirIn := hAlike.dirOut.trans h.dirIn
  entries := by
    rw [hAlike.fields]
    exact h.entries

theorem Combines.extended {r : RtdeRecipe} {setUps : List Bool} (h : r.Combines setUps) {fields : List FieldOf}
    {pose : Bool} (hKnown : Known false fields)
    (hEntries : ∀ o, (placed false o fields).map Token.entry = setUpEntries pose) :
    (r.extended fields).Combines (setUps ++ [pose]) where
  layout := h.layout.extended (h.dirIn ▸ hKnown)
  formed := h.formed.extended (h.dirIn ▸ hKnown)
  dirIn := h.dirIn
  entries := by
    rw [RtdeRecipe.extended, h.dirIn, List.map_append, h.entries, hEntries, List.flatMap_append,
      List.flatMap_singleton]

end RtdeRecipe

end Rtde

namespace Robot

/-- A robot whose input has been set up in this order, with success or without. -/
structure Assembled (b : Robot) (setUps : List Bool) : Prop extends Sound b where
  recipe : b.inRecipe.Combines setUps
  begun : b.inInitialized = true → setUps ≠ []
  filed : b.inInitialized = true → b.handler.recipesIn ≠ []

theorem assembled_init (storage buffer : Buf) (x : Exchange) : (init storage buffer x).Assembled [] where
  toSound := sound_init storage buffer x
  recipe := by
    rw [inRecipe_init]
    exact ⟨RtdeRecipe.layout_of_nil rfl rfl, RtdeRecipe.formed_of_nil rfl, rfl, rfl⟩
  begun hIn := absurd hIn Bool.false_ne_true
  filed hIn := absurd hIn Bool.false_ne_true

theorem Assembled.of_kept {b b' : Robot} {setUps : List Bool} (h : b.Assembled setUps) (hSound : b'.Sound)
    (hIn : b'.inInitialized = b.inInitialized) (hFiled : b'.handler.recipesIn = b.handler.recipesIn)
    (hAlike : b.inRecipe.Alike b'.inRecipe) : b'.Assembled setUps where
  toSound := hSound
  recipe := h.recipe.alike hAlike
  begun hReady := h.begun (hIn.symm.trans hReady)
  filed hReady := by
    rw [hFiled]
    exact h.filed (hIn.symm.trans hReady)

theorem Assembled.sendVector {b b' : Robot} {setUps : List Bool} (h : b.Assembled setUps) {a : Nat} {c : Command}
    {vs : List UInt64} {sendCode : Int} {ok : Bool} (hSend : b.sendVector a c vs sendCode = (ok, b')) :
    b'.Assembled setUps := by
  have hSound := h.toSound.sendVector hSend
  cases sendVector_cases hSend with
  | inl hRefused => exact hRefused.1 ▸ h
  | inr hSent =>
    obtain ⟨-, -, w, hWorld, rfl⟩ := hSent
    obtain ⟨hFiled, hAlike⟩ := World.OnlyInput.send_kept (w := (b.commanded a c vs).handler) h.onlyInput
      b.inRecipe.recipeId sendCode
    rw [hWorld] at hFiled hAlike
    apply h.of_kept hSound rfl
    · exact Eq.trans (by cases ok <;> rfl) hFiled
    · cases ok with
      | false | true => exact hAlike.trans ⟨rfl, rfl, rfl, rfl⟩

theorem Assembled.stop {b : Robot} {setUps : List Bool} (h : b.Assembled setUps) (sendCode : Int) (x : Exchange) :
    (b.stop sendCode x).2.Assembled setUps := by
  have hSound := h.toSound.stop sendCode x
  obtain ⟨hFiled, hAlike⟩ := World.OnlyInput.send_kept (w := (b.number .stopCommand).handler) h.onlyInput
    (b.number .stopCommand).inRecipe.recipeId sendCode
  unfold Robot.stop at hSound ⊢
  split
  · exact h
  · rename_i hRunning
    rw [if_neg hRunning] at hSound
    have hSame := sameInput_handlerStop ((b.number .stopCommand).send sendCode).2 x
    exact h.of_kept hSound rfl (hSame.filed.trans hFiled) (hAlike.trans hSame.recipe)

/-- A set-up of an assembled input asks for the types of one set-up more. -/
theorem Assembled.asks_combined {b b' : Robot} {setUps : List Bool} (h : b.Assembled setUps) {fields : List FieldOf}
    {ok pose : Bool} {g : Registration} (hKnown : Known false fields)
    (hEntries : ∀ o, (placed false o fields).map Token.entry = setUpEntries pose)
    (hInit : Robot.initInputWith fields b g = some (ok, b')) :
    ∃ asking, b.Asking fields asking ∧ asking.inRecipe.Combines (setUps ++ [pose]) ∧
      ((ok = false ∧ asking.handler.recipesIn = b.handler.recipesIn ∧ b' = asking) ∨
        (asking.handler.recipesIn ≠ [] ∧
          b' = { asking with handler := asking.handler.sentBy 1, inInitialized := b.inInitialized || ok })) := by
  obtain ⟨asking, hAsking, hCases⟩ := h.asks_initInputWith hKnown hInit
  exact ⟨asking, hAsking, (h.recipe.extended hKnown hEntries).alike hAsking.recipe, hCases⟩

theorem Assembled.initInputWith {b b' : Robot} {setUps : List Bool} (h : b.Assembled setUps) {fields : List FieldOf}
    {ok pose : Bool} {g : Registration} (hKnown : Known false fields)
    (hEntries : ∀ o, (placed false o fields).map Token.entry = setUpEntries pose)
    (hInit : initInputWith fields b g = some (ok, b')) : b'.Assembled (setUps ++ [pose]) := by
  have hSound := h.toSound.initInputWith hKnown hInit
  have hBegun : setUps ++ [pose] ≠ [] := List.concat_ne_nil _ _
  obtain ⟨asking, hAsking, hAsked, hCases⟩ := h.asks_combined hKnown hEntries hInit
  cases hCases with
  | inl hRefused =>
    obtain ⟨-, hKept, rfl⟩ := hRefused
    refine ⟨hSound, hAsked, fun _ => hBegun, fun hIn => ?_⟩
    rw [hKept]
    exact h.filed (hAsking.inInitialized.symm.trans hIn)
  | inr hTaken =>
    obtain ⟨hFiled, rfl⟩ := hTaken
    exact ⟨hSound, hAsked.alike ⟨rfl, rfl, rfl, rfl⟩, fun _ => hBegun, fun _ => hFiled⟩

/-- A vector is turned down and changes nothing, or it is filled in, numbered and handed over, and the command is
taken back if all goes well. -/
theorem Assembled.sendVector_cases {b b' : Robot} {setUps : List Bool} (h : b.Assembled setUps) {a : Nat}
    {c : Command} {vs : List UInt64} {sendCode : Int} {ok : Bool} (hSend : b.sendVector a c vs sendCode = (ok, b')) :
    (b' = b ∧ ok = false ∧ (vs.length ≠ dof ∨ b.inInitialized = false)) ∨
      (vs.length = dof ∧ b.inInitialized = true ∧ ok = decide (0 < sendCode) ∧
        b' = { b.commanded a c vs with handler :=
          if ok then { (b.commanded a c vs).handler.sentBy 1 with
            mem := setWord (b.commanded a c vs).mem Member.cmd Command.noCommand.code }
          else (b.commanded a c vs).handler.sentBy 1 }) := by
  cases Robot.sendVector_cases hSend with
  | inl hRefused => exact Or.inl hRefused
  | inr hSent =>
    obtain ⟨hLength, hIn, w, hWorld, rfl⟩ := hSent
    have hFiled := World.OnlyInput.send (w := (b.commanded a c vs).handler) h.onlyInput (h.filed hIn) sendCode
    obtain ⟨hOk, rfl⟩ := Prod.mk.inj (hWorld.symm.trans hFiled)
    exact Or.inr ⟨hLength, hIn, hOk, rfl⟩

end Robot

namespace System

/-- The set-up of the input that an action is. -/
def setUp : Action → List Bool
  | .initInput _ => [false]
  | .initInputTcpPose _ => [true]
  | _ => []

def setUps (actions : List Action) : List Bool := actions.flatMap setUp

theorem setUp_of_others {a : Action} (h : registersInput a = false) : setUp a = [] := by
  cases a with
  | initInput | initInputTcpPose => cases h
  | _ => rfl

/-- The two ways to set the input up differ in the fields they add. -/
theorem initInput_of_step {s t : System} {a : Action} (hInput : registersInput a = true) (hStep : s.Step a t) :
    ∃ fields pose ok g, Known false fields ∧ (∀ o, (placed false o fields).map Token.entry = setUpEntries pose) ∧
      setUp a = [pose] ∧ Robot.initInputWith fields s.robot g = some (ok, t.robot) := by
  unfold Step at hStep
  cases a with
  | initInput g =>
    obtain ⟨⟨ok, b⟩, hInit, rfl⟩ := Option.map_eq_some_iff.mp hStep
    exact ⟨inputFields, false, ok, g, known_inputFields, entries_inputFields, rfl, hInit⟩
  | initInputTcpPose g =>
    obtain ⟨⟨ok, b⟩, hInit, rfl⟩ := Option.map_eq_some_iff.mp hStep
    exact ⟨inputFieldsTcpPose, true, ok, g, known_inputFieldsTcpPose, entries_inputFieldsTcpPose, rfl, hInit⟩
  | _ => cases hInput

theorem assembled_step {s t : System} {a : Action} {setUps : List Bool} (h : s.robot.Assembled setUps)
    (hStep : s.Step a t) : t.robot.Assembled (setUps ++ setUp a) := by
  cases hInput : registersInput a with
  | true =>
    obtain ⟨fields, pose, ok, g, hKnown, hEntries, hSetUp, hInit⟩ := initInput_of_step hInput hStep
    rw [hSetUp]
    exact h.initInputWith hKnown hEntries hInit
  | false =>
    rw [setUp_of_others hInput, List.append_nil]
    cases hHands : s.robot.handsOver a with
    | true =>
      cases Robot.handed_of_step hHands hStep with
      | inl hCommand =>
        obtain ⟨m, c, vs, sendCode, ok, -, hSend⟩ := hCommand
        exact h.sendVector hSend
      | inr hStop =>
        obtain ⟨sendCode, x, -, hRobot⟩ := hStop
        rw [hRobot]
        exact h.stop sendCode x
    | false =>
      have hSame := Robot.sameInput_step h.toSound hInput hHands hStep
      exact h.of_kept (sound_step h.toSound hStep) hSame.inInitialized hSame.filed hSame.recipe

/-- Along every run the input recipe is what the set-ups of the run have put together. -/
theorem assembled_run {s t : System} {actions : List Action} {done : List Bool} (h : s.robot.Assembled done)
    (hRun : Path Step s actions t) : t.robot.Assembled (done ++ setUps actions) := by
  induction hRun generalizing done with
  | nil => rwa [setUps, List.flatMap_nil, List.append_nil]
  | cons head _ ih =>
    rw [setUps, List.flatMap_cons, ← List.append_assoc]
    exact ih (assembled_step h head)

theorem assembled_new {storage buffer : Buf} {x : Exchange} {actions : List Action} {s : System}
    (hRun : Path Step (new storage buffer x) actions s) : s.robot.Assembled (setUps actions) :=
  assembled_run (s := new storage buffer x) (Robot.assembled_init storage buffer x) hRun

end System

end LibUrx
