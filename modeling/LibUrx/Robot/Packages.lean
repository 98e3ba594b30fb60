import LibUrx.Robot.RobotRun

/-! # What the steps of a run hand over

Only a registration of the input recipe and a command hand a data package over. Everything else leaves the
input side of a robot as it is.
-/
namespace LibUrx
open Bytes Rtde Runs
set_option autoImplicit false

theorem Rtde.World.OnlyInput.send_recipes {w : World} (h : w.OnlyInput) (id sendCode : Int) :
    (w.send id sendCode).2.recipes 0 = w.recipes 0 := by
  rcases w.send_cases id sendCode with ⟨hSend, -⟩ | ⟨e, -, hMem, -, hSend⟩
  · rw [hSend]
  · rw [hSend, h e hMem]
    rfl

namespace Robot

def packages (b : Robot) : List (List UInt8) := b.handler.wire.filter isPackage

structure SameInput (b b' : Robot) : Prop where
  inInitialized : b'.inInitialized = b.inInitialized
  filed : b'.handler.recipesIn = b.handler.recipesIn
  recipe : b.inRecipe.Alike b'.inRecipe
  lastSeqnr : b'.lastSeqnr = b.lastSeqnr
  packages : b'.packages = b.packages

theorem SameInput.refl (b : Robot) : b.SameInput b := ⟨rfl, rfl, RtdeRecipe.Alike.refl _, rfl, rfl⟩

theorem packages_asked (b : Robot) (i : Nat) (r : RtdeRecipe) {packet : Buf} (buffer : Buf)
    (h : isPackage (frameOf packet) = false) :
    packages { b with handler := b.handler.asked i r packet buffer } = b.packages := by
  change (b.handler.wire ++ [frameOf packet]).filter isPackage = b.packages
  rw [List.filter_append, List.filter_singleton, h]
  exact List.append_nil _

theorem packages_sentBy {b : Robot} (hDir : b.inRecipe.dirOut = false) (hSmall : 4 + b.inRecipe.bytes < 65536) :
    packages { b with handler := b.handler.sentBy 1 } =
      b.packages ++ [frameOf (b.inRecipe.store b.inRecipe.dp b.mem).2] := by
  have hPackage := RtdeRecipe.isPackage_store hDir hSmall b.inRecipe.dp b.mem
  change (b.handler.wire ++ [frameOf (b.inRecipe.store b.inRecipe.dp b.mem).2]).filter isPackage = _
  rw [List.filter_append, List.filter_singleton, hPackage]
  rfl

theorem Sound.of_parts {b b' : Robot} (h : b.Sound) (hOut : b'.handler.out = b.handler.out)
    (hRecipes : b'.handler.recipes = b.handler.recipes) (hMap : b'.handler.recipesIn = b.handler.recipesIn)
    (hInit : b'.outInitialized = b.outInitialized) : b'.Sound where
  out := by rw [hOut, hInit, h.out]
  outDir := by rw [outRecipe, hRecipes]; exact h.outDir
  inDir := by rw [inRecipe, hRecipes]; exact h.inDir
  onlyInput := by rw [World.OnlyInput, hMap]; exact h.onlyInput
  formed := by rw [World.AllFormed, hRecipes]; exact h.formed
  asks := by rw [hRecipes]; exact h.asks

theorem Sound.sent {b : Robot} (h : b.Sound) (id sendCode : Int) :
    Sound { b with handler := (b.handler.send id sendCode).2 } := by
  rcases World.send_cases b.handler id sendCode with ⟨hSend, -⟩ | ⟨e, -, hMem, -, hSend⟩
  · rw [hSend]
    exact h
  · rw [hSend, h.onlyInput e hMem]
    exact h.sentBy h.onlyInput

theorem Sound.sendVector {b b' : Robot} (h : b.Sound) {a : Nat} {c : Command} {vs : List UInt64} {sendCode : Int}
    {ok : Bool} (hSend : b.sendVector a c vs sendCode = (ok, b')) : b'.Sound := by
  rcases sendVector_cases hSend with ⟨rfl, -⟩ | ⟨-, -, w, hSent, rfl⟩
  · exact h
  · have hCommanded : (b.commanded a c vs).Sound := h.of_parts rfl rfl rfl rfl
    have hNext := hCommanded.sent b.inRecipe.recipeId sendCode
    rw [hSent] at hNext
    refine hNext.of_parts ?_ ?_ ?_ rfl <;> split <;> rfl

theorem Sound.output_sendVector {b b' : Robot} (h : b.Sound) {a : Nat} {c : Command} {vs : List UInt64}
    {sendCode : Int} {ok : Bool} (hSend : b.sendVector a c vs sendCode = (ok, b')) :
    b'.outRecipe = b.outRecipe ∧ b'.outInitialized = b.outInitialized := by
  cases sendVector_cases hSend with
  | inl hRefused =>
    rw [hRefused.1]
    exact ⟨rfl, rfl⟩
  | inr hSent =>
    obtain ⟨-, -, w, hWorld, rfl⟩ := hSent
    have hRecipes := World.OnlyInput.send_recipes (w := (b.commanded a c vs).handler) h.onlyInput b.inRecipe.recipeId
      sendCode
    rw [hWorld] at hRecipes
    exact ⟨Eq.trans (by cases ok <;> rfl) hRecipes, rfl⟩

theorem Sound.stop {b : Robot} (h : b.Sound) (sendCode : Int) (x : Exchange) : (b.stop sendCode x).2.Sound := by
  unfold Robot.stop
  split
  · exact h
  · have hNumbered : (b.number .stopCommand).Sound := h.of_parts rfl rfl rfl rfl
    have hSent := hNumbered.sent (b.number .stopCommand).inRecipe.recipeId sendCode
    refine hSent.of_parts ?_ ?_ ?_ rfl <;> dsimp only [] <;> rw [World.stop_world] <;> rfl

theorem Sound.start {b : Robot} (h : b.Sound) (x : Exchange) : (b.start x).Sound := by
  unfold Robot.start
  split
  · exact h
  · refine h.of_parts ?_ ?_ ?_ rfl <;> dsimp only [] <;> rw [World.start_world] <;> rfl

theorem sameInput_initOutputWith {fields : List FieldOf} {b b' : Robot} {connected ok : Bool} {g : Registration}
    (h : b.Sound) (hKnown : Known true fields) (hInit : initOutputWith fields b connected g = some (ok, b')) :
    b.SameInput b' := by
  rcases initOutputWith_cases hKnown h.outDir hInit with ⟨rfl, -⟩ | ⟨-, -, -, packet, r, hMsg, hCases⟩
  · exact SameInput.refl _
  · have hRequest : isPackage (frameOf packet) = false := ((h.asks 0).extended.getMsg hMsg).1
    rcases hCases with ⟨-, buffer, rfl⟩ | ⟨-, resp, -, -, rfl⟩
    · exact ⟨rfl, rfl, RtdeRecipe.Alike.refl _, rfl, b.packages_asked 0 r.clearFields buffer hRequest⟩
    · exact ⟨rfl, rfl, RtdeRecipe.Alike.refl _, rfl, b.packages_asked 0 (r.accepted resp) resp hRequest⟩

/-- A robot that has asked for the types of its input recipe, with these fields added to it. -/
structure Asking (b : Robot) (fields : List FieldOf) (asking : Robot) : Prop where
  recipe : (b.inRecipe.extended fields).Alike asking.inRecipe
  packages : asking.packages = b.packages
  mem : asking.mem = b.mem
  lastSeqnr : asking.lastSeqnr = b.lastSeqnr
  inInitialized : asking.inInitialized = b.inInitialized

/-- A set-up of the input ends behind the request, or its recipe is filed and sent. -/
theorem Sound.asks_initInputWith {fields : List FieldOf} {b b' : Robot} {ok : Bool} {g : Registration} (h : b.Sound)
    (hKnown : Known false fields) (hInit : Robot.initInputWith fields b g = some (ok, b')) :
    ∃ asking, b.Asking fields asking ∧
      ((ok = false ∧ asking.handler.recipesIn = b.handler.recipesIn ∧ b' = asking) ∨
        (asking.handler.recipesIn ≠ [] ∧
          b' = { asking with handler := asking.handler.sentBy 1, inInitialized := b.inInitialized || ok })) := by
  obtain ⟨packet, r, hMsg, hCases⟩ := initInputWith_cases hKnown h.onlyInput h.inDir hInit
  have hAlike := RtdeRecipe.alike_getMsg hMsg
  have hRequest := ((h.asks 1).extended.getMsg hMsg).1
  cases hCases with
  | inl hRefused =>
    obtain ⟨hOk, buffer, rfl⟩ := hRefused
    have hRecipe : Robot.inRecipe { b with handler := b.handler.asked 1 r packet buffer } = r :=
      World.asked_self b.handler 1 r packet buffer
    exact ⟨_, ⟨hRecipe ▸ hAlike, b.packages_asked 1 r buffer hRequest, rfl, rfl, rfl⟩, Or.inl ⟨hOk, rfl, rfl⟩⟩
  | inr hTaken =>
    obtain ⟨resp, filed, -, -, -, hFiled, -, rfl⟩ := hTaken
    let asking : Robot := { b with
      handler := { b.handler.asked 1 (r.accepted resp) packet resp with recipesIn := filed } }
    have hRecipe : asking.inRecipe = r.accepted resp := World.asked_self b.handler 1 (r.accepted resp) packet resp
    have hAccepted : r.Alike asking.inRecipe := hRecipe ▸ ⟨rfl, rfl, rfl, rfl⟩
    exact ⟨asking, ⟨hAlike.trans hAccepted, b.packages_asked 1 (r.accepted resp) resp hRequest, rfl, rfl, rfl⟩,
      Or.inr ⟨hFiled, rfl⟩⟩

theorem mem_initOutputWith {fields : List FieldOf} {b b' : Robot} {connected ok : Bool} {g : Registration}
    (h : b.Sound) (hKnown : Known true fields) (hInit : initOutputWith fields b connected g = some (ok, b')) :
    b'.mem = b.mem := by
  rcases initOutputWith_cases hKnown h.outDir hInit with ⟨rfl, -⟩ | ⟨-, -, -, packet, r, hMsg, hCases⟩
  · rfl
  · rcases hCases with ⟨-, buffer, rfl⟩ | ⟨-, resp, -, -, rfl⟩
    · rfl
    · rfl

theorem mem_initInputWith {fields : List FieldOf} {b b' : Robot} {ok : Bool} {g : Registration} (h : b.Sound)
    (hKnown : Known false fields) (hInit : initInputWith fields b g = some (ok, b')) : b'.mem = b.mem := by
  obtain ⟨asking, hAsking, ⟨-, -, rfl⟩ | ⟨-, rfl⟩⟩ := h.asks_initInputWith hKnown hInit
  · exact hAsking.mem
  · exact hAsking.mem

theorem packages_init (storage buffer : Buf) (x : Exchange) : (init storage buffer x).packages = [] := by
  rw [packages, handler_init]
  change [frameOf (rtdeMkreqProtVersion fun _ => 0)].filter isPackage = []
  decide

theorem not_isPackage_control (begin : Bool) :
    isPackage (frameOf (rtdeControlPackage (fun _ => 0) begin)) = false := by
  cases begin <;> decide

theorem sameInput_exchange (b : Robot) {packet : Buf} (h : isPackage (frameOf packet) = false) (rsz : Nat)
    (x : Exchange) :
    b.SameInput { b with handler := (b.handler.exchange packet rsz x).2 } where
  inInitialized := rfl
  filed := rfl
  recipe := RtdeRecipe.Alike.refl _
  lastSeqnr := rfl
  packages := by
    change (b.handler.wire ++ [frameOf packet]).filter isPackage = b.packages
    rw [List.filter_append, List.filter_singleton, h]
    exact List.append_nil _

theorem sameInput_handlerStop (b : Robot) (x : Exchange) :
    b.SameInput { b with running := false, handler := (b.handler.stop x).2 } := by
  rw [World.stop_world]
  have hSame := b.sameInput_exchange (not_isPackage_control false) 4 x
  exact ⟨hSame.inInitialized, hSame.filed, hSame.recipe, hSame.lastSeqnr, hSame.packages⟩

theorem sameInput_start (b : Robot) (x : Exchange) : b.SameInput (b.start x) := by
  unfold Robot.start
  split
  · exact SameInput.refl _
  · rw [World.start_world]
    have hSame := b.sameInput_exchange (not_isPackage_control true) 4 x
    exact ⟨hSame.inInitialized, hSame.filed, hSame.recipe, hSame.lastSeqnr, hSame.packages⟩

end Robot

namespace System

theorem sound_step {s t : System} {a : Action} (h : s.robot.Sound) (hStep : s.Step a t) : t.robot.Sound := by
  cases robotMoves_of_step hStep with
  | output known _ done => exact h.initOutputWith known done
  | input known _ done => exact h.initInputWith known done
  | vector _ done => exact h.sendVector done
  | wait _ done =>
    rw [done]
    exact h.of_parts rfl rfl rfl rfl
  | takeFrame done =>
    obtain ⟨buffer, mem, -, hRobot⟩ := Robot.takeFrame_eq_some done
    rw [hRobot]
    exact h.of_parts rfl rfl rfl rfl
  | publish now done =>
    rw [done, Robot.publish]
    split
    · exact h
    · exact h.of_parts rfl rfl rfl rfl
  | state synchronous done =>
    rw [done, Robot.state]
    split
    · exact h
    · exact h.of_parts rfl rfl rfl rfl
  | start x done =>
    rw [done]
    exact h.start x
  | stop sendCode x done =>
    rw [done]
    exact h.stop sendCode x

/-- Only setting up the output changes the output side. -/
theorem output_step {s t : System} {a : Action} (h : s.robot.Sound) (hNoOutput : registersOutput a = false)
    (hStep : s.Step a t) :
    t.robot.outRecipe = s.robot.outRecipe ∧ t.robot.outInitialized = s.robot.outInitialized := by
  cases robotMoves_of_step hStep with
  | output _ registers =>
    rw [hNoOutput] at registers
    cases registers
  | input known _ done =>
    obtain ⟨packet, r, -, hCases⟩ := Robot.initInputWith_cases known h.onlyInput h.inDir done
    cases hCases with
    | inl hRefused =>
      obtain ⟨-, buffer, hRobot⟩ := hRefused
      rw [hRobot]
      exact ⟨rfl, rfl⟩
    | inr hTaken =>
      obtain ⟨resp, filed, -, -, -, -, -, hRobot⟩ := hTaken
      rw [hRobot]
      exact ⟨rfl, rfl⟩
  | vector _ done => exact h.output_sendVector done
  | wait _ done =>
    rw [done]
    exact ⟨rfl, rfl⟩
  | takeFrame done =>
    obtain ⟨buffer, mem, -, hRobot⟩ := Robot.takeFrame_eq_some done
    rw [hRobot]
    exact ⟨rfl, rfl⟩
  | publish now done =>
    rw [done, Robot.publish]
    split <;> exact ⟨rfl, rfl⟩
  | state synchronous done =>
    rw [done, Robot.state]
    split <;> exact ⟨rfl, rfl⟩
  | start x done =>
    rw [done, Robot.start]
    split
    · exact ⟨rfl, rfl⟩
    · dsimp only [Robot.outRecipe]
      rw [World.start_world]
      exact ⟨rfl, rfl⟩
  | stop sendCode x done =>
    rw [done, Robot.stop]
    split
    · exact ⟨rfl, rfl⟩
    · dsimp only [Robot.outRecipe]
      rw [World.stop_world]
      exact ⟨World.OnlyInput.send_recipes (w := (s.robot.number .stopCommand).handler) h.onlyInput _ sendCode, rfl⟩

end System

end LibUrx
