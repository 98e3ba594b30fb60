import LibUrx.Base.Runs
import LibUrx.Rtde.Handler
import LibUrx.Rtde.RecipeLayout

/-! # Histories of a handler

What can happen to a handler and to the recipes it points to, in any order and any number of times.
-/
namespace LibUrx.Rtde
open Bytes Text Runs
set_option autoImplicit false

/-- Everything that can happen to a handler and the recipes it points to. -/
inductive HandlerCall where
  | register (i : Nat) (g : Registration)
  | send (recipeId sendCode : Int)
  | recv (reply : Option (List UInt8)) (ts : UInt64)
  | setVersion (x : Exchange)
  | getUrVersion (urver : UrVersion) (x : Exchange)
  | start (x : Exchange)
  | stop (x : Exchange)
  | recipe (i : Nat) (c : RecipeCall)
  | assign (a : Nat) (bs : List UInt8)

/-- An answer reaches a recipe through a registration only. -/
inductive HandlerStep : World → HandlerCall → World → Prop where
  | register {w w' : World} {i : Nat} {g : Registration} {ok : Bool}
      (h : w.registerRecipe i g = some (ok, w')) : HandlerStep w (.register i g) w'
  | send (w : World) (recipeId sendCode : Int) :
      HandlerStep w (.send recipeId sendCode) (w.send recipeId sendCode).2
  | recv {w w' : World} {reply : Option (List UInt8)} {ts : UInt64} {ok : Bool}
      (h : w.recv reply ts = some (ok, w')) : HandlerStep w (.recv reply ts) w'
  | setVersion (w : World) (x : Exchange) : HandlerStep w (.setVersion x) (w.setVersion x).2
  | getUrVersion (w : World) (urver : UrVersion) (x : Exchange) :
      HandlerStep w (.getUrVersion urver x) (w.getUrVersion urver x).2.2
  | start (w : World) (x : Exchange) : HandlerStep w (.start x) (w.start x).2
  | stop (w : World) (x : Exchange) : HandlerStep w (.stop x) (w.stop x).2
  | recipe (w : World) (i : Nat) {c : RecipeCall} (h : ∀ resp, c ≠ .registerResponse resp) :
      HandlerStep w (.recipe i c)
        { w.setRecipe i (RtdeRecipe.call (w.recipes i, w.mem) c).1 with
          mem := (RtdeRecipe.call (w.recipes i, w.mem) c).2 }
  | assign (w : World) (a : Nat) (bs : List UInt8) :
      HandlerStep w (.assign a bs) { w with mem := w.mem.write a bs }

def Reachable (w : World) : Prop :=
  ∃ w₀ calls, (∀ i, w₀.recipes i = RtdeRecipe.init) ∧ Path HandlerStep w₀ calls w

theorem reachable_fresh (mem : Memory) (buffer : Buf) : Reachable (World.fresh mem buffer) :=
  ⟨World.fresh mem buffer, [], fun _ => rfl, .nil _⟩

theorem RtdeRecipe.Formed.congr {r r' : RtdeRecipe} (h : r.Formed) (hFields : r'.fields = r.fields)
    (hDir : r'.dirOut = r.dirOut) : r'.Formed where
  wellTyped := hFields ▸ h.wellTyped
  kind := by
    rw [hFields, hDir]
    exact h.kind

namespace World

def AllFormed (w : World) : Prop := ∀ i, (w.recipes i).Formed

theorem AllFormed.setRecipe {w : World} (h : w.AllFormed) (i : Nat) {r : RtdeRecipe} (hFormed : r.Formed) :
    (w.setRecipe i r).AllFormed := by
  intro j
  rcases eq_or_ne j i with rfl | hNe
  · rw [setRecipe_self]
    exact hFormed
  · rw [setRecipe_of_ne hNe]
    exact h j

theorem AllFormed.send {w : World} (h : w.AllFormed) (id sendCode : Int) : (w.send id sendCode).2.AllFormed := by
  rcases send_cases w id sendCode with ⟨hSend, -⟩ | ⟨e, -, -, -, hSend⟩
  · rw [hSend]
    exact h
  · rw [hSend]
    exact h.setRecipe e.2 ((h e.2).congr rfl rfl)

theorem AllFormed.registerRecipe {w w' : World} (h : w.AllFormed) {i : Nat} {g : Registration} {ok : Bool}
    (hRegister : w.registerRecipe i g = some (ok, w')) : w'.AllFormed := by
  obtain ⟨packet, r, hMsg, hCases⟩ := registerRecipe_cases hRegister
  obtain ⟨cpo, cpi, hSame⟩ := RtdeRecipe.getMsg_eq_some hMsg
  have hFormed : r.Formed := by
    rw [hSame]
    exact (h i).congr rfl rfl
  rcases hCases with ⟨-, buffer, rfl⟩ | ⟨resp, -, -, ⟨-, -, rfl⟩ | ⟨-, hSend⟩⟩
  · exact h.setRecipe i hFormed
  · exact h.setRecipe i (r := r.accepted resp) (hFormed.congr rfl rfl)
  · have hAsked : (w.asked i (r.accepted resp) packet resp).AllFormed :=
      h.setRecipe i (r := r.accepted resp) (hFormed.congr rfl rfl)
    have hFiled : ((w.asked i (r.accepted resp) packet resp).insertRecipe g.order
        (hdrRecipeId resp).toNat i).AllFormed := by
      intro j
      rw [insertRecipe_recipes]
      exact hAsked j
    rw [(Prod.mk.inj hSend).2]
    exact hFiled.send _ _

theorem AllFormed.step {w w' : World} (h : w.AllFormed) {c : HandlerCall} (hStep : HandlerStep w c w') :
    w'.AllFormed := by
  cases hStep with
  | register hRegister => exact h.registerRecipe hRegister
  | send => exact h.send _ _
  | recv hRecv =>
    obtain ⟨buffer, mem, rfl⟩ := recv_eq_some hRecv
    exact h
  | setVersion x =>
    rw [setVersion_world]
    exact h
  | getUrVersion urver x =>
    rw [getUrVersion_world]
    exact h
  | start x =>
    rw [start_world]
    exact h
  | stop x =>
    rw [stop_world]
    exact h
  | recipe i _ => exact h.setRecipe i ((RtdeRecipe.called_call _ _).formed (h i))
  | assign => exact h

theorem formed_of_reachable {w : World} (h : Reachable w) : w.AllFormed := by
  obtain ⟨w₀, calls, hFresh, hRun⟩ := h
  refine hRun.invariant (p := AllFormed) (fun _ _ _ hFormed hStep => hFormed.step hStep) fun i => ?_
  rw [hFresh i]
  exact RtdeRecipe.formed_of_nil rfl

end World

end LibUrx.Rtde
