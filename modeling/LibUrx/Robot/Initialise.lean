import LibUrx.Robot.Robot
import LibUrx.Rtde.Frames
import LibUrx.Rtde.HandlerRun
import LibUrx.Rtde.Requests
import LibUrx.Rtde.TypeAnswer

/-! # What setting a robot up can do

The input recipe is the only recipe that a robot files with its handler, so an accepted answer to an
input registration is always followed by a package of that recipe.
-/
namespace LibUrx
open Bytes Text Rtde
set_option autoImplicit false

namespace Rtde

structure RtdeRecipe.Alike (r r' : RtdeRecipe) : Prop where
  fields : r'.fields = r.fields
  bytes : r'.bytes = r.bytes
  dirOut : r'.dirOut = r.dirOut
  tsNs : r'.tsNs = r.tsNs

theorem RtdeRecipe.Alike.refl (r : RtdeRecipe) : r.Alike r := ⟨rfl, rfl, rfl, rfl⟩

theorem RtdeRecipe.Alike.trans {r r' r'' : RtdeRecipe} (h : r.Alike r') (h' : r'.Alike r'') : r.Alike r'' :=
  ⟨h'.fields.trans h.fields, h'.bytes.trans h.bytes, h'.dirOut.trans h.dirOut, h'.tsNs.trans h.tsNs⟩

theorem RtdeRecipe.Alike.extended {r r' : RtdeRecipe} (h : r.Alike r') (fields : List FieldOf) :
    (r.extended fields).Alike (r'.extended fields) := by
  constructor
  · rw [RtdeRecipe.extended, RtdeRecipe.extended, h.fields, h.bytes, h.dirOut]
  · rw [RtdeRecipe.extended, RtdeRecipe.extended, h.bytes, h.dirOut]
  · exact h.dirOut
  · exact h.tsNs

theorem RtdeRecipe.alike_getMsg {r r' : RtdeRecipe} {packet : Buf} (h : r.getMsg = some (packet, r')) :
    r.Alike r' := by
  obtain ⟨cpo, cpi, rfl⟩ := getMsg_eq_some h
  exact ⟨rfl, rfl, rfl, rfl⟩

theorem RtdeRecipe.Alike.formed {r r' : RtdeRecipe} (h : r.Alike r') (hFormed : r.Formed) : r'.Formed :=
  hFormed.congr h.fields h.dirOut

theorem RtdeRecipe.Formed.extended {r : RtdeRecipe} (h : r.Formed) {fields : List FieldOf}
    (hKnown : Known r.dirOut fields) : (r.extended fields).Formed := by
  induction fields generalizing r with
  | nil => exact h.congr (List.append_nil _) rfl
  | cons field rest ih =>
    obtain ⟨hAdd, hRest⟩ := addField_eq hKnown
    rw [← extended_cons]
    exact ih (formed_addField hAdd h) hRest

theorem RtdeRecipe.Asks.extended {r : RtdeRecipe} (h : r.Asks) {fields : List FieldOf} : (r.extended fields).Asks :=
  ⟨h.cpo, h.cpi⟩

theorem RtdeRecipe.Layout.extended {r : RtdeRecipe} (h : r.Layout) {fields : List FieldOf}
    (hKnown : Known r.dirOut fields) : (r.extended fields).Layout := by
  induction fields generalizing r with
  | nil => exact RtdeRecipe.layout_congr (r := r) rfl (List.append_nil _) h
  | cons field rest ih =>
    obtain ⟨hAdd, hRest⟩ := addField_eq hKnown
    rw [← extended_cons]
    exact ih (RtdeRecipe.layout_addField hAdd h) hRest

theorem RtdeRecipe.Bounded.extended {r : RtdeRecipe} (h : r.Bounded) {fields : List FieldOf}
    (hKnown : Known r.dirOut fields) : (r.extended fields).Bounded := by
  induction fields generalizing r with
  | nil => exact fun tok hMem => h tok (by rwa [RtdeRecipe.extended, placed, List.append_nil] at hMem)
  | cons field rest ih =>
    obtain ⟨hAdd, hRest⟩ := addField_eq hKnown
    rw [← extended_cons]
    exact ih ((RtdeRecipe.Called.added hAdd).bounded h) hRest

namespace World

theorem asks_setRecipe {w : World} (h : ∀ i, (w.recipes i).Asks) (i : Nat) {r : RtdeRecipe} (hAsks : r.Asks) :
    ∀ j, ((w.setRecipe i r).recipes j).Asks := by
  intro j
  rcases eq_or_ne j i with rfl | hNe
  · rw [setRecipe_self]
    exact hAsks
  · rw [setRecipe_of_ne hNe]
    exact h j

/-- Every entry of the map stands for recipe number 1. -/
def OnlyInput (w : World) : Prop := ∀ e ∈ w.recipesIn, e.2 = 1

theorem insertRecipe_eq (w : World) (order : MapOrder) (id : Int) (i : Nat) :
    w.insertRecipe order id i = { w with recipesIn := (w.insertRecipe order id i).recipesIn } := by
  unfold World.insertRecipe
  split <;> rfl

theorem OnlyInput.insertRecipe {w : World} (h : w.OnlyInput) (order : MapOrder) (id : Int) :
    (w.insertRecipe order id 1).OnlyInput ∧ (w.insertRecipe order id 1).recipesIn ≠ [] := by
  unfold World.insertRecipe
  split
  · rename_i hKey
    refine ⟨h, fun hNil => ?_⟩
    rw [hNil] at hKey
    cases hKey
  · refine ⟨fun e hMem => ?_, fun hNil => ?_⟩
    · rcases List.mem_cons.mp ((order.perm _).mem_iff.mp hMem) with rfl | hOld
      · rfl
      · exact h e hOld
    · have hLength := (order.perm ((id, 1) :: w.recipesIn)).length_eq
      dsimp only at hNil
      rw [hNil] at hLength
      cases hLength

theorem OnlyInput.send {w : World} (h : w.OnlyInput) (hFiled : w.recipesIn ≠ []) (sendCode : Int) :
    w.send (w.recipes 1).recipeId sendCode = (decide (0 < sendCode), w.sentBy 1) := by
  rcases send_cases w (w.recipes 1).recipeId sendCode with ⟨-, hNone⟩ | ⟨e, -, hMem, -, hSend⟩
  · obtain ⟨e, hMem⟩ := List.exists_mem_of_ne_nil _ hFiled
    exact absurd (by rw [h e hMem]) (hNone e hMem)
  · rw [hSend, h e hMem]

theorem send_of_empty {w : World} (h : w.recipesIn = []) (id sendCode : Int) : w.send id sendCode = (false, w) := by
  rcases send_cases w id sendCode with ⟨hSend, -⟩ | ⟨e, -, hMem, -, -⟩
  · exact hSend
  · rw [h] at hMem
    cases hMem

theorem OnlyInput.insert_send {w : World} (h : w.OnlyInput) (order : MapOrder) {id : Int}
    (hId : (w.recipes 1).recipeId = id) (sendCode : Int) : ∃ filed, filed ≠ [] ∧ (∀ e ∈ filed, e.2 = 1) ∧
      (w.insertRecipe order id 1).send id sendCode =
        (decide (0 < sendCode), { w with recipesIn := filed }.sentBy 1) := by
  obtain ⟨hOnly, hFiled⟩ := h.insertRecipe order id
  have hSent := hOnly.send hFiled sendCode
  rw [insertRecipe_recipes, hId] at hSent
  refine ⟨_, hFiled, hOnly, hSent.trans ?_⟩
  rw [← insertRecipe_eq]

theorem registerInput_cases {w w' : World} {g : Registration} {ok : Bool} (hMap : w.OnlyInput)
    (hDir : (w.recipes 1).dirOut = false) (h : w.registerRecipe 1 g = some (ok, w')) :
    ∃ packet r, (w.recipes 1).getMsg = some (packet, r) ∧
      ((ok = false ∧ ∃ buffer, w' = w.asked 1 r packet buffer) ∨
        ∃ resp filed, w.answer g.exchange = some resp ∧ (r.registerResponse resp).1 = true ∧
          ok = decide (0 < g.initialSend) ∧ filed ≠ [] ∧ (∀ e ∈ filed, e.2 = 1) ∧
          w' = { w.asked 1 (r.accepted resp) packet resp with recipesIn := filed }.sentBy 1) := by
  obtain ⟨packet, r, hMsg, hCases⟩ := registerRecipe_cases h
  refine ⟨packet, r, hMsg, hCases.imp_right fun ⟨resp, hAnswer, hTaken, hDirection⟩ => ?_⟩
  have hIn : r.dirOut = false := by rw [(RtdeRecipe.alike_getMsg hMsg).dirOut, hDir]
  rcases hDirection with ⟨hOut, -⟩ | ⟨-, hSend⟩
  · rw [hIn] at hOut
    cases hOut
  · have hAsked : (w.asked 1 (r.accepted resp) packet resp).OnlyInput := hMap
    obtain ⟨filed, hFiled, hOnly, hSent⟩ := hAsked.insert_send g.order
      (congrArg RtdeRecipe.recipeId (setRecipe_self w 1 (r.accepted resp))) g.initialSend
    obtain ⟨hOk, hWorld⟩ := Prod.mk.inj (hSend.trans hSent)
    exact ⟨resp, filed, hAnswer, by rw [hTaken], hOk, hFiled, hOnly, hWorld⟩

theorem setRecipe_asked (w : World) (i : Nat) (r r' : RtdeRecipe) (packet buffer : Buf) :
    (w.setRecipe i r).asked i r' packet buffer = w.asked i r' packet buffer := by
  rw [asked, asked, setRecipe_setRecipe]
  rfl

theorem asked_self (w : World) (i : Nat) (r : RtdeRecipe) (packet buffer : Buf) :
    (w.asked i r packet buffer).recipes i = r := setRecipe_self w i r

end World

end Rtde

/-- The controller answers a registration with these types. -/
def AnswersWith (g : Registration) (type : PackageType) (types : List DataType) : Prop :=
  ∃ (sent : Nat) (id : UInt8), g.exchange = ⟨sent, some (typesAnswer type id types)⟩

def answeredWith (type : PackageType) (types : List DataType) : Registration where
  exchange := ⟨1, some (typesAnswer type 1 types)⟩
  order := .asInserted
  initialSend := 1

theorem answersWith_answeredWith (type : PackageType) (types : List DataType) :
    AnswersWith (answeredWith type types) type types := ⟨1, 1, rfl⟩

namespace Robot

/-- Setting up the output gets as far as asking the controller. -/
def asks (b : Robot) (connected : Bool) : Bool := !b.outInitialized && connected && b.outRecipe.fields.isEmpty

theorem initOutputWith_idle {b : Robot} {connected : Bool} (h : b.asks connected = false) (fields : List FieldOf)
    (g : Registration) : initOutputWith fields b connected g = some (b.outInitialized, b) := by
  unfold asks at h
  rw [initOutputWith]
  cases hReady : b.outInitialized with
  | true => rfl
  | false =>
    cases connected with
    | false => rfl
    | true =>
      rw [hReady] at h
      have hFields : b.outRecipe.fields.length ≠ 0 := by
        intro hEmpty
        rw [List.isEmpty_iff_length_eq_zero.mpr hEmpty] at h
        cases h
      simp [hFields]

theorem initOutputWith_asking {b : Robot} {fields : List FieldOf} (hKnown : Known b.outRecipe.dirOut fields)
    {connected : Bool} (h : b.asks connected = true) (g : Registration) : initOutputWith fields b connected g =
      ((b.handler.setRecipe 0 (b.outRecipe.extended fields)).registerRecipe 0 g).map fun p => (p.1,
        if p.1 then { b with handler := p.2, outInitialized := true }
        else { b with handler := p.2.setRecipe 0 (p.2.recipes 0).clearFields }) := by
  simp only [asks, Bool.and_eq_true, Bool.not_eq_true', List.isEmpty_iff] at h
  obtain ⟨⟨hNew, hConnected⟩, hFields⟩ := h
  simp only [initOutputWith, hNew, hConnected, hFields, addFields_eq hKnown]
  cases (b.handler.setRecipe 0 (b.outRecipe.extended fields)).registerRecipe 0 g with
  | none => rfl
  | some p =>
    obtain ⟨ok, w⟩ := p
    cases ok <;> rfl

theorem initInputWith_eq {fields : List FieldOf} (b : Robot) (g : Registration) : initInputWith fields b g =
    ((b.handler.setRecipe 1 (addFieldsAnyway b.inRecipe fields)).registerRecipe 1 g).map fun p =>
      (p.1, { b with handler := p.2, inInitialized := b.inInitialized || p.1 }) := by
  rw [initInputWith]
  cases (b.handler.setRecipe 1 (addFieldsAnyway b.inRecipe fields)).registerRecipe 1 g with
  | none => rfl
  | some p =>
    obtain ⟨ok, w⟩ := p
    cases ok with
    | false => rw [Option.map_some, Bool.or_false]
    | true => rw [Option.map_some, Bool.or_true]

/-- Setting up the output: nothing is asked, the recipe is asked for in vain and loses its fields again, or
it is accepted. -/
theorem initOutputWith_cases {fields : List FieldOf} {b b' : Robot} {connected ok : Bool} {g : Registration}
    (hKnown : Known true fields) (hDir : b.outRecipe.dirOut = true)
    (h : initOutputWith fields b connected g = some (ok, b')) :
    (b' = b ∧ (b.outInitialized = true ∧ ok = true ∨
        b.outInitialized = false ∧ ok = false ∧ (connected = false ∨ b.outRecipe.fields ≠ []))) ∨
      (b.outInitialized = false ∧ connected = true ∧ b.outRecipe.fields = [] ∧
        ∃ packet r, (b.outRecipe.extended fields).getMsg = some (packet, r) ∧
          ((ok = false ∧ ∃ buffer, b' = { b with handler := b.handler.asked 0 r.clearFields packet buffer }) ∨
            (ok = true ∧ ∃ resp, b.handler.answer g.exchange = some resp ∧ (r.registerResponse resp).1 = true ∧
              b' = { b with
                handler := { b.handler.asked 0 (r.accepted resp) packet resp with out := some 0 }
                outInitialized := true }))) := by
  have hOut {packet : Buf} {r : RtdeRecipe} (hMsg : (b.outRecipe.extended fields).getMsg = some (packet, r)) :
      r.dirOut = true := (RtdeRecipe.alike_getMsg hMsg).dirOut.trans hDir
  cases hAsks : b.asks connected with
  | false =>
    rw [initOutputWith_idle hAsks] at h
    obtain ⟨rfl, rfl⟩ := Prod.mk.inj (Option.some.inj h)
    refine Or.inl ⟨rfl, ?_⟩
    cases hReady : b.outInitialized with
    | true => exact Or.inl ⟨rfl, rfl⟩
    | false =>
      refine Or.inr ⟨rfl, rfl, ?_⟩
      simpa [asks, hReady, Decidable.imp_iff_not_or] using hAsks
  | true =>
    rw [initOutputWith_asking (hDir ▸ hKnown) hAsks] at h
    simp only [asks, Bool.and_eq_true, Bool.not_eq_true', List.isEmpty_iff] at hAsks
    obtain ⟨⟨hNew, hConnected⟩, hFields⟩ := hAsks
    refine Or.inr ⟨hNew, hConnected, hFields, ?_⟩
    obtain ⟨⟨ok, w⟩, hRegister, hEnd⟩ := Option.map_eq_some_iff.mp h
    obtain ⟨rfl, rfl⟩ := Prod.mk.inj hEnd
    obtain ⟨packet, r, hMsg, hCases⟩ := World.registerRecipe_cases hRegister
    rw [World.setRecipe_self] at hMsg
    refine ⟨packet, r, hMsg, ?_⟩
    rcases hCases with ⟨rfl, buffer, rfl⟩ | ⟨resp, hAnswer, hTaken, ⟨-, rfl, rfl⟩ | ⟨hIn, -⟩⟩
    · refine Or.inl ⟨rfl, buffer, ?_⟩
      rw [World.setRecipe_asked, World.asked_setRecipe, World.asked_self]
      rfl
    · refine Or.inr ⟨rfl, resp, hAnswer, by rw [hTaken], ?_⟩
      rw [World.setRecipe_asked]
      rfl
    · rw [hOut hMsg] at hIn
      cases hIn

/-- Setting up the input: the recipe is refused, or accepted and sent at once. -/
theorem initInputWith_cases {fields : List FieldOf} {b b' : Robot} {ok : Bool} {g : Registration}
    (hKnown : Known false fields) (hMap : b.handler.OnlyInput) (hDir : b.inRecipe.dirOut = false)
    (h : initInputWith fields b g = some (ok, b')) :
    ∃ packet r, (b.inRecipe.extended fields).getMsg = some (packet, r) ∧
      ((ok = false ∧ ∃ buffer, b' = { b with handler := b.handler.asked 1 r packet buffer }) ∨
        ∃ resp filed, b.handler.answer g.exchange = some resp ∧ (r.registerResponse resp).1 = true ∧
          ok = decide (0 < g.initialSend) ∧ filed ≠ [] ∧ (∀ e ∈ filed, e.2 = 1) ∧
          b' = { b with
            handler := { b.handler.asked 1 (r.accepted resp) packet resp with recipesIn := filed }.sentBy 1
            inInitialized := b.inInitialized || ok }) := by
  have hIn : ((b.handler.setRecipe 1 (b.inRecipe.extended fields)).recipes 1).dirOut = false := by
    rw [World.setRecipe_self]
    exact hDir
  have hMap' : (b.handler.setRecipe 1 (b.inRecipe.extended fields)).OnlyInput := hMap
  rw [initInputWith_eq, addFieldsAnyway_eq (hDir ▸ hKnown)] at h
  obtain ⟨⟨ok, w⟩, hRegister, hEnd⟩ := Option.map_eq_some_iff.mp h
  obtain ⟨rfl, rfl⟩ := Prod.mk.inj hEnd
  obtain ⟨packet, r, hMsg, hCases⟩ := World.registerInput_cases hMap' hIn hRegister
  rw [World.setRecipe_self] at hMsg
  refine ⟨packet, r, hMsg, hCases.imp ?_ ?_⟩
  · rintro ⟨rfl, buffer, rfl⟩
    exact ⟨rfl, buffer, by rw [World.setRecipe_asked, Bool.or_false]⟩
  · rintro ⟨resp, filed, hAnswer, hTaken, hOk, hFiled, hOnly, rfl⟩
    exact ⟨resp, filed, hAnswer, hTaken, hOk, hFiled, hOnly, by rw [World.setRecipe_asked]⟩

theorem initOutputWith_answered {fields : List FieldOf} {b : Robot} {g : Registration} {packet resp : Buf}
    {r : RtdeRecipe} (hKnown : Known true fields) (hDir : b.outRecipe.dirOut = true)
    (hNew : b.outInitialized = false) (hFields : b.outRecipe.fields = [])
    (hMsg : (b.outRecipe.extended fields).getMsg = some (packet, r))
    (hAnswer : b.handler.answer g.exchange = some resp) (hTaken : (r.registerResponse resp).1 = true) :
    initOutputWith fields b true g = some (true, { b with
      handler := { b.handler.asked 0 (r.accepted resp) packet resp with out := some 0 }
      outInitialized := true }) := by
  have hOut : r.dirOut = true := (RtdeRecipe.alike_getMsg hMsg).dirOut.trans hDir
  have hAsks : ((b.handler.setRecipe 0 (b.outRecipe.extended fields)).recipes 0).getMsg = some (packet, r) := by
    rwa [World.setRecipe_self]
  have hRegister :=
    World.registerRecipe_answered (w := b.handler.setRecipe 0 (b.outRecipe.extended fields)) hAsks hAnswer
  simp only [hTaken, hOut, Bool.true_eq_false, if_true, if_false] at hRegister
  rw [World.setRecipe_asked] at hRegister
  have hAsking : b.asks true = true := by
    rw [asks, hNew, hFields]
    rfl
  rw [initOutputWith_asking (hDir ▸ hKnown) hAsking, hRegister]
  rfl

theorem initInputWith_accepted {fields : List FieldOf} {b : Robot} {g : Registration} {packet resp : Buf}
    {r : RtdeRecipe} (hKnown : Known false fields) (hMap : b.handler.OnlyInput) (hDir : b.inRecipe.dirOut = false)
    (hMsg : (b.inRecipe.extended fields).getMsg = some (packet, r))
    (hAnswer : b.handler.answer g.exchange = some resp) (hTaken : (r.registerResponse resp).1 = true) :
    ∃ filed, filed ≠ [] ∧ (∀ e ∈ filed, e.2 = 1) ∧
      initInputWith fields b g = some (decide (0 < g.initialSend), { b with
        handler := { b.handler.asked 1 (r.accepted resp) packet resp with recipesIn := filed }.sentBy 1
        inInitialized := b.inInitialized || decide (0 < g.initialSend) }) := by
  have hIn : r.dirOut = false := (RtdeRecipe.alike_getMsg hMsg).dirOut.trans hDir
  have hAsks : ((b.handler.setRecipe 1 (b.inRecipe.extended fields)).recipes 1).getMsg = some (packet, r) := by
    rwa [World.setRecipe_self]
  have hRegister :=
    World.registerRecipe_answered (w := b.handler.setRecipe 1 (b.inRecipe.extended fields)) hAsks hAnswer
  have hAsked : (b.handler.asked 1 (r.accepted resp) packet resp).OnlyInput := hMap
  obtain ⟨filed, hFiled, hOnly, hSent⟩ := hAsked.insert_send g.order
    (congrArg RtdeRecipe.recipeId (World.setRecipe_self b.handler 1 (r.accepted resp))) g.initialSend
  simp only [hTaken, hIn, Bool.true_eq_false, Bool.false_eq_true, if_false] at hRegister
  have hId : (r.accepted resp).recipeId = (hdrRecipeId resp).toNat := rfl
  rw [World.setRecipe_asked, ← hId, hSent] at hRegister
  refine ⟨filed, hFiled, hOnly, ?_⟩
  rw [initInputWith_eq, addFieldsAnyway_eq (hDir ▸ hKnown), hRegister]
  rfl

theorem handler_init (storage buffer : Buf) (x : Exchange) : (init storage buffer x).handler =
    (World.exchange ((World.fresh (setWord (setWord ⟨storage, []⟩ Member.inSeqnr 1) Member.cmd
      Command.noCommand.code) buffer).setRecipe 1 RtdeRecipe.init.dirInput.2) (rtdeMkreqProtVersion fun _ => 0) 1024 x).2 :=
  World.setVersion_world _ _

theorem inRecipe_init (storage buffer : Buf) (x : Exchange) :
    (init storage buffer x).inRecipe = RtdeRecipe.init.dirInput.2 := by
  rw [inRecipe, handler_init]
  rfl

theorem outRecipe_init (storage buffer : Buf) (x : Exchange) : (init storage buffer x).outRecipe = RtdeRecipe.init := by
  rw [outRecipe, handler_init]
  rfl

theorem mem_init (storage buffer : Buf) (x : Exchange) : (init storage buffer x).mem =
    setWord (setWord ⟨storage, []⟩ Member.inSeqnr 1) Member.cmd Command.noCommand.code := by
  rw [mem, handler_init]
  rfl

/-- What holds of a robot from its construction on. -/
structure Sound (b : Robot) : Prop where
  out : b.handler.out = if b.outInitialized then some 0 else none
  outDir : b.outRecipe.dirOut = true
  inDir : b.inRecipe.dirOut = false
  onlyInput : b.handler.OnlyInput
  formed : b.handler.AllFormed
  asks : ∀ i, (b.handler.recipes i).Asks

theorem sound_init (storage buffer : Buf) (x : Exchange) : (init storage buffer x).Sound := by
  constructor <;> simp only [init, outRecipe, inRecipe, World.setVersion_world]
  · rfl
  · rfl
  · rfl
  · intro e hMem
    cases hMem
  · apply World.AllFormed.setRecipe (w := World.fresh _ _) (fun _ => RtdeRecipe.formed_of_nil rfl) 1
    exact RtdeRecipe.formed_of_nil rfl
  · exact World.asks_setRecipe (w := World.fresh _ _) (fun _ => RtdeRecipe.asks_init) 1 ⟨rfl, rfl⟩

theorem Sound.asked {b : Robot} (h : b.Sound) {i : Nat} {r : RtdeRecipe} (hFormed : r.Formed) (hAsks : r.Asks)
    (hDir : r.dirOut = (b.handler.recipes i).dirOut) (packet buffer : Buf) :
    Sound { b with handler := b.handler.asked i r packet buffer } where
  out := h.out
  outDir := by
    refine Eq.trans ?_ h.outDir
    rcases eq_or_ne 0 i with rfl | hNe
    · exact (congrArg RtdeRecipe.dirOut (World.setRecipe_self b.handler 0 r)).trans hDir
    · exact congrArg RtdeRecipe.dirOut (World.setRecipe_of_ne hNe b.handler r)
  inDir := by
    refine Eq.trans ?_ h.inDir
    rcases eq_or_ne 1 i with rfl | hNe
    · exact (congrArg RtdeRecipe.dirOut (World.setRecipe_self b.handler 1 r)).trans hDir
    · exact congrArg RtdeRecipe.dirOut (World.setRecipe_of_ne hNe b.handler r)
  onlyInput := h.onlyInput
  formed := h.formed.setRecipe i hFormed
  asks := World.asks_setRecipe h.asks i hAsks

theorem Sound.initOutputWith {fields : List FieldOf} {b b' : Robot} {connected ok : Bool} {g : Registration}
    (h : b.Sound) (hKnown : Known true fields) (hInit : initOutputWith fields b connected g = some (ok, b')) :
    b'.Sound := by
  rcases initOutputWith_cases hKnown h.outDir hInit with ⟨rfl, -⟩ | ⟨-, -, -, packet, r, hMsg, hCases⟩
  · exact h
  · have hAlike := RtdeRecipe.alike_getMsg hMsg
    have hFormed : r.Formed := hAlike.formed ((h.formed 0).extended (h.outDir ▸ hKnown))
    have hAsks : r.Asks := ((h.asks 0).extended.getMsg hMsg).2
    rcases hCases with ⟨-, buffer, rfl⟩ | ⟨-, resp, -, -, rfl⟩
    · exact h.asked (r := r.clearFields) (RtdeRecipe.formed_of_nil rfl) ⟨hAsks.cpo, hAsks.cpi⟩ hAlike.dirOut packet buffer
    · have hAsked := h.asked (i := 0) (r := r.accepted resp) (hFormed.congr rfl rfl) ⟨hAsks.cpo, hAsks.cpi⟩
        hAlike.dirOut packet resp
      exact ⟨rfl, hAsked.outDir, hAsked.inDir, hAsked.onlyInput, hAsked.formed, hAsked.asks⟩

theorem Sound.sentBy {b : Robot} (h : b.Sound) {filed : List (Int × Nat)} (hFiled : ∀ e ∈ filed, e.2 = 1) :
    Sound { b with handler := { b.handler with recipesIn := filed }.sentBy 1 } where
  out := h.out
  outDir := h.outDir
  inDir := h.inDir
  onlyInput := hFiled
  formed := World.AllFormed.setRecipe (w := { b.handler with recipesIn := filed }) h.formed 1
    ((h.formed 1).congr rfl rfl)
  asks := World.asks_setRecipe (w := { b.handler with recipesIn := filed }) h.asks 1 ⟨(h.asks 1).cpo, (h.asks 1).cpi⟩

theorem Sound.initInputWith {fields : List FieldOf} {b b' : Robot} {ok : Bool} {g : Registration}
    (h : b.Sound) (hKnown : Known false fields) (hInit : initInputWith fields b g = some (ok, b')) : b'.Sound := by
  obtain ⟨packet, r, hMsg, hCases⟩ := initInputWith_cases hKnown h.onlyInput h.inDir hInit
  have hAlike := RtdeRecipe.alike_getMsg hMsg
  have hFormed : r.Formed := hAlike.formed ((h.formed 1).extended (h.inDir ▸ hKnown))
  have hAsks : r.Asks := ((h.asks 1).extended.getMsg hMsg).2
  rcases hCases with ⟨-, buffer, rfl⟩ | ⟨resp, filed, -, -, -, -, hFiled, rfl⟩
  · exact h.asked hFormed hAsks hAlike.dirOut packet buffer
  · have hAsked := h.asked (i := 1) (r := r.accepted resp) (hFormed.congr rfl rfl) ⟨hAsks.cpo, hAsks.cpi⟩
      hAlike.dirOut packet resp
    have hSent := hAsked.sentBy hFiled
    exact ⟨hSent.out, hSent.outDir, hSent.inDir, hSent.onlyInput, hSent.formed, hSent.asks⟩

/-- A recipe that asks for its first fields accepts an answer that spells their types. -/
theorem Sound.accepts_types {b : Robot} (h : b.Sound) {i : Nat} {fields : List FieldOf} {types : List DataType}
    (hKnown : Known (b.handler.recipes i).dirOut fields) (hFresh : (b.handler.recipes i).fields = [])
    (hTypes : typesOf (b.handler.recipes i).dirOut fields = types) (hSome : types ≠ [])
    (hFits : 4 + (typeNames types).length ≤ 2000) {g : Registration} {type : PackageType} {sent : Nat} {id : UInt8}
    (hType : type = .setupOutputs ∨ type = .setupInputs)
    (hAnswer : g.exchange = ⟨sent, some (typesAnswer type id types)⟩) :
    ∃ packet r resp, ((b.handler.recipes i).extended fields).getMsg = some (packet, r) ∧
      b.handler.answer g.exchange = some resp ∧ (r.registerResponse resp).1 = true ∧ hdrRecipeId resp = id := by
  have hExtended : ((b.handler.recipes i).extended fields).types = types := by
    rw [RtdeRecipe.types, RtdeRecipe.extended, hFresh, List.nil_append, types_placed]
    exact hTypes
  have hFields : ((b.handler.recipes i).extended fields).fields ≠ [] := by
    intro hNil
    rw [RtdeRecipe.types, hNil] at hExtended
    exact hSome hExtended.symm
  obtain ⟨r, hMsg⟩ := RtdeRecipe.getMsg_eq hFields
  have hAlike := RtdeRecipe.alike_getMsg hMsg
  have hFormed : r.Formed := hAlike.formed ((h.formed i).extended hKnown)
  have hSame : r.types = types := (congrArg (List.map Token.type) hAlike.fields).trans hExtended
  have hTaken := hFormed.accepts_typesAnswer type id (by rwa [hAlike.fields]) hType (by rwa [hSame]) b.handler.buffer
  rw [hSame] at hTaken
  exact ⟨_, r, _, hMsg, by rw [hAnswer, World.answer_delivered], hTaken⟩

theorem Sound.initInput_types {b : Robot} (h : b.Sound) {fields : List FieldOf} {types : List DataType}
    (hKnown : Known false fields) (hFresh : b.inRecipe.fields = []) (hTypes : typesOf false fields = types)
    (hSome : types ≠ []) (hFits : 4 + (typeNames types).length ≤ 2000) {g : Registration}
    (hAnswer : AnswersWith g .setupInputs types) (hSend : 0 < g.initialSend) :
    ∃ b₁ : Robot, Robot.initInputWith fields b g = some (true, b₁) ∧ b₁.Sound ∧ b₁.inInitialized = true ∧
      b₁.outInitialized = b.outInitialized ∧ b₁.outRecipe = b.outRecipe := by
  obtain ⟨sent, id, hExchange⟩ := hAnswer
  obtain ⟨packet, r, resp, hMsg, hResp, hTaken, -⟩ :=
    h.accepts_types (i := 1) (h.inDir ▸ hKnown) hFresh (h.inDir ▸ hTypes) hSome hFits (Or.inr rfl) hExchange
  obtain ⟨filed, -, -, hInit⟩ := initInputWith_accepted hKnown h.onlyInput h.inDir hMsg hResp hTaken
  rw [decide_eq_true hSend, Bool.or_true] at hInit
  exact ⟨_, hInit, h.initInputWith hKnown hInit, rfl, rfl, rfl⟩

end Robot

end LibUrx
