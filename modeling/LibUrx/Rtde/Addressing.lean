import LibUrx.Rtde.HandlerRun

/-! # Which recipe a package is built from

The handler files an input recipe under the id it has at registration and later looks for the id it
has now. As long as ids are not handed out twice the two agree over any history.
-/
namespace LibUrx.Rtde
open Bytes Text Runs
set_option autoImplicit false

/-- The id that an accepted registration brings into the map is not in use there. -/
def FreshId (w : World) : HandlerCall → Prop
  | .register i g => ∀ resp, w.answer g.exchange = some resp →
      ((w.recipes i).registerResponse resp).1 = true →
      ((w.recipes i).dirOut = false ∨ i ∈ w.recipesIn.map Prod.snd) →
      ∀ e ∈ w.recipesIn, (w.recipes e.2).recipeId = (hdrRecipeId resp).toNat → e.2 = i
  | _ => True

namespace World

/-- No id stands for two recipes of the map. -/
def DistinctIds (w : World) : Prop :=
  ∀ e ∈ w.recipesIn, ∀ e' ∈ w.recipesIn, (w.recipes e.2).recipeId = (w.recipes e'.2).recipeId → e.2 = e'.2

structure SameIds (w w' : World) : Prop where
  recipesIn : w'.recipesIn = w.recipesIn
  recipeId : ∀ i, (w'.recipes i).recipeId = (w.recipes i).recipeId

theorem SameIds.distinctIds {w w' : World} (h : SameIds w w') (hDistinct : w.DistinctIds) : w'.DistinctIds := by
  intro e hMem e' hMem' hId
  rw [h.recipesIn] at hMem hMem'
  rw [h.recipeId, h.recipeId] at hId
  exact hDistinct e hMem e' hMem' hId

theorem sameIds_setRecipe (w : World) (i : Nat) {r : RtdeRecipe} (h : r.recipeId = (w.recipes i).recipeId) :
    SameIds w (w.setRecipe i r) where
  recipesIn := rfl
  recipeId j := by
    rcases eq_or_ne j i with rfl | hNe
    · rw [setRecipe_self, h]
    · rw [setRecipe_of_ne hNe]

theorem sameIds_sentBy (w : World) (i : Nat) : SameIds w (w.sentBy i) := by
  have h := sameIds_setRecipe w i (r := { w.recipes i with
    dp := ((w.recipes i).store (w.recipes i).dp w.mem).2 }) rfl
  exact ⟨h.recipesIn, h.recipeId⟩

theorem sameIds_send (w : World) (id sendCode : Int) : SameIds w (w.send id sendCode).2 := by
  rcases send_cases w id sendCode with ⟨hSend, -⟩ | ⟨e, -, -, -, hSend⟩
  · rw [hSend]
    exact ⟨rfl, fun _ => rfl⟩
  · rw [hSend]
    exact sameIds_sentBy w e.2

theorem sameIds_exchange (w : World) (packet : Buf) (rsz : Nat) (x : Exchange) :
    SameIds w (w.exchange packet rsz x).2 := ⟨rfl, fun _ => rfl⟩

theorem sameIds_asked (w : World) (i : Nat) {r : RtdeRecipe} (h : r.recipeId = (w.recipes i).recipeId)
    (packet buffer : Buf) : SameIds w (w.asked i r packet buffer) := by
  have hSet := sameIds_setRecipe w i h
  exact ⟨hSet.recipesIn, hSet.recipeId⟩

end World

theorem RtdeRecipe.Called.recipeId_eq {r r' : RtdeRecipe} {c : RecipeCall} (hCalled : r.Called c r')
    (hNot : ∀ resp, c ≠ .registerResponse resp) : r'.recipeId = r.recipeId := by
  cases hCalled with
  | same | turned | cleared | tracked => rfl
  | added hAdd =>
    obtain ⟨tok, -, -, -, -, -, rfl⟩ := addField_eq_true hAdd
    rfl
  | answered => exact absurd rfl (hNot _)

namespace World

theorem sameIds_step {w w' : World} {c : HandlerCall} (h : HandlerStep w c w')
    (hNot : ∀ i g, c ≠ .register i g) : SameIds w w' := by
  cases h with
  | register => exact absurd rfl (hNot _ _)
  | send => exact sameIds_send _ _ _
  | recv hRecv =>
    obtain ⟨buffer, mem, rfl⟩ := recv_eq_some hRecv
    exact ⟨rfl, fun _ => rfl⟩
  | setVersion x =>
    rw [setVersion_world]
    exact sameIds_exchange _ _ _ _
  | getUrVersion urver x =>
    rw [getUrVersion_world]
    exact sameIds_exchange _ _ _ _
  | start x =>
    rw [start_world]
    exact sameIds_exchange _ _ _ _
  | stop x =>
    rw [stop_world]
    exact sameIds_exchange _ _ _ _
  | recipe i hLocal =>
    have hSet := sameIds_setRecipe w i ((RtdeRecipe.called_call (w.recipes i, w.mem) _).recipeId_eq hLocal)
    exact ⟨hSet.recipesIn, hSet.recipeId⟩
  | assign => exact ⟨rfl, fun _ => rfl⟩

theorem mem_insertRecipe {w : World} {order : MapOrder} {id : Int} {i : Nat} {e : Int × Nat}
    (h : e ∈ (w.insertRecipe order id i).recipesIn) : e.2 = i ∨ e ∈ w.recipesIn := by
  cases mem_insertRecipe_iff.mp h with
  | inl hOld => exact Or.inr hOld
  | inr hNew => exact Or.inl (congrArg Prod.snd hNew.2)

theorem mem_insertRecipe_of_mem {w : World} {order : MapOrder} {id : Int} {i : Nat} {e : Int × Nat}
    (h : e ∈ w.recipesIn) : e ∈ (w.insertRecipe order id i).recipesIn := mem_insertRecipe_iff.mpr (Or.inl h)

/-- `w'` is `w` with recipe `i` under a new id, and possibly in the map. -/
structure Renamed (w w' : World) (i : Nat) (id : Int) : Prop where
  fresh : ∀ e ∈ w.recipesIn, (w.recipes e.2).recipeId = id → e.2 = i
  map : ∀ e ∈ w'.recipesIn, e.2 = i ∨ e ∈ w.recipesIn
  renamed : (w'.recipes i).recipeId = id
  other : ∀ j, j ≠ i → (w'.recipes j).recipeId = (w.recipes j).recipeId

theorem Renamed.only {w w' : World} {i : Nat} {id : Int} (h : Renamed w w' i id) :
    ∀ e ∈ w'.recipesIn, (w'.recipes e.2).recipeId = id → e.2 = i := by
  intro e hMem hEq
  cases h.map e hMem with
  | inl hSame => exact hSame
  | inr hOld =>
    cases eq_or_ne e.2 i with
    | inl hSame => exact hSame
    | inr hNe => exact h.fresh e hOld ((h.other e.2 hNe).symm.trans hEq)

theorem Renamed.distinctIds {w w' : World} {i : Nat} {id : Int} (h : Renamed w w' i id)
    (hDistinct : w.DistinctIds) : w'.DistinctIds := by
  intro e hMem e' hMem' hEq
  cases eq_or_ne e.2 i with
  | inl hSame =>
    rw [hSame, h.renamed] at hEq
    rw [hSame, h.only e' hMem' hEq.symm]
  | inr hNe =>
    rcases eq_or_ne e'.2 i with hSame' | hNe'
    · rw [hSame', h.renamed] at hEq
      exact absurd (h.only e hMem hEq) hNe
    · have hOld := (h.map e hMem).resolve_left hNe
      have hOld' := (h.map e' hMem').resolve_left hNe'
      rw [h.other e.2 hNe, h.other e'.2 hNe'] at hEq
      exact hDistinct e hOld e' hOld' hEq

theorem send_of_mem {w : World} (hDistinct : w.DistinctIds) {e : Int × Nat} (hMem : e ∈ w.recipesIn)
    (sendCode : Int) :
    w.send (w.recipes e.2).recipeId sendCode = (decide (0 < sendCode), w.sentBy e.2) := by
  rcases send_cases w (w.recipes e.2).recipeId sendCode with ⟨-, hNone⟩ | ⟨e', -, hMem', hId, hSend⟩
  · exact absurd rfl (hNone e hMem)
  · rw [hSend, hDistinct e' hMem' e hMem hId]

end World

namespace World

theorem asked_recipeId_of_ne {w : World} {i j : Nat} (h : j ≠ i) (r : RtdeRecipe) (packet buffer : Buf) :
    ((w.asked i r packet buffer).recipes j).recipeId = (w.recipes j).recipeId :=
  congrArg RtdeRecipe.recipeId (setRecipe_of_ne h w r)

theorem register_spec {w w' : World} {i : Nat} {g : Registration} {ok : Bool} (hDistinct : w.DistinctIds)
    (hFresh : FreshId w (.register i g)) (h : w.registerRecipe i g = some (ok, w')) :
    (SameIds w w' ∧ ok = false) ∨
      (w'.DistinctIds ∧ w'.recipesIn = w.recipesIn ∧ (w.recipes i).dirOut = true) ∨
      ∃ (filed : World) (id : Int), filed.DistinctIds ∧ (∀ e ∈ w.recipesIn, e ∈ filed.recipesIn) ∧
        (∀ e ∈ filed.recipesIn, (filed.recipes e.2).recipeId = id → e.2 = i) ∧
        (filed.recipes i).dirOut = false ∧ (∃ request, filed.wire = w.wire ++ [request]) ∧
        (ok, w') = filed.send id g.initialSend := by
  obtain ⟨packet, r, hMsg, hCases⟩ := registerRecipe_cases h
  obtain ⟨cpo, cpi, hSame⟩ := RtdeRecipe.getMsg_eq_some hMsg
  rcases hCases with ⟨hRefused, buffer, rfl⟩ | ⟨resp, hAnswer, hAccepted, hDirection⟩
  · exact Or.inl ⟨sameIds_asked w i (by rw [hSame]) packet buffer, hRefused⟩
  · have hDir : r.dirOut = (w.recipes i).dirOut := by rw [hSame]
    have hOk : ((w.recipes i).registerResponse resp).1 = true := by
      rw [← RtdeRecipe.registerResponse_congr (w.recipes i) cpo cpi, ← hSame, hAccepted]
    have hUnused := hFresh resp hAnswer hOk
    have hAskedId : ((w.asked i (r.accepted resp) packet resp).recipes i).recipeId = (hdrRecipeId resp).toNat :=
      congrArg RtdeRecipe.recipeId (setRecipe_self w i (r.accepted resp))
    rcases hDirection with ⟨hOut, -, rfl⟩ | ⟨hIn, hSend⟩
    · refine Or.inr (Or.inl ⟨?_, rfl, hDir ▸ hOut⟩)
      cases Classical.em (i ∈ w.recipesIn.map Prod.snd) with
      | inl hMapped =>
        exact Renamed.distinctIds ⟨hUnused (Or.inr hMapped), fun e hMem => Or.inr hMem, hAskedId,
          fun j hNe => asked_recipeId_of_ne hNe (r.accepted resp) packet resp⟩ hDistinct
      | inr hUnmapped =>
        have hOther : ∀ e ∈ w.recipesIn,
            ((w.asked i (r.accepted resp) packet resp).recipes e.2).recipeId = (w.recipes e.2).recipeId := by
          intro e hMem
          refine asked_recipeId_of_ne (fun hSame => hUnmapped ?_) _ _ _
          exact hSame ▸ List.mem_map_of_mem hMem
        intro e hMem e' hMem' hEq
        exact hDistinct e hMem e' hMem' ((hOther e hMem).symm.trans (hEq.trans (hOther e' hMem')))
    · have hFiled : Renamed w ((w.asked i (r.accepted resp) packet resp).insertRecipe g.order
          (hdrRecipeId resp).toNat i) i (hdrRecipeId resp).toNat := by
        refine ⟨hUnused (Or.inl (hDir ▸ hIn)), fun e hMem =>
          mem_insertRecipe (w := w.asked i (r.accepted resp) packet resp) hMem, ?_, fun j hNe => ?_⟩
        · rw [insertRecipe_recipes]
          exact hAskedId
        · rw [insertRecipe_recipes]
          exact asked_recipeId_of_ne hNe (r.accepted resp) packet resp
      refine Or.inr (Or.inr ⟨_, _, hFiled.distinctIds hDistinct, fun e hMem => mem_insertRecipe_of_mem hMem,
        hFiled.only, ?_, ⟨frameOf packet, ?_⟩, hSend⟩)
      · rw [insertRecipe_recipes]
        exact (congrArg RtdeRecipe.dirOut (setRecipe_self w i (r.accepted resp))).trans hIn
      · unfold insertRecipe
        split <;> rfl

/-- Ids stay apart, and what is in the map stays there. -/
theorem distinctIds_step {w w' : World} {c : HandlerCall} (h : HandlerStep w c w') (hFresh : FreshId w c)
    (hDistinct : w.DistinctIds) : w'.DistinctIds ∧ ∀ e ∈ w.recipesIn, e ∈ w'.recipesIn := by
  rcases Classical.em (∃ i g, c = .register i g) with ⟨i, g, rfl⟩ | hNot
  · cases h with
    | register hRegister =>
      rcases register_spec hDistinct hFresh hRegister with ⟨hSame, -⟩ | ⟨hApart, hMap, -⟩ | ⟨filed, id, hApart,
        hKept, -, -, -, hSend⟩
      · exact ⟨hSame.distinctIds hDistinct, hSame.recipesIn ▸ fun _ hMem => hMem⟩
      · exact ⟨hApart, hMap ▸ fun _ hMem => hMem⟩
      · have hSame := sameIds_send filed id g.initialSend
        rw [← hSend] at hSame
        exact ⟨hSame.distinctIds hApart, hSame.recipesIn ▸ hKept⟩
  · have hSame := sameIds_step h fun i g hEq => hNot ⟨i, g, hEq⟩
    exact ⟨hSame.distinctIds hDistinct, hSame.recipesIn ▸ fun _ hMem => hMem⟩

/-- In a run that never hands out an id in use the ids stay apart. -/
theorem distinctIds_run {w w' : World} {calls : List HandlerCall}
    (hRun : Path (Restrict FreshId HandlerStep) w calls w') (hDistinct : w.DistinctIds) : w'.DistinctIds :=
  hRun.invariant (p := DistinctIds) (fun _ _ _ hApart hStep => (distinctIds_step hStep.2 hStep.1 hApart).1) hDistinct

end World

structure BuiltBy (r : RtdeRecipe) (m : Memory) (package : Buf) : Prop where
  stored : ∃ dp, package = (r.store dp m).2
  id : r.dirOut = false → hdrRecipeId package = UInt8.ofNat (r.recipeId % 256).toNat
  size : r.dirOut = false → hdrSize package = (4 + r.expectedBytes) % 65536

theorem builtBy_store (r : RtdeRecipe) (dp : Buf) (m : Memory) : BuiltBy r m (r.store dp m).2 where
  stored := ⟨dp, rfl⟩
  id hDir := (RtdeRecipe.store_header hDir dp m).2.1
  size hDir := (RtdeRecipe.store_header hDir dp m).2.2

/-- Right after a registration the recipe's packages are its own, the first one and all later ones. -/
theorem registered_recipe_is_addressed {w₀ w w' : World} {calls : List HandlerCall} {i : Nat} {g : Registration}
    (hStart : w₀.recipesIn = []) (hRun : Path (Restrict FreshId HandlerStep) w₀ calls w)
    (hFresh : FreshId w (.register i g)) (hRegister : w.registerRecipe i g = some (true, w'))
    (hInput : (w.recipes i).dirOut = false) :
    (∃ request package, w'.wire = w.wire ++ [request, frameOf package] ∧
        (w'.recipes i).dirOut = false ∧ BuiltBy (w'.recipes i) w'.mem package) ∧
      ∀ calls' w'', Path (Restrict FreshId HandlerStep) w' calls' w'' → ∀ sendCode, ∃ package,
        (w''.send (w''.recipes i).recipeId sendCode).1 = decide (0 < sendCode) ∧
        (w''.send (w''.recipes i).recipeId sendCode).2.wire = w''.wire ++ [frameOf package] ∧
        BuiltBy (w''.recipes i) w''.mem package := by
  have hDistinct : w.DistinctIds := World.distinctIds_run hRun (by simp [World.DistinctIds, hStart])
  rcases World.register_spec hDistinct hFresh hRegister with ⟨-, hRefused⟩ | ⟨-, -, hOutput⟩ |
    ⟨filed, id, hApart, -, hOnly, hDir, ⟨request, hWire⟩, hSend⟩
  · cases hRefused
  · cases hInput.symm.trans hOutput
  · obtain ⟨e, hMem, rfl, hSent⟩ : ∃ e ∈ filed.recipesIn, e.2 = i ∧ w' = filed.sentBy i := by
      rcases World.send_cases filed id g.initialSend with ⟨hNone, -⟩ | ⟨e, -, hMem, hId, hFound⟩
      · rw [hNone] at hSend
        cases hSend
      · have hEq := hOnly e hMem hId
        rw [hFound, hEq] at hSend
        exact ⟨e, hMem, hEq, (Prod.mk.inj hSend).2⟩
    have hKeep := World.sameIds_sentBy filed e.2
    have hRecipe : w'.recipes e.2 = { filed.recipes e.2 with
        dp := ((filed.recipes e.2).store (filed.recipes e.2).dp filed.mem).2 } := by
      rw [hSent]
      exact World.setRecipe_self _ _ _
    have hMem₁ : e ∈ w'.recipesIn := by
      rw [hSent, hKeep.recipesIn]
      exact hMem
    have hApart₁ : w'.DistinctIds := hSent ▸ hKeep.distinctIds hApart
    refine ⟨⟨request, _, ?_, ?_, builtBy_store _ (filed.recipes e.2).dp _⟩, fun calls' w'' hRun' sendCode => ?_⟩
    · have hMem₂ : w'.mem = filed.mem := by rw [hSent]; rfl
      rw [hRecipe, hMem₂, hSent, World.sentBy, hWire, List.append_assoc]
      rfl
    · rw [hRecipe]
      exact hDir
    · have hKept : e ∈ w''.recipesIn ∧ w''.DistinctIds := by
        refine hRun'.invariant (p := fun v => e ∈ v.recipesIn ∧ v.DistinctIds) ?_ ⟨hMem₁, hApart₁⟩
        rintro v c v' ⟨hIn, hDist⟩ ⟨hAllowed, hStep⟩
        obtain ⟨hDist', hStays⟩ := World.distinctIds_step hStep hAllowed hDist
        exact ⟨hStays e hIn, hDist'⟩
      have hAddressed := World.send_of_mem hKept.2 hKept.1 sendCode
      rw [hAddressed]
      exact ⟨_, rfl, rfl, builtBy_store _ _ _⟩

theorem length_frameOf (packet : Buf) : (frameOf packet).length = hdrSize packet := length_slice _ _ _

/-- A register at 8 and a double at 16, each in a recipe of its own. -/
def twoRecipes : World where
  out := none
  recipesIn := []
  buffer := fun _ => 0
  recipes i := RtdeRecipe.afterCalls ⟨fun _ => 0, []⟩ (if i = 0 then
      [.dirInput, .addField (text "input_int_register_0") 8]
    else [.dirInput, .addField (text "input_double_register_0") 16])
  mem := ⟨fun _ => 0, []⟩
  wire := []

/-- The controller names the types and hands out the id. -/
def underId (id : UInt8) (types : List UInt8) : Registration where
  exchange := ⟨24, some ([0, UInt8.ofNat (4 + types.length), 73, id] ++ types)⟩
  order := .asInserted
  initialSend := 12

set_option maxRecDepth 100000 in
/-- Under ids 1 and 2 each recipe has its own packages, whichever is sent first. -/
theorem registered_recipe_is_addressed_register :
    ∃ w₁ w₂, twoRecipes.registerRecipe 0 (underId 1 (text "INT32")) = some (true, w₁) ∧
      w₁.registerRecipe 1 (underId 2 (text "DOUBLE")) = some (true, w₂) ∧
      (∃ request package, w₂.wire = w₁.wire ++ [request, frameOf package] ∧ BuiltBy (w₂.recipes 1) w₂.mem package) ∧
      (∃ package, (w₂.send 1 8).2.wire = w₂.wire ++ [frameOf package] ∧ BuiltBy (w₂.recipes 0) w₂.mem package) ∧
      ∃ package, ((w₂.send 1 8).2.send 2 12).2.wire = (w₂.send 1 8).2.wire ++ [frameOf package] ∧
        BuiltBy ((w₂.send 1 8).2.recipes 1) (w₂.send 1 8).2.mem package := by
  have hBoth : ((twoRecipes.registerRecipe 0 (underId 1 (text "INT32"))).bind fun p =>
      (p.2.registerRecipe 1 (underId 2 (text "DOUBLE"))).map fun q =>
        (([p.1, q.1, (p.2.recipes 1).dirOut],
          p.2.recipesIn.map (fun e => (p.2.recipes e.2).recipeId),
          (p.2.answer (underId 2 (text "DOUBLE")).exchange).map hdrRecipeId),
        (q.2.recipes 0).recipeId, ((q.2.send 1 8).2.recipes 1).recipeId)) =
      some (([true, true, false], [1], some 2), 1, 2) := by
    decide +kernel
  obtain ⟨⟨ok₁, w₁⟩, hRegister₁, hRest⟩ := Option.bind_eq_some_iff.mp hBoth
  obtain ⟨⟨ok₂, w₂⟩, hRegister₂, hFacts⟩ := Option.map_eq_some_iff.mp hRest
  simp only [Prod.mk.injEq, List.cons.injEq, and_true] at hFacts
  obtain ⟨⟨⟨rfl, rfl, hDir⟩, hIds, hNew⟩, hFirst, hSecond⟩ := hFacts
  have hFresh₁ : FreshId twoRecipes (.register 0 (underId 1 (text "INT32"))) := fun _ _ _ _ _ hMem => nomatch hMem
  have hFresh₂ : FreshId w₁ (.register 1 (underId 2 (text "DOUBLE"))) := by
    intro resp hResp _ _ e hMem hSame
    have hOne : (w₁.recipes e.2).recipeId ∈ [1] := hIds ▸ List.mem_map_of_mem hMem
    rw [hResp] at hNew
    rw [hSame, Option.some.inj hNew] at hOne
    cases hOne with
    | tail _ h => cases h
  have hRun₂ : Path (Restrict FreshId HandlerStep) w₁ [.register 1 (underId 2 (text "DOUBLE"))] w₂ :=
    .cons ⟨hFresh₂, .register hRegister₂⟩ (.nil w₂)
  have hRun₁ : Path (Restrict FreshId HandlerStep) twoRecipes [.register 0 (underId 1 (text "INT32"))] w₁ :=
    .cons ⟨hFresh₁, .register hRegister₁⟩ (.nil w₁)
  obtain ⟨-, hSends₁⟩ := registered_recipe_is_addressed rfl (.nil twoRecipes) hFresh₁ hRegister₁ (by decide +kernel)
  obtain ⟨⟨request, package, hWire, -, hBuilt⟩, hSends₂⟩ :=
    registered_recipe_is_addressed rfl hRun₁ hFresh₂ hRegister₂ hDir
  obtain ⟨package₁, -, hWire₁, hBuilt₁⟩ := hSends₁ _ w₂ hRun₂ 8
  obtain ⟨package₂, -, hWire₂, hBuilt₂⟩ := hSends₂ [.send 1 8] _ (.cons ⟨trivial, .send w₂ 1 8⟩ (.nil _)) 12
  rw [hFirst] at hWire₁
  rw [hSecond] at hWire₂
  exact ⟨w₁, w₂, hRegister₁, hRegister₂, ⟨request, package, hWire, hBuilt⟩, ⟨package₁, hWire₁, hBuilt₁⟩,
    package₂, hWire₂, hBuilt₂⟩

set_option maxRecDepth 100000 in
/-- The id of the first recipe is handed out again, and the package of the first recipe goes out. -/
theorem reused_id_sends_other_recipe :
    ¬ ∀ (w₀ w w' : World) (calls : List HandlerCall) (i : Nat) (g : Registration), w₀.recipesIn = [] →
      Path HandlerStep w₀ calls w → w.registerRecipe i g = some (true, w') → (w.recipes i).dirOut = false →
      ∃ request package, w'.wire = w.wire ++ [request, frameOf package] ∧
        BuiltBy (w'.recipes i) w'.mem package := by
  intro h
  have hFirst : ((twoRecipes.registerRecipe 0 (underId 1 (text "INT32"))).bind fun p =>
      (p.2.registerRecipe 1 (underId 1 (text "DOUBLE"))).map fun q =>
        ([p.1, q.1, (p.2.recipes 1).dirOut, (q.2.recipes 1).dirOut], (q.2.recipes 1).expectedBytes,
          q.2.wire.getLast?.map List.length)) = some ([true, true, false, false], 8, some 8) := by
    decide +kernel
  obtain ⟨⟨ok₁, w₁⟩, hRegister₁, hRest⟩ := Option.bind_eq_some_iff.mp hFirst
  obtain ⟨⟨ok₂, w₂⟩, hRegister₂, hFacts⟩ := Option.map_eq_some_iff.mp hRest
  simp only [Prod.mk.injEq, List.cons.injEq, and_true] at hFacts
  obtain ⟨⟨rfl, rfl, hDir, hDir'⟩, hBytes, hLast⟩ := hFacts
  obtain ⟨request, package, hWire, hBuilt⟩ := h twoRecipes w₁ w₂ _ 1 _ rfl
    (.cons (.register hRegister₁) (.nil w₁)) hRegister₂ hDir
  have hLength : hdrSize package = 8 := by
    rw [hWire] at hLast
    simpa [length_frameOf] using hLast
  have hSize := hBuilt.size hDir'
  rw [hLength, hBytes] at hSize
  cases hSize

end LibUrx.Rtde
