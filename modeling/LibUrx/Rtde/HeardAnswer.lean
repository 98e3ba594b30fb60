import LibUrx.Rtde.Session

/-! # Answers to registrations

An answer that a recipe accepts lists the types of its fields, so that what the controller has filed is what the
recipe stores or parses.
-/
namespace LibUrx.Rtde
open Bytes Text Runs
set_option autoImplicit false

namespace Session

theorem Agrees.recipe_eq {s : Session} (h : s.Agrees) {e : Int × Nat} (hMem : e ∈ s.world.recipesIn) {id : UInt8}
    (hId : (s.world.recipes e.2).recipeId = id.toNat) : s.peer.Files false (s.world.recipes e.2) id := by
  obtain ⟨id', hFiles⟩ := h.inputs e hMem
  have hSame : id'.toNat = id.toNat := by
    have := hFiles.under.symm.trans hId
    omega
  rwa [UInt8.toNat_inj.mp hSame] at hFiles

theorem length_le_totalBytes {fields : List Token} (h : ∀ tok ∈ fields, tok.WellTyped) :
    fields.length ≤ totalBytes fields := by
  induction fields with
  | nil => exact Nat.le_refl _
  | cons tok fields ih =>
    have hHead := (h tok List.mem_cons_self).numBytes_pos
    have hRest := ih (List.forall_mem_of_forall_mem_cons h)
    rw [totalBytes_cons, List.length_cons]
    omega

section Heard

variable {s : Session} {i : Nat} {g : Registration} {packet : Buf} {r : RtdeRecipe} {id : UInt8}
  {provides : List UInt8 → DataType} {answer : List UInt8} {p : Peer}

/-- The peer answers for the fields of the recipe. -/
theorem Agrees.answer_eq (h : s.Agrees) (hFits : (s.world.recipes i).FitsPacket)
    (hAsks : (s.world.recipes i).getMsg = some (packet, r))
    (hAnswers : s.peer.ask id provides (frameOf packet) = (answer, p)) :
    ∃ type, (type = PackageType.setupOutputs ∨ type = .setupInputs) ∧
      answer = typesAnswer type id ((s.world.recipes i).fields.map fun tok => provides tok.name) ∧
      p = if ((s.world.recipes i).fields.map fun tok => provides tok.name).all available then
        s.peer.file (s.world.recipes i).dirOut id ((s.world.recipes i).fields.map fun tok => (tok.name, provides tok.name))
        else s.peer := by
  obtain ⟨hDir, hNames⟩ := (h.proper i).asks hFits hAsks
  simp only [Peer.ask, hDir, hNames, List.map_map] at hAnswers
  obtain ⟨rfl, rfl⟩ := Prod.mk.inj hAnswers
  refine ⟨_, ?_, rfl, rfl⟩
  cases (s.world.recipes i).dirOut with
  | true => exact Or.inl rfl
  | false => exact Or.inr rfl

theorem Agrees.grows (h : s.Agrees) (hFits : (s.world.recipes i).FitsPacket)
    (hAsks : (s.world.recipes i).getMsg = some (packet, r)) (hFresh : s.peer.filed (s.world.recipes i).dirOut id = none)
    (hAnswers : s.peer.ask id provides (frameOf packet) = (answer, p)) :
    s.peer.Grows p ∧ p.registers = s.peer.registers ∧ isPackage answer = false ∧ 2 < answer.length := by
  obtain ⟨type, hType, rfl, rfl⟩ := h.answer_eq hFits hAsks hAnswers
  have hNot {types : List DataType} :
      isPackage (typesAnswer type id types) = false ∧ 2 < (typesAnswer type id types).length := by
    refine ⟨?_, ?_⟩
    · rcases hType with rfl | rfl <;> rfl
    · rw [length_typesAnswer]
      omega
  split
  · refine ⟨Peer.grows_file hFresh _, ?_, hNot⟩
    unfold Peer.file
    split <;> rfl
  · exact ⟨.refl _, rfl, hNot⟩

/-- An answer that the recipe accepts has been filed for what the recipe lists. -/
theorem Agrees.accepted (h : s.Agrees) (hFits : (s.world.recipes i).FitsPacket)
    (hAsks : (s.world.recipes i).getMsg = some (packet, r)) (hAnswers : s.peer.ask id provides (frameOf packet) = (answer, p))
    (hAccepted : (r.registerResponse (answerOver answer s.world.buffer)).1 = true) :
    p.Files (s.world.recipes i).dirOut (r.accepted (answerOver answer s.world.buffer)) id := by
  obtain ⟨type, -, rfl, rfl⟩ := h.answer_eq hFits hAsks hAnswers
  obtain ⟨cpo, cpi, rfl⟩ := RtdeRecipe.getMsg_eq_some hAsks
  have hPacket : packetBytes = 2048 := rfl
  have hProper := h.proper i
  rw [RtdeRecipe.registerResponse_congr] at hAccepted
  have hShort : 4 + (typeNames ((s.world.recipes i).fields.map fun tok => provides tok.name)).length < 65536 := by
    have hNames := length_typeNames_le ((s.world.recipes i).fields.map fun tok => provides tok.name)
    have hCount := length_le_totalBytes hProper.formed.wellTyped
    have hBytes : (s.world.recipes i).bytes = totalBytes (s.world.recipes i).fields := hProper.layout.expected
    have hSmall := hFits.2.2
    rw [List.length_map] at hNames
    omega
  obtain ⟨hTypes, hId⟩ := hProper.formed.types_of_accepted hShort hAccepted
  have hProvides : ∀ tok ∈ (s.world.recipes i).fields, provides tok.name = tok.type :=
    List.map_inj_left.mp hTypes
  have hAvailable : ((s.world.recipes i).fields.map fun tok => provides tok.name).all available = true := by
    rw [hTypes, List.all_eq_true]
    intro type hMem
    have hType := hProper.formed.mem_outputTypes hMem
    revert hType
    cases type <;> decide
  have hListed : ((s.world.recipes i).fields.map fun tok => (tok.name, provides tok.name)) = (s.world.recipes i).listed :=
    List.map_congr_left fun tok hMem => by rw [hProvides tok hMem]
  rw [if_pos hAvailable, hListed]
  refine ⟨rfl, rfl, hFits.2.2, congrArg (fun c : UInt8 => (c.toNat : Int)) hId, ?_⟩
  unfold Peer.filed Peer.file
  split <;> simp only [if_true] <;> rfl

/-- An id that is new to the peer is new to the recipes that it has filed. -/
theorem Agrees.recipeId_ne (h : s.Agrees) (hFresh : s.peer.inputs id = none) {e : Int × Nat}
    (hMem : e ∈ s.world.recipesIn) : (s.world.recipes e.2).recipeId ≠ id.toNat := by
  intro hId
  have hFiled : s.peer.inputs id = some (s.world.recipes e.2).listed := (h.recipe_eq hMem hId).listed
  cases hFresh.symm.trans hFiled

theorem Agrees.key_ne (h : s.Agrees) (hFresh : s.peer.inputs id = none) {e : Int × Nat}
    (hMem : e ∈ s.world.recipesIn) : e.1 ≠ id.toNat := by
  obtain ⟨id', hKey, hFiled⟩ := h.keys e hMem
  intro hId
  have hSame : id'.toNat = id.toNat := by omega
  exact hFiled (UInt8.toNat_inj.mp hSame ▸ hFresh)

/-- The world behind an accepted answer agrees with the peer, whether the recipe is filed as the output or in the
map of inputs. -/
theorem Agrees.filed (h : s.Agrees) {r' : RtdeRecipe} (hProper : r'.Proper) (hDir : r'.dirOut = (s.world.recipes i).dirOut)
    (hFresh : s.peer.filed r'.dirOut id = none) (hGrows : s.peer.Grows p) (hFiles : p.Files r'.dirOut r' id) {w : World}
    (hRecipes : w.recipes = (s.world.setRecipe i r').recipes)
    (hFiled : (r'.dirOut = true ∧ w.out = some i ∧ w.recipesIn = s.world.recipesIn) ∨
      (r'.dirOut = false ∧ w.out = s.world.out ∧
        ∀ e, e ∈ w.recipesIn ↔ e ∈ s.world.recipesIn ∨ e = ((id.toNat : Int), i))) : Agrees ⟨w, p, []⟩ := by
  have hSelf : w.recipes i = r' := by rw [hRecipes, World.setRecipe_self]
  have hOther {j : Nat} (hNe : j ≠ i) : w.recipes j = s.world.recipes j := by
    rw [hRecipes, World.setRecipe_of_ne hNe]
  have hMap {e : Int × Nat} (hMem : e ∈ w.recipesIn) : e.2 = i ∧ r'.dirOut = false ∨ e.2 ≠ i ∧ e ∈ s.world.recipesIn := by
    rcases hFiled with ⟨hOut, -, hSame⟩ | ⟨hIn, -, hNew⟩
    · rw [hSame] at hMem
      refine Or.inr ⟨?_, hMem⟩
      rintro rfl
      obtain ⟨id', hOld⟩ := h.inputs e hMem
      cases hOld.dir.symm.trans (hDir.symm.trans hOut)
    · by_cases hSame : e.2 = i
      · exact Or.inl ⟨hSame, hIn⟩
      · refine Or.inr ⟨hSame, ((hNew e).mp hMem).resolve_right ?_⟩
        rintro rfl
        exact hSame rfl
  have hNewId {e : Int × Nat} (hIn : r'.dirOut = false) (hMem : e ∈ s.world.recipesIn) (hNe : e.2 ≠ i) :
      (w.recipes e.2).recipeId ≠ (w.recipes i).recipeId := by
    rw [hOther hNe, hSelf, hFiles.under]
    rw [hIn] at hFresh
    exact h.recipeId_ne hFresh hMem
  refine ⟨fun j => ?_, ?_, ?_, ?_, ?_, List.forall_mem_nil _⟩
  · by_cases hSame : j = i
    · change (w.recipes j).Proper
      rw [hSame, hSelf]
      exact hProper
    · change (w.recipes j).Proper
      rw [hOther hSame]
      exact h.proper j
  · intro e hMem e' hMem' hId
    rcases hMap hMem with ⟨hSame, hIn⟩ | ⟨hNe, hOld⟩ <;> rcases hMap hMem' with ⟨hSame', hIn'⟩ | ⟨hNe', hOld'⟩
    · rw [hSame, hSame']
    · rw [hSame] at hId
      exact absurd hId.symm (hNewId hIn hOld' hNe')
    · rw [hSame'] at hId
      exact absurd hId (hNewId hIn' hOld hNe)
    · change (w.recipes e.2).recipeId = (w.recipes e'.2).recipeId at hId
      rw [hOther hNe, hOther hNe'] at hId
      exact h.distinct e hOld e' hOld' hId
  · intro e hMem
    have hKept {e : Int × Nat} (hOld : e ∈ s.world.recipesIn) : ∃ id : UInt8, e.1 = id.toNat ∧ p.inputs id ≠ none := by
      obtain ⟨id', hKey, hSome⟩ := h.keys e hOld
      exact ⟨id', hKey, hGrows.input_ne_none hSome⟩
    rcases hFiled with ⟨-, -, hSame⟩ | ⟨hIn, -, hNew⟩
    · exact hKept (hSame ▸ hMem)
    · rcases (hNew e).mp hMem with hOld | rfl
      · exact hKept hOld
      · rw [hIn] at hFiles
        have hListed : p.inputs id = some r'.listed := hFiles.listed
        exact ⟨id, rfl, by rw [hListed]; simp⟩
  · intro e hMem
    rcases hMap hMem with ⟨hSame, hIn⟩ | ⟨hNe, hOld⟩
    · refine ⟨id, ?_⟩
      change p.Files false (w.recipes e.2) id
      rw [hSame, hSelf, ← hIn]
      exact hFiles
    · obtain ⟨id', hOldFiles⟩ := h.inputs e hOld
      refine ⟨id', ?_⟩
      change p.Files false (w.recipes e.2) id'
      rw [hOther hNe]
      exact hGrows.files hOldFiles
  · intro j hOut
    rcases hFiled with ⟨hDirOut, hNow, -⟩ | ⟨hIn, hSame, -⟩
    · obtain rfl := Option.some.inj (hNow.symm.trans hOut)
      refine ⟨id, ?_⟩
      change p.Files true (w.recipes i) id
      rw [hSelf, ← hDirOut]
      exact hFiles
    · obtain ⟨id', hOldFiles⟩ := h.output j (hSame.symm.trans hOut)
      have hNe : j ≠ i := by
        rintro rfl
        cases hOldFiles.dir.symm.trans (hDir.symm.trans hIn)
      refine ⟨id', ?_⟩
      change p.Files true (w.recipes j) id'
      rw [hOther hNe]
      exact hGrows.files hOldFiles

theorem handed_sentBy (w : World) (i : Nat) :
    handed w (w.sentBy i) 0 = [frameOf ((w.recipes i).store (w.recipes i).dp w.mem).2] := by
  rw [handed, Nat.add_zero]
  exact List.drop_left

/-- The peer takes a package for what the members of its recipe hold. -/
theorem Agrees.sentBy (h : s.Agrees) {e : Int × Nat} (hMem : e ∈ s.world.recipesIn) :
    (handed s.world (s.world.sentBy e.2) 0).foldl Peer.take s.peer =
      { s.peer with registers := setAll s.peer.registers ((s.world.recipes e.2).values s.world.mem) } := by
  obtain ⟨id, hFiles⟩ := h.inputs e hMem
  rw [handed_sentBy, List.foldl_cons, List.foldl_nil]
  exact Peer.take_store (h.proper e.2) hFiles.dir hFiles.fits hFiles.under hFiles.listed _ _

theorem Agrees.heard (h : s.Agrees) (hFits : (s.world.recipes i).FitsPacket)
    (hAsks : (s.world.recipes i).getMsg = some (packet, r)) (hFresh : s.peer.filed (s.world.recipes i).dirOut id = none)
    (hAnswers : s.peer.ask id provides (frameOf packet) = (answer, p)) (hReply : g.exchange.reply = some answer)
    (hCode : 0 ≤ g.exchange.sendCode) {ok : Bool} {w : World} (hDone : s.world.registerRecipe i g = some (ok, w)) :
    Agrees ⟨w, if 0 < g.initialSend then (handed s.world w 1).foldl Peer.take p else p, []⟩ ∧
      (if 0 < g.initialSend then (handed s.world w 1).foldl Peer.take p else p).registers =
        setAll s.peer.registers (s.told (.call (.register i g))) := by
  obtain ⟨hGrows, hRegisters, -⟩ := h.grows hFits hAsks hFresh hAnswers
  have hHeard : s.world.answer g.exchange = some (answerOver answer s.world.buffer) := by
    obtain ⟨sent, hSent⟩ := Int.eq_ofNat_of_zero_le hCode
    have hExchange : g.exchange = ⟨sent, some answer⟩ := by
      rw [← hSent, ← hReply]
    rw [hExchange]
    exact World.answer_delivered _ sent answer
  obtain ⟨packet', r', hMsg, hCases⟩ := World.registerRecipe_cases hDone
  obtain ⟨rfl, rfl⟩ := Prod.mk.inj (Option.some.inj (hMsg.symm.trans hAsks))
  rcases hCases with ⟨rfl, buffer, rfl⟩ | ⟨resp, hResp, hTaken, hFiled⟩
  · have hNone : handed s.world (s.world.asked i r' packet' buffer) 1 = [] := by
      rw [handed, World.asked]
      simp
    simp only [hNone, List.foldl_nil, ite_self, told, hDone]
    exact ⟨h.stays (World.stays_asked hAsks) hGrows (List.forall_mem_nil _), hRegisters⟩
  · obtain rfl := Option.some.inj (hHeard.symm.trans hResp)
    have hFiles := h.accepted hFits hAsks hAnswers (by rw [hTaken])
    obtain ⟨cpo, cpi, hSame⟩ := RtdeRecipe.getMsg_eq_some hAsks
    have hDir : r'.dirOut = (s.world.recipes i).dirOut := by rw [hSame]
    have hId : ((hdrRecipeId (answerOver answer s.world.buffer)).toNat : Int) = id.toNat := hFiles.under
    have hProper : (r'.accepted (answerOver answer s.world.buffer)).Proper :=
      (h.proper i).congr (by rw [hSame]; rfl) (by rw [hSame]; rfl) hDir
    rw [← hDir] at hFresh hFiles
    rcases hFiled with ⟨hOut, rfl, rfl⟩ | ⟨hIn, hSend⟩
    · obtain ⟨w, hW⟩ : ∃ w : World, { s.world.asked i (r'.accepted (answerOver answer s.world.buffer)) packet'
        (answerOver answer s.world.buffer) with out := some i } = w := ⟨_, rfl⟩
      have hNone : handed s.world w 1 = [] := by
        rw [handed, ← hW, World.asked]
        simp
      rw [hW] at hDone ⊢
      simp only [hNone, List.foldl_nil, ite_self, told, hDone, ← hDir, hOut, if_true]
      exact ⟨h.filed hProper hDir hFresh hGrows hFiles (by rw [← hW]; rfl) (Or.inl ⟨hOut, by rw [← hW], by rw [← hW]; rfl⟩),
        hRegisters⟩
    · obtain ⟨asked, hAsked⟩ : ∃ asked, s.world.asked i (r'.accepted (answerOver answer s.world.buffer)) packet'
        (answerOver answer s.world.buffer) = asked := ⟨_, rfl⟩
      obtain ⟨filed, hIs⟩ : ∃ filed, asked.insertRecipe g.order (hdrRecipeId (answerOver answer s.world.buffer)).toNat i =
        filed := ⟨_, rfl⟩
      rw [hAsked, hIs, hId] at hSend
      have hRecipes : filed.recipes = (s.world.setRecipe i (r'.accepted (answerOver answer s.world.buffer))).recipes := by
        rw [← hIs, World.insertRecipe_recipes, ← hAsked]
        rfl
      obtain ⟨recipesIn, hOnly⟩ : ∃ recipesIn, filed = { asked with recipesIn } := by
        rw [← hIs, World.insertRecipe]
        split
        · exact ⟨asked.recipesIn, rfl⟩
        · exact ⟨_, rfl⟩
      have hFresh' : s.peer.inputs id = none := by
        have hDirIn : (r'.accepted (answerOver answer s.world.buffer)).dirOut = false := hIn
        rwa [hIn] at hFresh
      have hMap (e : Int × Nat) : e ∈ filed.recipesIn ↔ e ∈ s.world.recipesIn ∨ e = ((id.toNat : Int), i) := by
        rw [← hIs, World.mem_insertRecipe_iff, ← hAsked, hId]
        refine or_congr_right (and_iff_right ?_)
        exact fun e' hMem => h.key_ne hFresh' hMem
      have hAgrees : Agrees ⟨filed, p, []⟩ := by
        refine h.filed hProper hDir hFresh hGrows hFiles hRecipes (Or.inr ⟨hIn, ?_, hMap⟩)
        rw [hOnly, ← hAsked]
        rfl
      have hMem : ((id.toNat : Int), i) ∈ filed.recipesIn := (hMap _).mpr (Or.inr rfl)
      have hUnder : (filed.recipes i).recipeId = id.toNat := by
        rw [hRecipes, World.setRecipe_self]
        exact hFiles.under
      have hSent := World.send_of_mem hAgrees.distinct hMem g.initialSend
      rw [hUnder] at hSent
      obtain ⟨rfl, rfl⟩ := Prod.mk.inj (hSend.trans hSent)
      have hHanded : handed s.world (filed.sentBy i) 1 = handed filed (filed.sentBy i) 0 := by
        have hWire : filed.wire.length = s.world.wire.length + 1 := by
          rw [hOnly, ← hAsked]
          exact List.length_append
        rw [handed, handed, hWire, Nat.add_zero]
      have hTakes : (handed filed (filed.sentBy i) 0).foldl Peer.take p =
          { p with registers := setAll p.registers ((filed.recipes i).values filed.mem) } := hAgrees.sentBy hMem
      have hValues : (filed.recipes i).values filed.mem = (s.world.recipes i).values s.world.mem := by
        rw [hRecipes, World.setRecipe_self, hOnly, ← hAsked, RtdeRecipe.values, RtdeRecipe.values, RtdeRecipe.accepted,
          hSame]
        rfl
      rw [hHanded, hTakes, hValues]
      constructor
      · refine hAgrees.stays (filed.stays_sentBy i) ?_ (List.forall_mem_nil _)
        split
        · exact ⟨fun _ _ hOld => hOld, fun _ _ hOld => hOld⟩
        · exact .refl p
      · rw [told, hDone, ← hDir, hIn]
        split
        · rename_i hSent
          rw [decide_eq_true hSent, ← hRegisters]
          rfl
        · rename_i hNot
          rw [decide_eq_false hNot, ← hRegisters]
          rfl

/-- A registration whose answer is not read comes to nothing, but the peer may have filed the recipe. -/
theorem unanswered (hNone : s.world.answer g.exchange = none) {w : World}
    (hDone : HandlerStep s.world (.register i g) w) :
    s.world.Stays w ∧ s.told (.call (.register i g)) = [] := by
  cases hDone with
  | register hRegister =>
    obtain ⟨packet, r, hMsg, ⟨rfl, buffer, rfl⟩ | ⟨resp, hResp, -⟩⟩ := World.registerRecipe_cases hRegister
    · refine ⟨World.stays_asked hMsg, ?_⟩
      rw [told, hRegister]
    · cases hNone.symm.trans hResp

end Heard

end Session

end LibUrx.Rtde
