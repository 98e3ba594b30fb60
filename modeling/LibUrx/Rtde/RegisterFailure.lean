import LibUrx.Base.Overwrite
import LibUrx.Rtde.Leftovers
import LibUrx.Rtde.StaleAnswer

/-! # Registrations that fail

A registration can fail before the answer, by the answer, or, for an input recipe, after it, when the
first package is not sent. By then the recipe bears its id and the handler has filed it. The answer itself stays in
the buffer, where a short read finds it.
-/
namespace LibUrx.Rtde
open Bytes Text
set_option autoImplicit false

theorem overwrites_behind_head {f : Buf → Buf} (h : Overwrites f) :
    Overwrites fun dp => withPayload dp (f (payload dp)) := by
  obtain ⟨values, hValues⟩ := h
  refine ⟨fun i => if i < 4 then none else values (i - 4), ?_⟩
  intro buf i
  by_cases hHead : i < 4
  · simp [withPayload, hHead]
  · have hShift : 4 + (i - 4) = i := by omega
    simp [withPayload, payload, hHead, hValues, hShift]

theorem overwrites_tokenStore (tok : Token) (m : Memory) : Overwrites (tok.tokenStore m) := by
  unfold Token.tokenStore
  cases tok.type <;> first | exact overwrites_patch _ _ | exact overwrites_id

theorem overwrites_storeFields (fields : List Token) (m : Memory) :
    Overwrites fun buf => (storeFields fields m buf).2 := by
  induction fields with
  | nil => exact overwrites_id
  | cons tok rest ih =>
    cases hKind : tok.kind with
    | input =>
      have hCons : (fun buf => (storeFields (tok :: rest) m buf).2) = fun buf =>
          (storeFields rest m (tok.tokenStore m buf)).2 := by
        funext buf
        rw [storeFields, Token.store, hKind]
      rw [hCons]
      exact ih.comp (overwrites_tokenStore tok m)
    | output =>
      have hCons : (fun buf => (storeFields (tok :: rest) m buf).2) = fun buf => buf := by
        funext buf
        rw [storeFields, Token.store, hKind]
      rw [hCons]
      exact overwrites_id

namespace RtdeRecipe

theorem overwrites_store (r : RtdeRecipe) (m : Memory) : Overwrites fun dp => (r.store dp m).2 := by
  cases hDir : r.dirOut with
  | true =>
    have hSame : (fun dp => (r.store dp m).2) = fun dp => dp := by
      funext dp
      rw [store, if_pos hDir]
    rw [hSame]
    exact overwrites_id
  | false =>
    have hSame : (fun dp => (r.store dp m).2) = fun dp =>
        withPayload (rtdeDataPackageInit dp r.recipeId r.expectedBytes)
          (storeFields r.fields m (payload (rtdeDataPackageInit dp r.recipeId r.expectedBytes))).2 := by
      funext dp
      rw [store, if_neg (by simp [hDir])]
    rw [hSame]
    have hHead : Overwrites fun dp => rtdeDataPackageInit dp r.recipeId r.expectedBytes :=
      (overwrites_patch _ _).comp ((overwrites_patch _ _).comp (overwrites_patch _ _))
    exact (overwrites_behind_head (overwrites_storeFields r.fields m)).comp hHead

theorem store_store (r : RtdeRecipe) (dp : Buf) (m : Memory) : (r.store (r.store dp m).2 m).2 = (r.store dp m).2 :=
  (r.overwrites_store m).idempotent dp

end RtdeRecipe

namespace World

/-- Two worlds that differ in the request buffers and in packages that will be overwritten anyway. -/
structure Alike (w w' : World) : Prop where
  out : w'.out = w.out
  recipesIn : w'.recipesIn = w.recipesIn
  mem : w'.mem = w.mem
  recipe : ∀ j, ∃ cpo cpi dp, w'.recipes j = { w.recipes j with cpo, cpi, dp } ∧
    ((w.recipes j).store dp w.mem).2 = ((w.recipes j).store (w.recipes j).dp w.mem).2

/-- Whatever is sent next is sent from both, with the same outcome. -/
def SendsAlike (w w' : World) : Prop :=
  ∀ id sendCode, ∃ frames, (w'.send id sendCode).1 = (w.send id sendCode).1 ∧
    (w.send id sendCode).2.wire = w.wire ++ frames ∧ (w'.send id sendCode).2.wire = w'.wire ++ frames

/-- Whatever is read next has the same outcome in both. -/
def ReceivesAlike (w w' : World) : Prop := ∀ reply ts, w'.received reply ts = w.received reply ts

namespace Alike

variable {w w' : World} (h : w.Alike w')

include h

theorem recipeId (j : Nat) : (w'.recipes j).recipeId = (w.recipes j).recipeId := by
  obtain ⟨cpo, cpi, dp, hRecipe, -⟩ := h.recipe j
  rw [hRecipe]

theorem active (j : Nat) : (w'.recipes j).active = (w.recipes j).active := by
  obtain ⟨cpo, cpi, dp, hRecipe, -⟩ := h.recipe j
  rw [hRecipe]

theorem stored (j : Nat) : ((w'.recipes j).store (w'.recipes j).dp w'.mem).2 =
    ((w.recipes j).store (w.recipes j).dp w.mem).2 := by
  obtain ⟨cpo, cpi, dp, hRecipe, hStored⟩ := h.recipe j
  rw [hRecipe, h.mem, ← hStored]
  rfl

theorem sendsAlike : w.SendsAlike w' := by
  intro id sendCode
  have hFind : (w'.recipesIn.find? fun e => (w'.recipes e.2).recipeId == id) =
      w.recipesIn.find? fun e => (w.recipes e.2).recipeId == id := by
    simp only [h.recipesIn, h.recipeId]
  rw [send, send, hFind]
  cases w.recipesIn.find? fun e => (w.recipes e.2).recipeId == id with
  | none => exact ⟨[], rfl, (List.append_nil _).symm, (List.append_nil _).symm⟩
  | some e =>
    refine ⟨[frameOf ((w.recipes e.2).store (w.recipes e.2).dp w.mem).2], rfl, rfl, ?_⟩
    rw [← h.stored]
    rfl

theorem parseIncomingData_eq (data : Buf) (ts : UInt64) :
    w'.parseIncomingData data ts = w.parseIncomingData data ts := by
  unfold parseIncomingData
  rw [h.out, h.mem]
  cases w.out with
  | none => rfl
  | some j =>
    obtain ⟨cpo, cpi, dp, hRecipe, -⟩ := h.recipe j
    dsimp only
    rw [hRecipe]
    rfl

theorem received_eq (reply : Option (List UInt8)) (ts : UInt64) :
    w'.received reply ts = { w with buffer := w'.buffer }.received reply ts := by
  cases reply with
  | none => exact congrArg (fun mem => some (false, mem)) h.mem
  | some bytes =>
    have hParse := h.parseIncomingData_eq (readOver packetBytes bytes w'.buffer) ts
    rw [received_over w w'.buffer, ← hParse]
    exact received_over w' w'.buffer bytes ts

/-- Only the buffers can make a difference to a read. -/
theorem receivesAlike_iff : w.ReceivesAlike w' ↔ w.ReadsAlike w.buffer w'.buffer :=
  forall₂_congr fun reply ts => by
    rw [h.received_eq]
    exact eq_comm

theorem sentBy (j : Nat) : w.Alike (w'.sentBy j) where
  out := h.out
  recipesIn := h.recipesIn
  mem := h.mem
  recipe k := by
    cases eq_or_ne k j with
    | inl hEq =>
      obtain ⟨cpo, cpi, dp, hRecipe, -⟩ := h.recipe j
      refine ⟨cpo, cpi, ((w.recipes j).store (w.recipes j).dp w.mem).2, ?_, ?_⟩
      · have hSent : (w'.sentBy j).recipes j =
            { w'.recipes j with dp := ((w'.recipes j).store (w'.recipes j).dp w'.mem).2 } := setRecipe_self w' j _
        rw [hEq, hSent, h.stored, hRecipe]
      · rw [hEq]
        exact RtdeRecipe.store_store _ _ _
    | inr hNe =>
      have hSent : (w'.sentBy j).recipes k = w'.recipes k := setRecipe_of_ne hNe w' _
      rw [hSent]
      exact h.recipe k

end Alike

theorem alike_asked {w : World} {i : Nat} {packet : Buf} {r : RtdeRecipe}
    (hMsg : (w.recipes i).getMsg = some (packet, r)) (buffer : Buf) : w.Alike (w.asked i r packet buffer) where
  out := rfl
  recipesIn := rfl
  mem := rfl
  recipe j := by
    cases eq_or_ne j i with
    | inl hEq =>
      obtain ⟨cpo, cpi, hSame⟩ := RtdeRecipe.getMsg_eq_some hMsg
      have hAsked : (w.asked i r packet buffer).recipes i = r := setRecipe_self w i r
      exact ⟨cpo, cpi, (w.recipes j).dp, by rw [hEq, hAsked, hSame], rfl⟩
    | inr hNe => exact ⟨(w.recipes j).cpo, (w.recipes j).cpi, (w.recipes j).dp, setRecipe_of_ne hNe w r, rfl⟩

/-- The call has left no trace that matters to the calls after it. -/
structure Undone (w : World) (i : Nat) (w' : World) : Prop where
  out : w'.out = w.out
  recipesIn : w'.recipesIn = w.recipesIn
  recipeId : (w'.recipes i).recipeId = (w.recipes i).recipeId
  active : (w'.recipes i).active = (w.recipes i).active
  sends : w.SendsAlike w'
  receives : w.ReceivesAlike w'

theorem Alike.undone_iff {w w' : World} (h : w.Alike w') (i : Nat) :
    w.Undone i w' ↔ w.ReadsAlike w.buffer w'.buffer := by
  rw [← h.receivesAlike_iff]
  exact ⟨Undone.receives, fun hReceives =>
    ⟨h.out, h.recipesIn, h.recipeId i, h.active i, h.sendsAlike, hReceives⟩⟩

/-- Once recipe `i` bears the id, the first package goes out: some filed recipe bears it, and the connection
takes the package. -/
def Delivers (w : World) (i : Nat) (id sendCode : Int) : Prop :=
  0 < sendCode ∧ ((∀ e ∈ w.recipesIn, e.1 ≠ id) ∨ ∃ e ∈ w.recipesIn, e.2 = i ∨ (w.recipes e.2).recipeId = id)

/-- The recipe is active under the id, and something is filed under it. -/
def Registered (w : World) (i : Nat) (id : Int) : Prop :=
  (w.recipes i).active = true ∧ (w.recipes i).recipeId = id ∧ ∃ e ∈ w.recipesIn, e.1 = id

/-- An input recipe gets a new id from an accepted answer, and its first package is not sent. -/
structure Stranded (w : World) (i : Nat) (g : Registration) (resp : Buf) : Prop where
  input : (w.recipes i).dirOut = false
  answered : w.answer g.exchange = some resp
  accepted : ((w.recipes i).registerResponse resp).1 = true
  unsent : ¬ w.Delivers i (hdrRecipeId resp).toNat g.initialSend
  new : ¬ w.Registered i (hdrRecipeId resp).toNat

/-- The call fails with the answer in the buffer: it is refused, or the first package of an input recipe is not
sent. -/
def FailsWith (w : World) (i : Nat) (g : Registration) (resp : Buf) : Prop :=
  ((w.recipes i).registerResponse resp).1 = false ∨
    (w.recipes i).dirOut = false ∧ ¬ w.Delivers i (hdrRecipeId resp).toNat g.initialSend

theorem answer_beyond {w : World} {x : Exchange} {resp : Buf} (h : w.answer x = some resp) {i : Nat}
    (hBeyond : packetBytes ≤ i) : w.buffer i = resp i := by
  unfold answer at h
  dsimp only at h
  split at h
  · cases h
  · obtain rfl := Option.some.inj h
    rw [patch_outside (Or.inr (by simp only [List.length_singleton]; unfold packetBytes at hBeyond ⊢; omega)), doSendRecv]
    split
    · rfl
    · cases x.reply with
      | none => rfl
      | some bytes => exact (readOver_beyond bytes w.buffer hBeyond).symm

section Filed

variable {w : World} {i id : Nat} {packet resp : Buf} {r : RtdeRecipe} (order : MapOrder) (sendCode : Int)

theorem recipeId_bearing (w : World) (i id j : Nat) (r : RtdeRecipe) (packet resp : Buf) :
    ((w.asked i (r.bearing id) packet resp).recipes j).recipeId = id ↔
      j = i ∨ (w.recipes j).recipeId = id := by
  cases eq_or_ne j i with
  | inl hEq =>
    have hAsked : (w.asked i (r.bearing id) packet resp).recipes i = r.bearing id := setRecipe_self w i _
    rw [hEq, hAsked]
    exact iff_of_true rfl (Or.inl rfl)
  | inr hNe =>
    have hAsked : (w.asked i (r.bearing id) packet resp).recipes j = w.recipes j := setRecipe_of_ne hNe w _
    rw [hAsked, or_iff_right hNe]

theorem send_delivers_iff : (((w.asked i (r.bearing id) packet resp).insertRecipe order id i).send id sendCode).1 = true ↔
    w.Delivers i id sendCode := by
  have hBears (j : Nat) : ((((w.asked i (r.bearing id) packet resp).insertRecipe order id i).recipes j).recipeId = id) ↔
      j = i ∨ (w.recipes j).recipeId = id := by
    rw [insertRecipe_recipes]
    exact recipeId_bearing w i id j r packet resp
  have hFiled : (∃ e ∈ ((w.asked i (r.bearing id) packet resp).insertRecipe order id i).recipesIn,
      (((w.asked i (r.bearing id) packet resp).insertRecipe order id i).recipes e.2).recipeId = id) ↔
      (∀ e ∈ w.recipesIn, e.1 ≠ id) ∨ ∃ e ∈ w.recipesIn, e.2 = i ∨ (w.recipes e.2).recipeId = id := by
    constructor
    · rintro ⟨e, hMem, hId⟩
      cases mem_insertRecipe_iff.mp hMem with
      | inl hOld => exact Or.inr ⟨e, hOld, (hBears e.2).mp hId⟩
      | inr hNew => exact Or.inl hNew.1
    · rintro (hNew | ⟨e, hMem, hId⟩)
      · exact ⟨((id : Int), i), mem_insertRecipe_iff.mpr (Or.inr ⟨hNew, rfl⟩), (hBears i).mpr (Or.inl rfl)⟩
      · exact ⟨e, mem_insertRecipe_iff.mpr (Or.inl hMem), (hBears e.2).mpr hId⟩
  rw [Delivers, ← hFiled]
  rcases send_cases ((w.asked i (r.bearing id) packet resp).insertRecipe order id i) id sendCode with
    ⟨hSend, hNone⟩ | ⟨e, -, hMem, hId, hSend⟩
  · rw [hSend]
    exact iff_of_false Bool.false_ne_true fun ⟨_, e, hMem, hId⟩ => hNone e hMem hId
  · rw [hSend, and_iff_left ⟨e, hMem, hId⟩]
    exact decide_eq_true_iff

/-- What sending leaves of the map and of a recipe's standing. -/
theorem send_keeps (w : World) (id sendCode : Int) (j : Nat) :
    (w.send id sendCode).2.recipesIn = w.recipesIn ∧
      ((w.send id sendCode).2.recipes j).recipeId = (w.recipes j).recipeId ∧
      ((w.send id sendCode).2.recipes j).active = (w.recipes j).active := by
  rcases send_cases w id sendCode with ⟨hSend, -⟩ | ⟨e, -, -, -, hSend⟩
  · rw [hSend]
    exact ⟨rfl, rfl, rfl⟩
  · rw [hSend]
    refine ⟨rfl, ?_, ?_⟩ <;> simp only [sentBy, setRecipe] <;> split <;> rename_i hEq <;> simp [*]

theorem undone_filed_iff (hMsg : (w.recipes i).getMsg = some (packet, r)) :
    w.Undone i (((w.asked i (r.bearing id) packet resp).insertRecipe order id i).send id sendCode).2 ↔
      w.Registered i id ∧ w.ReadsAlike w.buffer resp := by
  have hSent (h : w.Registered i id) : w.Undone i
      (((w.asked i (r.bearing id) packet resp).insertRecipe order id i).send id sendCode).2 ↔
        w.ReadsAlike w.buffer resp := by
    obtain ⟨hActive, hId, hKey⟩ := h
    obtain ⟨cpo, cpi, hSame⟩ := RtdeRecipe.getMsg_eq_some hMsg
    have hBearing : r.bearing id = r := RtdeRecipe.bearing_eq_self (by rw [hSame, hActive]) (by rw [hSame, hId])
    have hInsert : (w.asked i r packet resp).insertRecipe order id i = w.asked i r packet resp :=
      insertRecipe_of_mem (w := w.asked i r packet resp) hKey order i
    rw [hBearing, hInsert]
    have hAlike := alike_asked hMsg resp
    rcases send_cases (w.asked i r packet resp) id sendCode with ⟨hSend, -⟩ | ⟨e, -, -, -, hSend⟩
    · rw [hSend]
      exact hAlike.undone_iff i
    · rw [hSend]
      exact (hAlike.sentBy e.2).undone_iff i
  constructor
  · intro h
    obtain ⟨hRecipesIn, hRecipeId, hActive⟩ :=
      send_keeps ((w.asked i (r.bearing id) packet resp).insertRecipe order id i) id sendCode i
    have hAsked : (w.asked i (r.bearing id) packet resp).recipes i = r.bearing id := setRecipe_self w i _
    rw [insertRecipe_recipes, hAsked] at hRecipeId hActive
    have hRegistered : w.Registered i id := by
      refine ⟨h.active.symm.trans hActive, h.recipeId.symm.trans hRecipeId, ?_⟩
      exact (insertRecipe_eq_self_iff (w.asked i (r.bearing id) packet resp) order id i).mp
        (hRecipesIn.symm.trans h.recipesIn)
    exact ⟨hRegistered, (hSent hRegistered).mp h⟩
  · exact fun ⟨hRegistered, hReads⟩ => (hSent hRegistered).mpr hReads

theorem undone_of_unsent_iff (hMsg : (w.recipes i).getMsg = some (packet, r)) :
    ((((w.asked i (r.bearing id) packet resp).insertRecipe order id i).send id sendCode).1 = false →
      w.Undone i (((w.asked i (r.bearing id) packet resp).insertRecipe order id i).send id sendCode).2) ↔
      (¬ w.Delivers i id sendCode → w.Registered i id ∧ w.ReadsAlike w.buffer resp) := by
  rw [← Bool.not_eq_true, send_delivers_iff, undone_filed_iff order sendCode hMsg]

end Filed

/-- A registration that fails leaves no trace if and only if it has read nothing, or it has not stranded an input
recipe under a new id and no read can tell its answer from what was in the buffer. -/
theorem registerRecipe_undone_iff {w w' : World} {i : Nat} {g : Registration} {ok : Bool} (hReach : Reachable w)
    (h : w.registerRecipe i g = some (ok, w')) :
    (ok = false → w.Undone i w') ↔ ∀ resp, w.answer g.exchange = some resp →
      ¬ w.Stranded i g resp ∧ (w.FailsWith i g resp → w.Indistinct w.buffer resp) := by
  obtain ⟨packet, r, hMsg, -⟩ := registerRecipe_cases h
  obtain ⟨cpo, cpi, hSame⟩ := RtdeRecipe.getMsg_eq_some hMsg
  cases hAnswer : w.answer g.exchange with
  | none =>
    rw [registerRecipe_unanswered hMsg hAnswer] at h
    obtain ⟨-, rfl⟩ := Prod.mk.inj (Option.some.inj h)
    refine iff_of_true (fun _ => ((alike_asked hMsg w.buffer).undone_iff i).mpr fun _ _ => rfl) ?_
    intro resp hSome
    cases hSome
  | some resp =>
    have hReads := readsAlike_iff (formed_of_reachable hReach) fun _ => answer_beyond hAnswer
    have hTaken : (r.registerResponse resp).1 = ((w.recipes i).registerResponse resp).1 := by
      rw [hSame]
      exact (w.recipes i).registerResponse_congr cpo cpi resp
    have hDirection : r.dirOut = (w.recipes i).dirOut := by rw [hSame]
    rw [registerRecipe_answered hMsg hAnswer, hTaken, hDirection] at h
    simp only [Option.some.injEq, forall_eq']
    rw [← hReads]
    cases hAccepted : ((w.recipes i).registerResponse resp).1 with
    | false =>
      rw [if_pos hAccepted] at h
      obtain ⟨rfl, rfl⟩ := Prod.mk.inj (Option.some.inj h)
      have hNot : ¬ w.Stranded i g resp := fun hStranded => by
        rw [hStranded.accepted] at hAccepted
        cases hAccepted
      have hFails : w.FailsWith i g resp := Or.inl hAccepted
      rw [and_iff_right hNot, imp_iff_right rfl, imp_iff_right hFails]
      exact (alike_asked hMsg resp).undone_iff i
    | true =>
      rw [if_neg (by simp [hAccepted])] at h
      cases hDir : (w.recipes i).dirOut with
      | true =>
        rw [if_pos hDir] at h
        obtain ⟨rfl, -⟩ := Prod.mk.inj (Option.some.inj h)
        refine iff_of_true (fun hFalse => by cases hFalse) ⟨fun hStranded => ?_, fun hFails => ?_⟩
        · rw [hStranded.input] at hDir
          cases hDir
        · rcases hFails with hRefused | ⟨hInput, -⟩
          · rw [hRefused] at hAccepted
            cases hAccepted
          · rw [hInput] at hDir
            cases hDir
      | false =>
        rw [if_neg (by simp [hDir])] at h
        have hBearing : r.accepted resp = r.bearing (hdrRecipeId resp).toNat := rfl
        rw [hBearing] at h
        have hOk : _ = ok := congrArg Prod.fst (Option.some.inj h)
        have hWorld : _ = w' := congrArg Prod.snd (Option.some.inj h)
        rw [← hOk, ← hWorld]
        refine (undone_of_unsent_iff g.order g.initialSend hMsg).trans ?_
        constructor
        · intro hRegistered
          refine ⟨fun hStranded => hStranded.new (hRegistered hStranded.unsent).1, fun hFails => ?_⟩
          rcases hFails with hRefused | ⟨-, hUnsent⟩
          · rw [hRefused] at hAccepted
            cases hAccepted
          · exact (hRegistered hUnsent).2
        · rintro ⟨hNot, hReadsAlike⟩ hUnsent
          refine ⟨Classical.byContradiction fun hNew => hNot ⟨hDir, hAnswer, hAccepted, hUnsent, hNew⟩, ?_⟩
          exact hReadsAlike (Or.inr ⟨hDir, hUnsent⟩)

def registerWorld : World := (fresh ⟨fun _ => 0, []⟩ fun _ => 0).setRecipe 0
  (RtdeRecipe.afterCalls ⟨fun _ => 0, []⟩ [.dirInput, .addField (text "input_int_register_0") 8])

/-- The controller files the recipe under 5, and then the connection is gone. -/
def lostRegistration : Registration where
  exchange := ⟨23, some ([0, 9, 73, 5] ++ text "INT32")⟩
  order := .asInserted
  initialSend := -1

set_option maxRecDepth 100000 in
theorem registerWorld_lost : ∃ w', registerWorld.registerRecipe 0 lostRegistration = some (false, w') ∧
    w'.recipesIn = [(5, 0)] := by
  have hOk : (registerWorld.registerRecipe 0 lostRegistration).map Prod.fst = some false := by decide +kernel
  have hMap : (registerWorld.registerRecipe 0 lostRegistration).map (fun result => result.2.recipesIn) =
      some [(5, 0)] := by decide +kernel
  obtain ⟨⟨ok, w'⟩, hCall, rfl⟩ := Option.map_eq_some_iff.mp hOk
  rw [hCall] at hMap
  exact ⟨w', hCall, Option.some.inj hMap⟩

theorem reachable_registerWorld : Reachable registerWorld := by
  refine ⟨fresh ⟨fun _ => 0, []⟩ fun _ => 0, [.recipe 0 .dirInput, .recipe 0 (.addField (text "input_int_register_0") 8)],
    fun _ => rfl, ?_⟩
  rw [registerWorld, ← setRecipe_setRecipe _ 0 (RtdeRecipe.afterCalls ⟨fun _ => 0, []⟩ [.dirInput])]
  exact .cons (.recipe _ 0 (by simp)) (.cons (.recipe _ 0 (by simp)) (.nil _))

/-- The controller answers that the variable is not known. -/
def unknownVariable : Registration where
  exchange := ⟨23, some ([0, 13, 73, 5] ++ text "NOT_FOUND")⟩
  order := .asInserted
  initialSend := 1

set_option maxRecDepth 100000 in
theorem registerRecipe_undone_iff_lost :
    (∃ w', registerWorld.registerRecipe 0 lostRegistration = some (false, w') ∧ ¬ registerWorld.Undone 0 w') ∧
      ∃ w', registerWorld.registerRecipe 0 unknownVariable = some (false, w') ∧ registerWorld.Undone 0 w' := by
  constructor
  · obtain ⟨w', hCall, -⟩ := registerWorld_lost
    refine ⟨w', hCall, fun hUndone => ?_⟩
    have hNone := ((registerRecipe_undone_iff reachable_registerWorld hCall).mp (fun _ => hUndone) _ rfl).1
    exact hNone ⟨rfl, rfl, by decide +kernel, fun hSent => absurd hSent.1 (by decide), fun h => Bool.false_ne_true h.1⟩
  · have hOk : (registerWorld.registerRecipe 0 unknownVariable).map Prod.fst = some false := by decide +kernel
    obtain ⟨⟨ok, w'⟩, hCall, rfl⟩ := Option.map_eq_some_iff.mp hOk
    refine ⟨w', hCall, (registerRecipe_undone_iff reachable_registerWorld hCall).mpr ?_ rfl⟩
    intro resp hAnswer
    obtain rfl := Option.some.inj hAnswer
    refine ⟨fun hStranded => absurd hStranded.accepted (by decide +kernel), fun _ => ?_⟩
    exact ⟨iff_of_false (by decide) (by decide), fun hType => absurd hType (by decide)⟩

/-- The registration fails, and the handler has filed the recipe. -/
theorem failed_registration_is_filed : ¬ ∀ (w w' : World) (i : Nat) (g : Registration), Reachable w →
    w.registerRecipe i g = some (false, w') → w.Undone i w' := by
  intro h
  obtain ⟨w', hCall, hFiled⟩ := registerWorld_lost
  have hSame := (h _ _ _ _ reachable_registerWorld hCall).recipesIn
  rw [hFiled] at hSame
  cases hSame

end World

end LibUrx.Rtde
