import LibUrx.Rtde.Reach
import LibUrx.Rtde.StartStop

/-! # Buffers that agree in front

What an operation of the handler does is decided by the cells in front of what it looks at: over two buffers that agree
on these it does the same, and leaves two buffers that agree on them and on what the read has written.
-/
namespace LibUrx.Rtde
open Bytes Text
set_option autoImplicit false

def SameFront (k : Nat) (b b' : Buf) : Prop := ∀ i < k, b i = b' i

variable {k : Nat} {b b' : Buf}

theorem SameFront.mono {n : Nat} (h : SameFront k b b') (hLe : n ≤ k) : SameFront n b b' :=
  fun i hLt => h i (hLt.trans_le hLe)

/-- A read makes two buffers agree on what it writes. -/
theorem SameFront.doRecv (h : SameFront k b b') (rsz : Nat) (bytes : List UInt8) :
    SameFront (max k (min rsz (bytes.length + 1))) (doRecv b rsz (some bytes)).2 (doRecv b' rsz (some bytes)).2 := by
  have hLength : (bytes.take rsz).length = min rsz bytes.length := List.length_take ..
  intro i hLt
  cases Nat.lt_or_ge i rsz with
  | inl hInside =>
    cases Nat.lt_or_ge (bytes.take rsz).length i with
    | inl hAfter =>
      rw [doRecv_byte_of_gt b hAfter, doRecv_byte_of_gt b' hAfter]
      exact h i (by omega)
    | inr hRead => rw [doRecv_known b hRead hInside, doRecv_known b' hRead hInside]
  | inr hBeyond =>
    rw [doRecv_beyond bytes b hBeyond, doRecv_beyond bytes b' hBeyond]
    exact h i (by omega)

theorem SameFront.exchange (h : SameFront k b b') (rsz : Nat) (x : Exchange) :
    (doSendRecv b rsz x).1 = (doSendRecv b' rsz x).1 ∧
      SameFront (max k (filledBy rsz x)) (doSendRecv b rsz x).2 (doSendRecv b' rsz x).2 := by
  obtain ⟨sendCode, reply⟩ := x
  rw [filledBy, doSendRecv, doSendRecv]
  dsimp only
  split
  · exact ⟨rfl, h.mono (max_le le_rfl (Nat.zero_le k))⟩
  · cases reply with
    | none => exact ⟨rfl, h.mono (max_le le_rfl (Nat.zero_le k))⟩
    | some bytes => exact ⟨rfl, h.doRecv rsz bytes⟩

theorem SameFront.patch (h : SameFront k b b') (o : Nat) (bytes : List UInt8) :
    SameFront k (patch b o bytes) (patch b' o bytes) := by
  intro i hLt
  rw [Bytes.patch, Bytes.patch, h i hLt]

namespace World

/-- The handler, with something else in its buffer. -/
def holding (w : World) (b : Buf) : World := { w with buffer := b }

variable {w w' : World} {i : Nat} {g : Registration} {x : Exchange} {ok : Bool}

theorem answer_holding (h : SameFront k w.buffer b) (x : Exchange) :
    (w.answer x = none ∧ (w.holding b).answer x = none) ∨
      ∃ resp resp', w.answer x = some resp ∧ (w.holding b).answer x = some resp' ∧
        SameFront (max k (filledBy packetBytes x)) resp resp' := by
  obtain ⟨hCode, hFront⟩ := h.exchange packetBytes x
  have hOver : (w.holding b).buffer = b := rfl
  simp only [answer, hOver, ← hCode]
  split
  · exact Or.inl ⟨rfl, rfl⟩
  · exact Or.inr ⟨_, _, rfl, rfl, hFront.patch _ _⟩

theorem filledBy_of_unanswered (h : w.answer x = none) (rsz : Nat) : filledBy rsz x = 0 := by
  obtain ⟨sendCode, reply⟩ := x
  rw [filledBy]
  split
  · rfl
  · rename_i hSent
    cases reply with
    | none => rfl
    | some bytes =>
      simp only [answer, doSendRecv, if_neg hSent, doRecv_some] at h
      split at h
      · omega
      · cases h

theorem four_lt_registerReach {r : RtdeRecipe} {resp : Buf} (h : (r.registerResponse resp).1 = true) :
    4 < registerReach resp := by
  obtain ⟨hHead, hScan, -⟩ := (r.registerResponse_true_iff resp).mp h
  rw [registerReach_of_head hHead, if_pos hScan]
  omega

theorem insert_send_holding (w : World) (b : Buf) (order : MapOrder) (id : Int) (i : Nat) (sendCode : Int) :
    ((w.holding b).insertRecipe order id i).send id sendCode =
      (((w.insertRecipe order id i).send id sendCode).1,
        ((w.insertRecipe order id i).send id sendCode).2.holding b) := by
  rw [holding, insertRecipe_buffer, send_buffer]
  rfl

/-- A registration whose check stays in front does the same over both buffers. -/
theorem registerRecipe_holding (h : SameFront k w.buffer b)
    (hSeen : ∀ resp, w.answer g.exchange = some resp → registerReach resp ≤ max k (filledBy packetBytes g.exchange))
    (hDone : w.registerRecipe i g = some (ok, w')) :
    ∃ b', SameFront (max k (filledBy packetBytes g.exchange)) w'.buffer b' ∧
      (w.holding b).registerRecipe i g = some (ok, w'.holding b') := by
  obtain ⟨packet, r, hMsg, -⟩ := registerRecipe_cases hDone
  have hMsg' : ((w.holding b).recipes i).getMsg = some (packet, r) := hMsg
  rcases answer_holding h g.exchange with ⟨hNone, hNone'⟩ | ⟨resp, resp', hAnswer, hAnswer', hFront⟩
  · rw [registerRecipe_unanswered hMsg hNone] at hDone
    obtain ⟨rfl, rfl⟩ := Prod.mk.inj (Option.some.inj hDone)
    rw [filledBy_of_unanswered hNone packetBytes]
    exact ⟨b, h.mono (max_le le_rfl (Nat.zero_le k)), registerRecipe_unanswered hMsg' hNone'⟩
  · have hReach := hSeen resp hAnswer
    have hChecked : (r.registerResponse resp).1 = (r.registerResponse resp').1 :=
      r.registerResponse_of_reach (hFront.mono hReach)
    rw [registerRecipe_answered hMsg hAnswer] at hDone
    rw [registerRecipe_answered hMsg' hAnswer', ← hChecked]
    have hEnd := Option.some.inj hDone
    cases hTaken : (r.registerResponse resp).1 with
    | false =>
      rw [if_pos hTaken] at hEnd
      obtain ⟨rfl, rfl⟩ := Prod.mk.inj hEnd
      exact ⟨resp', hFront, rfl⟩
    | true =>
      -- the id stands within what an accepted answer has been looked at
      have hLong := four_lt_registerReach hTaken
      have hId : hdrRecipeId resp = hdrRecipeId resp' := hFront 3 (by omega)
      have hAccepted : r.accepted resp = r.accepted resp' := by
        rw [RtdeRecipe.accepted, hId]
        rfl
      simp only [hTaken, Bool.true_eq_false, if_false] at hEnd
      rw [← hId, ← hAccepted]
      cases hDir : r.dirOut with
      | true =>
        rw [if_pos hDir] at hEnd
        obtain ⟨rfl, rfl⟩ := Prod.mk.inj hEnd
        exact ⟨resp', hFront, rfl⟩
      | false =>
        rw [if_neg (by simp [hDir])] at hEnd
        have hWorld : w' = _ := (congrArg Prod.snd hEnd).symm
        have hBuffer : w'.buffer = resp := by
          rw [hWorld, buffer_send, buffer_insertRecipe]
          rfl
        refine ⟨resp', hBuffer ▸ hFront, ?_⟩
        have hSend := insert_send_holding (w.asked i (r.accepted resp) packet resp) resp' g.order
          (hdrRecipeId resp).toNat i g.initialSend
        rw [hEnd] at hSend
        exact congrArg some hSend

/-- What an operation returns that ends with the check of a short reply. -/
def shortAnswer (type : UInt8) (rsz : Nat) (x : Exchange) (b : Buf) : Bool :=
  decide (0 ≤ (doSendRecv b rsz x).1) && shortReply type (doSendRecv b rsz x).2

theorem shortAnswer_front {type : UInt8} {rsz : Nat} (h : SameFront k b b')
    (hSeen : 0 ≤ (doSendRecv b rsz x).1 →
      shortReach type (doSendRecv b rsz x).2 ≤ max k (filledBy rsz x)) :
    shortAnswer type rsz x b = shortAnswer type rsz x b' := by
  obtain ⟨hCode, hFront⟩ := h.exchange rsz x
  rw [shortAnswer, shortAnswer, ← hCode]
  by_cases hGot : 0 ≤ (doSendRecv b rsz x).1
  · rw [shortReply_of_reach (hFront.mono (hSeen hGot))]
  · rw [decide_eq_false hGot, Bool.false_and, Bool.false_and]

theorem shortAnswer_lost {type : UInt8} {rsz : Nat} (h : (doSendRecv b rsz x).1 < 0) :
    shortAnswer type rsz x b = false := by
  rw [shortAnswer, decide_eq_false (not_le.mpr h), Bool.false_and]

theorem shortAnswer_got {type : UInt8} {rsz : Nat} (h : ¬ (doSendRecv b rsz x).1 < 0) :
    shortAnswer type rsz x b = shortReply type (doSendRecv b rsz x).2 := by
  rw [shortAnswer, decide_eq_true (not_lt.mp h), Bool.true_and]

theorem checked_answer (w : World) (packet : Buf) (x : Exchange) :
    (w.checked packet x).1 = shortAnswer PackageType.start.code 4 x w.buffer := by
  unfold checked World.exchange
  dsimp only
  split
  · exact (shortAnswer_lost ‹_›).symm
  · rw [shortAnswer_got ‹_›]
    cases hValid : rtdeControlPackageSpRespValidate (doSendRecv w.buffer 4 x).2 true with
    | false => simp_all [shortReply, rtdeControlPackageSpRespValidate]
    | true => simp_all [shortReply, rtdeControlPackageSpRespValidate]

theorem setVersion_answer (w : World) (x : Exchange) :
    (w.setVersion x).1 = shortAnswer PackageType.requestProtocolVersion.code 1024 x w.buffer := by
  unfold setVersion World.exchange
  dsimp only
  split
  · exact (shortAnswer_lost ‹_›).symm
  · rw [shortAnswer_got ‹_›]
    rfl

/-- What `start` and `stop` return is decided by what has been written, if their check looks at nothing else. -/
theorem checked_fst_holding (packet : Buf) (h : SameFront k w.buffer b) (hSeen : 0 ≤ (doSendRecv w.buffer 4 x).1 →
      shortReach PackageType.start.code (doSendRecv w.buffer 4 x).2 ≤ max k (filledBy 4 x)) :
    ((w.holding b).checked packet x).1 = (w.checked packet x).1 := by
  rw [checked_answer, checked_answer, shortAnswer_front h hSeen]
  rfl

theorem setVersion_fst_holding (h : SameFront k w.buffer b) (hSeen : 0 ≤ (doSendRecv w.buffer 1024 x).1 →
      shortReach PackageType.requestProtocolVersion.code (doSendRecv w.buffer 1024 x).2 ≤ max k (filledBy 1024 x)) :
    ((w.holding b).setVersion x).1 = (w.setVersion x).1 := by
  rw [setVersion_answer, setVersion_answer, shortAnswer_front h hSeen]
  rfl

theorem start_holding (w : World) (b : Buf) (x : Exchange) :
    ((w.holding b).start x).2 = (w.start x).2.holding (doSendRecv b 4 x).2 := by
  rw [start_world, start_world]
  rfl

theorem stop_holding (w : World) (b : Buf) (x : Exchange) :
    ((w.holding b).stop x).2 = (w.stop x).2.holding (doSendRecv b 4 x).2 := by
  rw [stop_world, stop_world]
  rfl

theorem setVersion_holding (w : World) (b : Buf) (x : Exchange) :
    ((w.holding b).setVersion x).2 = (w.setVersion x).2.holding (doSendRecv b 1024 x).2 := by
  rw [setVersion_world, setVersion_world]
  rfl

/-- Where a package comes whole if it is taken, the head and the package are all that decides. -/
theorem parseIncomingData_front {data data' : Buf} (hOut : ∀ i, w.out = some i →
      (w.recipes i).Formed ∧ (w.recipes i).Bounded ∧ (w.recipes i).dirOut = true) (hHead : SameFront 4 data data')
    (hWhole : ∀ i, w.out = some i → Accepts (w.recipes i) data → SameFront (4 + (w.recipes i).expectedBytes) data data')
    (ts : UInt64) :
    w.parseIncomingData data' ts = (w.parseIncomingData data ts).map fun p => (p.1, data', p.2.2) := by
  cases hSource : w.out with
  | none =>
    have hSame : rtdeParseDataPackage data' = rtdeParseDataPackage data := by
      rw [Bool.eq_iff_iff, rtdeParseDataPackage_iff, rtdeParseDataPackage_iff]
      rw [hdrRecipeId, hdrRecipeId, hdrType, hdrType, ← hHead 3 (by decide), ← hHead 2 (by decide),
        hdrSize_congr (hHead 0 (by decide)) (hHead 1 (by decide))]
    rw [parseIncomingData_none hSource, parseIncomingData_none hSource, hSame]
    split <;> rfl
  | some i =>
    obtain ⟨hFormed, hBounded, hDir⟩ := hOut i hSource
    cases Classical.em (Accepts (w.recipes i) data) with
    | inl hAccepts =>
      rw [parseIncomingData_accepted hSource hFormed hDir hAccepts,
        parseIncomingData_accepted hSource hFormed hDir (hAccepts.congr hHead),
        RtdeRecipe.parsedMemory_congr hBounded hFormed (hWhole i hSource hAccepts)]
      rfl
    | inr hRefuses =>
      have hRefuses' : ¬ Accepts (w.recipes i) data' :=
        fun hAccepts => hRefuses (hAccepts.congr fun j hLt => (hHead j hLt).symm)
      rw [parseIncomingData_refused hSource hRefuses, parseIncomingData_refused hSource hRefuses']
      rfl

/-- A read that brings the head, and the whole package where it takes one, does the same over both buffers. -/
theorem recv_holding (h : SameFront k w.buffer b) (hOut : ∀ i, w.out = some i →
      (w.recipes i).Formed ∧ (w.recipes i).Bounded ∧ (w.recipes i).dirOut = true) {bytes : List UInt8} {ts : UInt64}
    (hHead : 4 ≤ max k (min packetBytes (bytes.length + 1)))
    (hWhole : ∀ i, w.out = some i → Accepts (w.recipes i) (readOver packetBytes bytes w.buffer) →
      4 + (w.recipes i).expectedBytes ≤ (bytes.take packetBytes).length)
    (hDone : w.recv (some bytes) ts = some (ok, w')) :
    SameFront (max k (min packetBytes (bytes.length + 1))) w'.buffer (readOver packetBytes bytes b) ∧
      (w.holding b).recv (some bytes) ts = some (ok, w'.holding (readOver packetBytes bytes b)) := by
  have hFront : SameFront (max k (min packetBytes (bytes.length + 1))) (readOver packetBytes bytes w.buffer)
      (readOver packetBytes bytes b) := h.doRecv packetBytes bytes
  have hInside {n : Nat} (hLe : n ≤ (bytes.take packetBytes).length) : n ≤ min packetBytes (bytes.length + 1) := by
    rw [List.length_take] at hLe
    omega
  have hSame : w.parseIncomingData (readOver packetBytes bytes w.buffer) ts =
      (w.parseIncomingData (readOver packetBytes bytes w.buffer) ts).map fun p =>
        (p.1, readOver packetBytes bytes w.buffer, p.2.2) :=
    parseIncomingData_front hOut (fun _ _ => rfl) (fun _ _ _ _ _ => rfl) ts
  have hOver := parseIncomingData_front hOut (hFront.mono hHead)
    (fun i hSource hAccepts => hFront.mono (le_max_of_le_right (hInside (hWhole i hSource hAccepts)))) ts
  rw [recv_some] at hDone
  obtain ⟨⟨taken, data, mem⟩, hParse, hEnd⟩ := Option.map_eq_some_iff.mp hDone
  change w.parseIncomingData (readOver packetBytes bytes w.buffer) ts = _ at hParse
  obtain ⟨rfl, rfl⟩ := Prod.mk.inj hEnd
  rw [hParse] at hSame hOver
  have hData : data = readOver packetBytes bytes w.buffer :=
    congrArg (fun p => p.2.1) (Option.some.inj hSame)
  refine ⟨hData ▸ hFront, ?_⟩
  rw [recv_some]
  change Option.map _ (w.parseIncomingData (readOver packetBytes bytes b) ts) = _
  rw [hOver]
  rfl

end World

end LibUrx.Rtde
