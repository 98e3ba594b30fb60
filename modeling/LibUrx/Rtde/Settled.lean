import LibUrx.Rtde.StaleAnswer

/-! # Which replies settle their operation

For every operation that reads a reply: the replies on which the earlier content of the buffer makes
no difference.
-/
namespace LibUrx.Rtde
open Bytes Text
set_option autoImplicit false

def completed (bytes : List UInt8) (c : UInt8) : Buf := fun i =>
  if i ≤ (bytes.take packetBytes).length then ofBytes (bytes.take packetBytes) i else c

def HeadValid (buf : Buf) : Prop :=
  (basicHdrValidate buf .setupOutputs || basicHdrValidate buf .setupInputs) = true

/-- What arrived is enough to judge the answer. -/
def RegisterCovered (w : World) (i : Nat) (bytes : List UInt8) : Prop :=
  let r := w.recipes i
  let n := (bytes.take packetBytes).length
  let known := ofBytes (bytes.take packetBytes)
  r.getMsg ≠ none →
    (n = 0 → ¬ r.Answerable 4) ∧
    (n = 1 → ¬ r.Answerable (256 * (known 0).toNat)) ∧
    (n = 3 → HeadValid known → r.Answerable (hdrSize known) → w.Unnoticed i 0) ∧
    (4 ≤ n → n < hdrSize known → (r.registerResponse (completed bytes 65)).1 = true →
      hdrSize known = n + 1 ∧ (r.registerResponse known).1 = true ∨ w.Unnoticed i (hdrRecipeId known).toNat)

section Answer

variable (bytes : List UInt8) (b b' : Buf)

theorem answerOver_known {i : Nat} (hLe : i ≤ (bytes.take packetBytes).length) (hLt : i < packetBytes - 1) :
    answerOver bytes b i = ofBytes (bytes.take packetBytes) i := by
  rcases Nat.eq_or_lt_of_le hLe with rfl | hBefore
  · have hMin : min (bytes.take packetBytes).length (packetBytes - 1) = (bytes.take packetBytes).length := by omega
    rw [answerOver, hMin, ofBytes_of_le le_rfl]
    simp [patch]
  · rw [answerOver, patch_outside (Or.inl (by omega)), readOver_known packetBytes bytes b hLe (by omega)]

theorem answerOver_end : answerOver bytes b (min (bytes.take packetBytes).length (packetBytes - 1)) = 0 := by
  simp [answerOver, patch]

theorem answerOver_fill (w : World) (f : Nat → UInt8) {i : Nat} (hGt : (bytes.take packetBytes).length < i)
    (hLt : i < packetBytes) : answerOver bytes (fill w f) i = f i := by
  rw [answerOver, patch_outside (Or.inr (by simp only [List.length_singleton]; omega)),
    readOver_fill packetBytes bytes hGt hLt]

theorem answerOver_same {i : Nat} (hLe : i ≤ (bytes.take packetBytes).length) (hLt : i < packetBytes) :
    answerOver bytes b i = answerOver bytes b' i := by
  cases Nat.lt_or_ge i (packetBytes - 1) with
  | inl hBefore => rw [answerOver_known bytes b hLe hBefore, answerOver_known bytes b' hLe hBefore]
  | inr hEnd =>
    have hMin : min (bytes.take packetBytes).length (packetBytes - 1) = i := by omega
    have hZero := answerOver_end bytes b
    have hZero' := answerOver_end bytes b'
    rw [hMin] at hZero hZero'
    rw [hZero, hZero']

theorem respVariables_answerOver (hMany : 4 ≤ (bytes.take packetBytes).length) :
    respVariables (answerOver bytes b) = respVariables (answerOver bytes b') := by
  have hPos : 4 < packetBytes - 1 := by decide
  refine cStr_slice_congr (min (bytes.take packetBytes).length (packetBytes - 1)) (by omega)
    (answerOver_end bytes b) (fun i hlo hhi => answerOver_same bytes b b' (by omega) (by omega)) (by omega)

theorem completed_zero : completed bytes 0 = ofBytes (bytes.take packetBytes) := by
  funext i
  rw [completed]
  split
  · rfl
  · exact (ofBytes_of_le (by omega)).symm

theorem answerOver_completed (w : World) (c : UInt8) (hShort : (bytes.take packetBytes).length < packetBytes - 1)
    {i : Nat} (hLt : i < packetBytes) : answerOver bytes (fill w fun _ => c) i = completed bytes c i := by
  cases Nat.lt_or_ge (bytes.take packetBytes).length i with
  | inl hGt => rw [answerOver_fill bytes w _ hGt hLt, completed, if_neg (by omega)]
  | inr hLe => rw [answerOver_known bytes _ hLe (by omega), completed, if_pos hLe]

end Answer

theorem headValid_iff (buf : Buf) : HeadValid buf ↔ 3 ≤ hdrSize buf ∧ hdrSize buf ≤ 2000 ∧
    (buf 2 = PackageType.setupOutputs.code ∨ buf 2 = PackageType.setupInputs.code) := by
  simp only [HeadValid, basicHdrValidate, hdrType, Bool.or_eq_true, Bool.and_eq_true, decide_eq_true_eq,
    beq_iff_eq]
  constructor
  · rintro (⟨⟨hLo, hHi⟩, hType⟩ | ⟨⟨hLo, hHi⟩, hType⟩)
    · exact ⟨hLo, hHi, Or.inl hType⟩
    · exact ⟨hLo, hHi, Or.inr hType⟩
  · rintro ⟨hLo, hHi, hType | hType⟩
    · exact Or.inl ⟨⟨hLo, hHi⟩, hType⟩
    · exact Or.inr ⟨⟨hLo, hHi⟩, hType⟩

theorem respVariables_congr {buf buf' : Buf} (h : ∀ i, 4 ≤ i → i < packetBytes → buf i = buf' i) :
    respVariables buf = respVariables buf' := by
  have hSlice : slice buf 4 (packetBytes - 4) = slice buf' 4 (packetBytes - 4) :=
    slice_congr fun i hlo hhi => h i hlo (by omega)
  rw [respVariables, respVariables, hSlice]

theorem respVariables_nil {buf : Buf} (h : buf 4 = 0) : respVariables buf = [] := by
  have hSplit : slice buf 4 (packetBytes - 4) = slice buf 4 1 ++ slice buf 5 2043 := slice_add buf 4 1 2043
  rw [respVariables, hSplit]
  simp [cStr, slice, h]

namespace RtdeRecipe

theorem registerResponse_true_iff (r : RtdeRecipe) (buf : Buf) : (r.registerResponse buf).1 = true ↔
    HeadValid buf ∧ scanTypes buf (hdrSize buf) (hdrSize buf) 4 4 = true ∧ r.Named (respVariables buf) := by
  rw [registerResponse_iff, rtdeControlPackageRespValidate, Bool.and_eq_true, Nat.add_sub_cancel_left, and_assoc]
  rfl

theorem registerResponse_of_head {r : RtdeRecipe} {buf buf' : Buf} (hSize : hdrSize buf' = hdrSize buf)
    (hType : buf' 2 = PackageType.setupOutputs.code ∨ buf' 2 = PackageType.setupInputs.code)
    (h : ∀ i, 4 ≤ i → i < packetBytes → buf i = buf' i) (hTaken : (r.registerResponse buf).1 = true) :
    (r.registerResponse buf').1 = true := by
  obtain ⟨hHead, hScan, hNamed⟩ := (r.registerResponse_true_iff buf).mp hTaken
  obtain ⟨hLo, hHi, -⟩ := (headValid_iff buf).mp hHead
  have hInside : hdrSize buf < packetBytes := by
    unfold packetBytes
    omega
  refine (r.registerResponse_true_iff buf').mpr ⟨(headValid_iff buf').mpr ⟨by omega, by omega, hType⟩, ?_, ?_⟩
  · rwa [hSize, ← scanTypes_congr (fun i hlo hhi => h i hlo (by omega))]
  · rwa [← respVariables_congr h]

theorem answerable_four {r : RtdeRecipe} {buf : Buf} (hTaken : (r.registerResponse buf).1 = true) :
    r.Answerable 4 := by
  obtain ⟨hHead, -, hNamed⟩ := (r.registerResponse_true_iff buf).mp hTaken
  obtain ⟨-, -, hType⟩ := (headValid_iff buf).mp hHead
  have hSize : hdrSize (putSize buf 4) = 4 := hdrSize_putSize buf 4
  have hByte : putSize buf 4 2 = buf 2 := putSize_of_le buf 4 le_rfl
  refine ⟨putSize buf 4, hSize, (r.registerResponse_true_iff _).mpr ⟨(headValid_iff _).mpr ?_, ?_, ?_⟩⟩
  · rw [hSize, hByte]
    exact ⟨by decide, by decide, hType⟩
  · exact scanTypes_done (by rw [hSize])
  · rwa [respVariables_congr fun i hlo _ => putSize_of_le buf 4 (by omega)]

theorem not_named_nil {r r' : RtdeRecipe} {packet : Buf} (hMsg : r.getMsg = some (packet, r')) : ¬ r.Named [] := by
  rintro ⟨hLength, -⟩
  have hFields : r.fields = [] := List.eq_nil_of_length_eq_zero hLength.symm
  simp [getMsg, getFields, hFields] at hMsg

end RtdeRecipe

namespace ReplyOp

section Register

variable {w : World} {sent : Nat} {bytes : List UInt8} {i : Nat} {order : MapOrder} {initialSend : Int}
  {packet : Buf} {r : RtdeRecipe}

theorem registerRecipe_settled_none (hMsg : (w.recipes i).getMsg = none) :
    (registerRecipe i order initialSend).Settled w sent bytes := by
  intro b b' _
  simp only [outcome, run, World.registerRecipe, hMsg]

theorem registerRecipe_taken (hMsg : (w.recipes i).getMsg = some (packet, r)) {b : Buf}
    (hTaken : ((w.recipes i).registerResponse (answerOver bytes b)).1 = true) :
    (registerRecipe i order initialSend).outcome { w with buffer := b } sent bytes =
      some ((w.taken i r packet (hdrRecipeId (answerOver bytes b)).toNat order initialSend).1, none,
        (w.taken i r packet (hdrRecipeId (answerOver bytes b)).toNat order initialSend).2) := by
  obtain ⟨cpo, cpi, hSame⟩ := RtdeRecipe.getMsg_eq_some hMsg
  rw [registerRecipe_outcome w sent bytes hMsg, if_pos]
  rwa [hSame, RtdeRecipe.registerResponse_congr]

theorem registerRecipe_refused (hMsg : (w.recipes i).getMsg = some (packet, r)) {b : Buf}
    (hRefused : ((w.recipes i).registerResponse (answerOver bytes b)).1 = false) :
    (registerRecipe i order initialSend).outcome { w with buffer := b } sent bytes =
      some (false, none, w.asked i r packet fun _ => 0) := by
  obtain ⟨cpo, cpi, hSame⟩ := RtdeRecipe.getMsg_eq_some hMsg
  rw [registerRecipe_outcome w sent bytes hMsg, if_neg]
  rw [hSame, RtdeRecipe.registerResponse_congr, hRefused]
  exact Bool.false_ne_true

/-- The earlier content may decide about an answer only where nobody notices. -/
theorem unnoticed_of_settled (hMsg : (w.recipes i).getMsg = some (packet, r))
    (hSettled : (registerRecipe i order initialSend).Settled w sent bytes) {b b' : Buf}
    (hSame : ∀ j, packetBytes ≤ j → b j = b' j)
    (hTaken : ((w.recipes i).registerResponse (answerOver bytes b)).1 = true)
    (hRefused : ((w.recipes i).registerResponse (answerOver bytes b')).1 = false) :
    w.Unnoticed i (hdrRecipeId (answerOver bytes b)).toNat := by
  have hEq := hSettled b b' hSame
  rw [registerRecipe_taken hMsg hTaken, registerRecipe_refused hMsg hRefused] at hEq
  obtain ⟨hOk, hRest⟩ := Prod.mk.inj (Option.some.inj hEq)
  exact (World.taken_eq_refused_iff hMsg _ order initialSend).mp (Prod.ext hOk (Prod.mk.inj hRest).2)

theorem settled_of_unnoticed (hMsg : (w.recipes i).getMsg = some (packet, r))
    (h : ∀ b, ((w.recipes i).registerResponse (answerOver bytes b)).1 = true →
      w.Unnoticed i (hdrRecipeId (answerOver bytes b)).toNat) :
    (registerRecipe i order initialSend).Settled w sent bytes := by
  have hOutcome (b : Buf) : (registerRecipe i order initialSend).outcome { w with buffer := b } sent bytes =
      some (false, none, w.asked i r packet fun _ => 0) := by
    cases hTaken : ((w.recipes i).registerResponse (answerOver bytes b)).1 with
    | false => exact registerRecipe_refused hMsg hTaken
    | true =>
      rw [registerRecipe_taken hMsg hTaken, (World.taken_eq_refused_iff hMsg _ order initialSend).mpr (h b hTaken)]
  intro b b' _
  rw [hOutcome b, hOutcome b']

theorem settled_of_refused (hMsg : (w.recipes i).getMsg = some (packet, r))
    (h : ∀ b, ¬ ((w.recipes i).registerResponse (answerOver bytes b)).1 = true) :
    (registerRecipe i order initialSend).Settled w sent bytes :=
  settled_of_unnoticed hMsg fun b hTaken => absurd hTaken (h b)

theorem settled_of_same (hMsg : (w.recipes i).getMsg = some (packet, r))
    (h : ∀ b b', ((w.recipes i).registerResponse (answerOver bytes b)).1 =
      ((w.recipes i).registerResponse (answerOver bytes b')).1)
    (hId : ∀ b b', hdrRecipeId (answerOver bytes b) = hdrRecipeId (answerOver bytes b')) :
    (registerRecipe i order initialSend).Settled w sent bytes := by
  intro b b' _
  cases hTaken : ((w.recipes i).registerResponse (answerOver bytes b)).1 with
  | false => rw [registerRecipe_refused hMsg hTaken, registerRecipe_refused hMsg ((h b' b).trans hTaken)]
  | true => rw [registerRecipe_taken hMsg hTaken, registerRecipe_taken hMsg ((h b' b).trans hTaken), hId b b']

theorem refused_of_type {r : RtdeRecipe} {buf : Buf} (hType : buf 2 = 0) : (r.registerResponse buf).1 = false := by
  rw [← Bool.not_eq_true, r.registerResponse_true_iff]
  rintro ⟨hHead, -, -⟩
  obtain ⟨-, -, hCode⟩ := (headValid_iff buf).mp hHead
  rw [hType] at hCode
  rcases hCode with hCode | hCode <;> cases hCode

theorem not_answerable_of_settled (hMsg : (w.recipes i).getMsg = some (packet, r))
    (hSettled : (registerRecipe i order initialSend).Settled w sent bytes)
    (hFew : (bytes.take packetBytes).length ≤ 1) (second : UInt8) {size : Nat}
    (hSize : ∀ f : Nat → UInt8, f 1 = second → hdrSize (answerOver bytes (fill w f)) = size) :
    ¬ (w.recipes i).Answerable size := by
  rintro ⟨resp, hRespSize, hTaken⟩
  obtain ⟨hHead, -, -⟩ := ((w.recipes i).registerResponse_true_iff resp).mp hTaken
  obtain ⟨-, -, hType⟩ := (headValid_iff resp).mp hHead
  obtain ⟨id, hId⟩ : ∃ id : UInt8, (w.recipes i).recipeId ≠ id.toNat := by
    cases eq_or_ne (w.recipes i).recipeId 0 with
    | inl hZero => exact ⟨1, by rw [hZero]; decide⟩
    | inr hNonzero => exact ⟨0, by simpa using hNonzero⟩
  have hBytes (f : Nat → UInt8) {j : Nat} (hlo : 2 ≤ j) (hhi : j < packetBytes) : answerOver bytes (fill w f) j = f j :=
    answerOver_fill bytes w f (by omega) hhi
  have hMade : ((w.recipes i).registerResponse (answerOver bytes (fill w fun j =>
      if j = 1 then second else if j = 3 then id else resp j))).1 = true := by
    refine RtdeRecipe.registerResponse_of_head ((hSize _ rfl).trans hRespSize.symm) ?_ (fun j hlo hhi => ?_) hTaken
    · rw [hBytes _ le_rfl (by decide)]
      exact hType
    · rw [hBytes _ (by omega) hhi, if_neg (by omega), if_neg (by omega)]
  have hUndone : ((w.recipes i).registerResponse (answerOver bytes (fill w fun _ => 0))).1 = false :=
    refused_of_type (hBytes _ le_rfl (by decide))
  obtain ⟨-, -, hSame, -⟩ := unnoticed_of_settled hMsg hSettled (fill_beyond w _ _) hMade hUndone
  refine hId (hSame.trans ?_)
  rw [hdrRecipeId, hBytes _ (by decide) (by decide)]
  rfl

theorem registerRecipe_settled_zero (hMsg : (w.recipes i).getMsg = some (packet, r))
    (hNone : (bytes.take packetBytes).length = 0) :
    (registerRecipe i order initialSend).Settled w sent bytes ↔ ¬ (w.recipes i).Answerable 4 := by
  constructor
  · intro hSettled
    apply not_answerable_of_settled hMsg hSettled (by omega) 4
    intro f hSecond
    have hFirst : answerOver bytes (fill w f) 0 = 0 := by
      rw [answerOver_known bytes _ (Nat.zero_le _) (by decide), ofBytes_of_le (by omega)]
    rw [hdrSize_eq, hFirst, answerOver_fill bytes w f (by omega) (by decide), hSecond]
    rfl
  · intro hNot
    exact settled_of_refused hMsg fun b hTaken => hNot (RtdeRecipe.answerable_four hTaken)

theorem registerRecipe_settled_one (hMsg : (w.recipes i).getMsg = some (packet, r))
    (hOne : (bytes.take packetBytes).length = 1) : (registerRecipe i order initialSend).Settled w sent bytes ↔
      ¬ (w.recipes i).Answerable (256 * (ofBytes (bytes.take packetBytes) 0).toNat) := by
  have hSize (b : Buf) : hdrSize (answerOver bytes b) = 256 * (ofBytes (bytes.take packetBytes) 0).toNat := by
    rw [hdrSize_eq, answerOver_known bytes b (Nat.zero_le _) (by decide),
      answerOver_known bytes b (by omega) (by decide), ofBytes_of_le hOne.le]
    rfl
  constructor
  · intro hSettled
    exact not_answerable_of_settled hMsg hSettled hOne.le 0 fun f _ => hSize _
  · intro hNot
    exact settled_of_refused hMsg fun b hTaken => hNot ⟨_, hSize b, hTaken⟩

theorem registerRecipe_settled_two (hMsg : (w.recipes i).getMsg = some (packet, r))
    (hTwo : (bytes.take packetBytes).length = 2) : (registerRecipe i order initialSend).Settled w sent bytes := by
  apply settled_of_refused hMsg
  intro b
  rw [Bool.not_eq_true]
  apply refused_of_type
  rw [answerOver_known bytes b hTwo.ge (by decide), ofBytes_of_le hTwo.le]

theorem registerRecipe_settled_three (hMsg : (w.recipes i).getMsg = some (packet, r))
    (hThree : (bytes.take packetBytes).length = 3) : (registerRecipe i order initialSend).Settled w sent bytes ↔
      (HeadValid (ofBytes (bytes.take packetBytes)) →
        (w.recipes i).Answerable (hdrSize (ofBytes (bytes.take packetBytes))) → w.Unnoticed i 0) := by
  have hKnown (b : Buf) {j : Nat} (hLe : j ≤ 3) : answerOver bytes b j = ofBytes (bytes.take packetBytes) j :=
    answerOver_known bytes b (by omega) (by unfold packetBytes; omega)
  have hSize (b : Buf) : hdrSize (answerOver bytes b) = hdrSize (ofBytes (bytes.take packetBytes)) :=
    hdrSize_congr (hKnown b (by decide)) (hKnown b (by decide))
  have hId (b : Buf) : (hdrRecipeId (answerOver bytes b)).toNat = 0 := by
    rw [hdrRecipeId, hKnown b le_rfl, ofBytes_of_le hThree.le]
    rfl
  constructor
  · rintro hSettled hHead ⟨resp, hRespSize, hTaken⟩
    obtain ⟨-, -, hType⟩ := (headValid_iff _).mp hHead
    have hMade : ((w.recipes i).registerResponse (answerOver bytes (fill w resp))).1 = true := by
      refine RtdeRecipe.registerResponse_of_head ((hSize _).trans hRespSize.symm) ?_ (fun j hlo hhi => ?_) hTaken
      · rwa [hKnown _ (by decide)]
      · rw [answerOver_fill bytes w resp (by omega) hhi]
    have hUndone : ((w.recipes i).registerResponse (answerOver bytes (fill w fun _ => 0))).1 = false := by
      have hNothing : respVariables (answerOver bytes (fill w fun _ => 0)) = [] :=
        respVariables_nil (answerOver_fill bytes w _ (by omega) (by decide))
      rw [← Bool.not_eq_true, RtdeRecipe.registerResponse_true_iff, hNothing]
      rintro ⟨-, -, hNamed⟩
      exact RtdeRecipe.not_named_nil hMsg hNamed
    have hUnnoticed := unnoticed_of_settled hMsg hSettled (fill_beyond w _ _) hMade hUndone
    rwa [hId] at hUnnoticed
  · intro h
    apply settled_of_unnoticed hMsg
    intro b hTaken
    obtain ⟨hHead, -, -⟩ := (RtdeRecipe.registerResponse_true_iff _ _).mp hTaken
    rw [hId b]
    refine h ((headValid_iff _).mpr ?_) ⟨_, hSize b, hTaken⟩
    have hValid := (headValid_iff _).mp hHead
    rwa [hSize, hKnown b (by decide)] at hValid

theorem registerResponse_completed (w : World) (r : RtdeRecipe) (c : UInt8)
    (hShort : (bytes.take packetBytes).length < packetBytes - 1) :
    (r.registerResponse (completed bytes c)).1 =
      (r.registerResponse (answerOver bytes (fill w fun _ => c))).1 := by
  have hSame {j : Nat} (hLt : j < packetBytes) := answerOver_completed bytes w c hShort hLt
  have hSize := hdrSize_congr (hSame (j := 0) (by decide)) (hSame (by decide))
  have hType := hSame (j := 2) (by decide)
  rw [Bool.eq_iff_iff]
  constructor
  · intro hTaken
    obtain ⟨-, -, hCode⟩ := (headValid_iff _).mp ((RtdeRecipe.registerResponse_true_iff _ _).mp hTaken).1
    exact RtdeRecipe.registerResponse_of_head hSize (by rwa [hType]) (fun j _ hhi => (hSame hhi).symm) hTaken
  · intro hTaken
    obtain ⟨-, -, hCode⟩ := (headValid_iff _).mp ((RtdeRecipe.registerResponse_true_iff _ _).mp hTaken).1
    exact RtdeRecipe.registerResponse_of_head hSize.symm (by rwa [← hType]) (fun j _ hhi => hSame hhi) hTaken

section Many

variable (hMany : 4 ≤ (bytes.take packetBytes).length)

include hMany

theorem hdrSize_answerOver (b : Buf) :
    hdrSize (answerOver bytes b) = hdrSize (ofBytes (bytes.take packetBytes)) :=
  hdrSize_congr (answerOver_known bytes b (by omega) (by decide)) (answerOver_known bytes b (by omega) (by decide))

theorem hdrRecipeId_answerOver (b : Buf) :
    hdrRecipeId (answerOver bytes b) = hdrRecipeId (ofBytes (bytes.take packetBytes)) :=
  answerOver_known bytes b (by omega) (by decide)

theorem headValid_answerOver (b : Buf) :
    HeadValid (answerOver bytes b) ↔ HeadValid (ofBytes (bytes.take packetBytes)) := by
  rw [headValid_iff, headValid_iff, hdrSize_answerOver hMany, answerOver_known bytes b (by omega) (by decide)]

/-- What the buffer makes of the missing bytes is judged by their effect on the scan alone. -/
theorem registerResponse_answerOver (r : RtdeRecipe) (b₀ b : Buf) :
    (r.registerResponse (answerOver bytes b)).1 = true ↔
      HeadValid (ofBytes (bytes.take packetBytes)) ∧
        scanTypes (answerOver bytes b) (hdrSize (ofBytes (bytes.take packetBytes)))
          (hdrSize (ofBytes (bytes.take packetBytes))) 4 4 = true ∧
        r.Named (respVariables (answerOver bytes b₀)) := by
  rw [RtdeRecipe.registerResponse_true_iff, headValid_answerOver hMany, hdrSize_answerOver hMany,
    respVariables_answerOver bytes b b₀ hMany]

theorem registerResponse_whole (r : RtdeRecipe)
    (hWhole : hdrSize (ofBytes (bytes.take packetBytes)) ≤ (bytes.take packetBytes).length) (b b' : Buf) :
    (r.registerResponse (answerOver bytes b)).1 = (r.registerResponse (answerOver bytes b')).1 := by
  have hPacket : packetBytes = 2048 := rfl
  rw [Bool.eq_iff_iff, registerResponse_answerOver hMany r b, registerResponse_answerOver hMany r b]
  refine and_congr_right fun hHead => and_congr_left fun _ => ?_
  obtain ⟨-, hHi, -⟩ := (headValid_iff _).mp hHead
  rw [scanTypes_congr fun j hlo hhi => answerOver_same bytes b b' (by omega) (by omega)]

/-- An item that the buffer ends behind the terminator is no type name. -/
theorem refused_of_comma (hMsg : (w.recipes i).getMsg = some (packet, r))
    (hMissing : (bytes.take packetBytes).length + 2 ≤ hdrSize (ofBytes (bytes.take packetBytes))) :
    ((w.recipes i).registerResponse (answerOver bytes (fill w fun _ => comma))).1 = false := by
  rw [← Bool.not_eq_true, registerResponse_answerOver hMany _ w.buffer]
  rintro ⟨hHead, hScan, hNamed⟩
  obtain ⟨-, hHi, -⟩ := (headValid_iff _).mp hHead
  have hPacket : packetBytes = 2048 := rfl
  have hShort : (bytes.take packetBytes).length < packetBytes - 1 := by omega
  have hEnd (b : Buf) : answerOver bytes b (bytes.take packetBytes).length = 0 := by
    rw [answerOver_known bytes b le_rfl hShort, ofBytes_of_le le_rfl]
  have hFive : 4 ≠ (bytes.take packetBytes).length := by
    intro hFour
    have hNothing : respVariables (answerOver bytes w.buffer) = [] := respVariables_nil (hFour ▸ hEnd w.buffer)
    rw [hNothing] at hNamed
    exact RtdeRecipe.not_named_nil hMsg hNamed
  have hRefused := scanTypes_comma (hEnd _) (answerOver_fill bytes w (fun _ => comma) (Nat.lt_succ_self _) (by omega))
    hMissing (hdrSize (ofBytes (bytes.take packetBytes))) 4 4 (by omega) (Or.inl (by omega))
  rw [hScan] at hRefused
  cases hRefused

theorem registerRecipe_settled_many (hMsg : (w.recipes i).getMsg = some (packet, r)) :
    (registerRecipe i order initialSend).Settled w sent bytes ↔
      ((bytes.take packetBytes).length < hdrSize (ofBytes (bytes.take packetBytes)) →
        ((w.recipes i).registerResponse (completed bytes 65)).1 = true →
        hdrSize (ofBytes (bytes.take packetBytes)) = (bytes.take packetBytes).length + 1 ∧
            ((w.recipes i).registerResponse (ofBytes (bytes.take packetBytes))).1 = true ∨
          w.Unnoticed i (hdrRecipeId (ofBytes (bytes.take packetBytes))).toNat) := by
  constructor
  · intro hSettled hMissing hLetters
    have hHi : hdrSize (ofBytes (bytes.take packetBytes)) ≤ 2000 := by
      obtain ⟨-, hHi, -⟩ := (headValid_iff _).mp ((RtdeRecipe.registerResponse_true_iff _ _).mp hLetters).1
      have hSize : hdrSize (completed bytes 65) = hdrSize (ofBytes (bytes.take packetBytes)) :=
        hdrSize_congr (if_pos (Nat.zero_le _)) (if_pos (by omega))
      rwa [hSize] at hHi
    have hPacket : packetBytes = 2048 := rfl
    have hShort : (bytes.take packetBytes).length < packetBytes - 1 := by omega
    rw [registerResponse_completed w _ 65 hShort] at hLetters
    have hUnnoticed {b' : Buf} (hSame : ∀ j, packetBytes ≤ j → fill w (fun _ => 65) j = b' j)
        (hRefused : ((w.recipes i).registerResponse (answerOver bytes b')).1 = false) :
        w.Unnoticed i (hdrRecipeId (ofBytes (bytes.take packetBytes))).toNat := by
      have hSeen := unnoticed_of_settled hMsg hSettled hSame hLetters hRefused
      rwa [hdrRecipeId_answerOver hMany] at hSeen
    cases Nat.eq_or_lt_of_le hMissing with
    | inl hOne =>
      cases hZero : ((w.recipes i).registerResponse (ofBytes (bytes.take packetBytes))).1 with
      | true => exact Or.inl ⟨hOne.symm, rfl⟩
      | false =>
        rw [← completed_zero, registerResponse_completed w _ 0 hShort] at hZero
        exact Or.inr (hUnnoticed (fill_beyond w _ _) hZero)
    | inr hMore => exact Or.inr (hUnnoticed (fill_beyond w _ _) (refused_of_comma hMany hMsg hMore))
  · intro h
    have hPacket : packetBytes = 2048 := rfl
    rcases Nat.lt_or_ge (bytes.take packetBytes).length (hdrSize (ofBytes (bytes.take packetBytes))) with
      hMissing | hWhole
    · have hKnown (b : Buf) (hShort : (bytes.take packetBytes).length < packetBytes - 1) :
          answerOver bytes b (bytes.take packetBytes).length ≠ comma := by
        rw [answerOver_known bytes b le_rfl hShort, ofBytes_of_le le_rfl]
        decide
      have hSame (b b' : Buf) (hShort : (bytes.take packetBytes).length < packetBytes - 1) :
          ∀ j, 4 ≤ j → j ≤ (bytes.take packetBytes).length → answerOver bytes b j = answerOver bytes b' j :=
        fun j _ hLe => answerOver_same bytes b b' hLe (by omega)
      -- what any earlier content gets through, letters get through
      have hLetters (b : Buf) (hTaken : ((w.recipes i).registerResponse (answerOver bytes b)).1 = true) :
          (bytes.take packetBytes).length < packetBytes - 1 ∧
            ((w.recipes i).registerResponse (completed bytes 65)).1 = true := by
        obtain ⟨hHead, hScan, hNamed⟩ := (registerResponse_answerOver hMany _ w.buffer b).mp hTaken
        obtain ⟨-, hHi, -⟩ := (headValid_iff _).mp hHead
        have hShort : (bytes.take packetBytes).length < packetBytes - 1 := by omega
        refine ⟨hShort, ?_⟩
        rw [registerResponse_completed w _ 65 hShort, registerResponse_answerOver hMany _ w.buffer]
        refine ⟨hHead, scanTypes_letters_of_scan (hSame b _ hShort) (hKnown _ hShort) (fun j hGt hLe => ?_) _ hScan,
          hNamed⟩
        exact answerOver_fill bytes w _ hGt (by omega)
      cases hAny : ((w.recipes i).registerResponse (completed bytes 65)).1 with
      | false => exact settled_of_refused hMsg fun b hTaken => by simp [(hLetters b hTaken).2] at hAny
      | true =>
        rcases h hMissing hAny with ⟨hOne, hZero⟩ | hUnnoticed
        · obtain ⟨-, hHi, -⟩ := (headValid_iff _).mp ((RtdeRecipe.registerResponse_true_iff _ _).mp hZero).1
          have hShort : (bytes.take packetBytes).length < packetBytes - 1 := by omega
          rw [← completed_zero, registerResponse_completed w _ 0 hShort,
            registerResponse_answerOver hMany _ w.buffer, hOne] at hZero
          obtain ⟨hHead, hScan, hNamed⟩ := hZero
          have hTaken (b : Buf) : ((w.recipes i).registerResponse (answerOver bytes b)).1 = true := by
            rw [registerResponse_answerOver hMany _ w.buffer, hOne]
            exact ⟨hHead, scanTypes_of_zero (hSame _ b hShort) (hKnown _ hShort) (hKnown b hShort)
              (answerOver_fill bytes w _ (Nat.lt_succ_self _) (by omega)) _ hScan, hNamed⟩
          apply settled_of_same hMsg (fun b b' => (hTaken b).trans (hTaken b').symm)
          intro b b'
          rw [hdrRecipeId_answerOver hMany, hdrRecipeId_answerOver hMany]
        · apply settled_of_unnoticed hMsg
          intro b _
          rwa [hdrRecipeId_answerOver hMany]
    · apply settled_of_same hMsg (registerResponse_whole hMany _ hWhole)
      intro b b'
      rw [hdrRecipeId_answerOver hMany, hdrRecipeId_answerOver hMany]

end Many

end Register

variable (w : World) (sent : Nat) (bytes : List UInt8)

theorem registerRecipe_settled_iff (i : Nat) (order : MapOrder) (initialSend : Int) :
    (registerRecipe i order initialSend).Settled w sent bytes ↔ RegisterCovered w i bytes := by
  cases hMsg : (w.recipes i).getMsg with
  | none => exact iff_of_true (registerRecipe_settled_none hMsg) fun hSome => absurd hMsg hSome
  | some asks =>
    obtain ⟨packet, r⟩ := asks
    simp only [RegisterCovered, hMsg, ne_eq, reduceCtorEq, not_false_eq_true, true_implies]
    constructor
    · intro hSettled
      exact ⟨fun hNone => (registerRecipe_settled_zero hMsg hNone).mp hSettled,
        fun hOne => (registerRecipe_settled_one hMsg hOne).mp hSettled,
        fun hThree => (registerRecipe_settled_three hMsg hThree).mp hSettled,
        fun hMany => (registerRecipe_settled_many hMany hMsg).mp hSettled⟩
    · rintro ⟨hZero, hOne, hThree, hMany⟩
      cases Nat.lt_or_ge (bytes.take packetBytes).length 4 with
      | inl hFew =>
        obtain h | h | h | h : (bytes.take packetBytes).length = 0 ∨ (bytes.take packetBytes).length = 1 ∨
            (bytes.take packetBytes).length = 2 ∨ (bytes.take packetBytes).length = 3 := by omega
        · exact (registerRecipe_settled_zero hMsg h).mpr (hZero h)
        · exact (registerRecipe_settled_one hMsg h).mpr (hOne h)
        · exact registerRecipe_settled_two hMsg h
        · exact (registerRecipe_settled_three hMsg h).mpr (hThree h)
      | inr hFour => exact (registerRecipe_settled_many hFour hMsg).mpr (hMany hFour)

/-- What arrived is enough, for each of the operations. -/
def Covered (op : ReplyOp) (w : World) (bytes : List UInt8) : Prop :=
  match op with
  | recv _ => RecvCovered w bytes
  | setVersion | start | stop => 0 < bytes.length
  | getUrVersion _ => 0 < bytes.length ∧
      (VersionHead (ofBytes (bytes.take 1024)) → 18 ≤ (bytes.take 1024).length)
  | registerRecipe i _ _ => RegisterCovered w i bytes

end ReplyOp

/-- The outcome of an operation is that of the bytes it was given, if and only if they are enough. -/
theorem settled_iff_covered {w : World} (h : Reachable w) (op : ReplyOp) (sent : Nat) (bytes : List UInt8) :
    op.Settled w sent bytes ↔ op.Covered w bytes := by
  have hLength {rsz : Nat} (hPos : 0 < rsz) : 0 < (bytes.take rsz).length ↔ 0 < bytes.length := by
    rw [List.length_take]
    omega
  cases op with
  | recv ts => exact ReplyOp.recv_settled_iff w sent bytes ts (World.formed_of_reachable h)
  | setVersion =>
    rw [ReplyOp.settled_short_iff w sent bytes (by decide) (by decide) (ReplyOp.setVersion_outcome w sent bytes)]
    exact hLength (by decide)
  | getUrVersion urver =>
    rw [ReplyOp.getUrVersion_settled_iff, hLength (by decide)]
    rfl
  | start =>
    rw [ReplyOp.settled_short_iff w sent bytes (by decide) (by decide) (ReplyOp.start_outcome w sent bytes)]
    exact hLength (by decide)
  | stop =>
    rw [ReplyOp.settled_short_iff w sent bytes (by decide) (by decide) (ReplyOp.stop_outcome w sent bytes)]
    exact hLength (by decide)
  | registerRecipe i order initialSend => exact ReplyOp.registerRecipe_settled_iff w sent bytes i order initialSend

theorem settled_iff_covered_stop : ReplyOp.stop.Settled (World.fresh ⟨fun _ => 0, []⟩ fun _ => 0) 3 [0, 4, 80, 1] ∧
    ¬ ReplyOp.stop.Settled (World.fresh ⟨fun _ => 0, []⟩ fun _ => 0) 3 [] :=
  ⟨(settled_iff_covered (reachable_fresh _ _) .stop 3 [0, 4, 80, 1]).mpr (Nat.succ_pos 3),
    fun h => Nat.lt_irrefl 0 ((settled_iff_covered (reachable_fresh _ _) .stop 3 []).mp h)⟩

/-- The answer to an old start request confirms a stop request that nobody answers. -/
theorem stop_is_confirmed_by_old_answer :
    ¬ ∀ (w : World) (op : ReplyOp) (sent : Nat) (bytes : List UInt8), Reachable w → op.Settled w sent bytes := by
  intro h
  have hSame := h (World.fresh ⟨fun _ => 0, []⟩ fun _ => 0) .stop 3 [] (reachable_fresh _ _) (ofBytes [0, 4, 83, 1])
    (ofBytes []) fun i hBeyond => ?_
  · have hResult := congrArg (Option.map Prod.fst) hSame
    have hOld : (ReplyOp.stop.outcome { World.fresh ⟨fun _ => 0, []⟩ fun _ => 0 with buffer := ofBytes [0, 4, 83, 1] } 3 []).map
        Prod.fst = some true := by decide
    have hNew : (ReplyOp.stop.outcome { World.fresh ⟨fun _ => 0, []⟩ fun _ => 0 with buffer := ofBytes [] } 3 []).map
        Prod.fst = some false := by decide
    rw [hOld, hNew] at hResult
    cases hResult
  · unfold packetBytes at hBeyond
    rw [ofBytes_of_le (by simp only [List.length_cons, List.length_nil]; omega), ofBytes_of_le (by simp)]

end LibUrx.Rtde
