import LibUrx.Rtde.Settled

/-! # How far the checks of replies read

A check looks at the front of the buffer, in the order of its conditions, and stops at the first one that fails. The
reach of a check is the number of cells at the front of the buffer that it looks at.
-/
namespace LibUrx.Rtde
open Bytes Text
set_option autoImplicit false

/-- How many cells at the front of the buffer a read writes, the terminator included. -/
def filledBy (rsz : Nat) (x : Exchange) : Nat :=
  if x.sendCode < 0 then 0 else
  match x.reply with
  | none => 0
  | some bytes => min rsz (bytes.length + 1)

/-- The size is read first, the type for the right size only, and the last byte for the right type only. -/
def shortReach (type : UInt8) (buf : Buf) : Nat :=
  if hdrSize buf = 4 then if hdrType buf = type then 4 else 3 else 2

/-- A round of the scan looks behind the pointer only where there is no comma, and compares an item in front of the
pointer. -/
def scanReach (buf : Buf) (stop : Nat) : Nat → Nat → Nat → Nat
  | 0, _, _ => 0
  | rounds + 1, start, ptr =>
    if ptr < stop then
      if buf ptr == comma || buf (ptr + 1) == 0 then
        let type := dataNameToType (slice buf start (ptr - start)) (ptr - start)
        max (if buf ptr == comma then ptr + 1 else ptr + 2)
          (if type == .notFound || type == .inUse then 0 else scanReach buf stop rounds (ptr + 1) (ptr + 2))
      else max (ptr + 2) (scanReach buf stop rounds start (ptr + 1))
    else 0

/-- The answer to a registration: its head, the scan of its types, and, behind a good scan, its text with the
terminator. -/
def registerReach (buf : Buf) : Nat :=
  if 3 ≤ hdrSize buf ∧ hdrSize buf ≤ 2000 then
    if hdrType buf = PackageType.setupOutputs.code ∨ hdrType buf = PackageType.setupInputs.code then
      max 3 (max (scanReach buf (hdrSize buf) (hdrSize buf) 4 4)
        (if scanTypes buf (hdrSize buf) (hdrSize buf) 4 4 then 4 + (respVariables buf).length + 1 else 0))
    else 3
  else 2

/-- The first `k` cells are enough to check an answer to a registration. -/
structure AnswerReceived (buf : Buf) (k : Nat) : Prop where
  size : 2 ≤ k
  type : 3 ≤ hdrSize buf → hdrSize buf ≤ 2000 → 3 ≤ k
  scan : HeadValid buf → scanReach buf (hdrSize buf) (hdrSize buf) 4 4 ≤ k
  text : HeadValid buf → scanTypes buf (hdrSize buf) (hdrSize buf) 4 4 = true → ∃ i, 4 ≤ i ∧ i < k ∧ buf i = 0

variable {buf buf' : Buf}

theorem shortReach_le (type : UInt8) (buf : Buf) : shortReach type buf ≤ 4 := by
  rw [shortReach]
  split
  · split <;> omega
  · omega

theorem two_le_shortReach (type : UInt8) (buf : Buf) : 2 ≤ shortReach type buf := by
  rw [shortReach]
  split
  · split <;> omega
  · exact le_rfl

theorem shortReply_of_reach {type : UInt8} (h : ∀ i < shortReach type buf, buf i = buf' i) :
    shortReply type buf = shortReply type buf' := by
  have hTwo := two_le_shortReach type buf
  have hSame : hdrSize buf = hdrSize buf' := hdrSize_congr (h 0 (by omega)) (h 1 (by omega))
  rw [shortReach] at h
  rw [shortReply, shortReply, ← hSame]
  by_cases hSize : hdrSize buf = 4
  · rw [if_pos hSize] at h
    have hKind : hdrType buf = hdrType buf' := h 2 (by split <;> omega)
    rw [← hKind]
    by_cases hType : hdrType buf = type
    · rw [if_pos hType] at h
      rw [h 3 (by omega)]
    · rw [beq_eq_false_iff_ne.mpr hType, Bool.and_false]
      rfl
  · rw [beq_eq_false_iff_ne.mpr hSize]
    rfl

/-- Bytes of zero end the check: in the size, all but a size of four is refused, and no type is zero. -/
theorem shortReach_of_zero {type : UInt8} (hType : type ≠ 0) {i : Nat} (hZero : buf i = 0) (hHead : i = 1 ∨ i = 2) :
    shortReach type buf ≤ i + 1 := by
  rw [shortReach]
  rcases hHead with rfl | rfl
  · rw [if_neg]
    rw [hdrSize_eq, hZero]
    simp only [UInt8.toNat_zero]
    omega
  · have hOther : hdrType buf ≠ type := by
      rw [hdrType, hZero]
      exact hType.symm
    rw [if_neg hOther]
    split <;> omega

/-- One byte is enough for the check of a short reply: where the rest of the head is missing, the terminator fails it. -/
theorem shortReach_le_filledBy_iff {type : UInt8} (hType : type ≠ 0) {rsz : Nat} (hSize : 4 ≤ rsz) (buffer : Buf)
    {sendCode : Int} (hSent : 0 ≤ sendCode) (bytes : List UInt8) :
    shortReach type (readOver rsz bytes buffer) ≤ filledBy rsz ⟨sendCode, some bytes⟩ ↔ bytes ≠ [] := by
  have hFilled : filledBy rsz ⟨sendCode, some bytes⟩ = min rsz (bytes.length + 1) := if_neg (not_lt.mpr hSent)
  have hLength : (bytes.take rsz).length = min rsz bytes.length := List.length_take ..
  rw [hFilled, ← List.length_pos_iff]
  constructor
  · intro h
    have hTwo := two_le_shortReach type (readOver rsz bytes buffer)
    omega
  · intro hSome
    cases Nat.lt_or_ge (bytes.take rsz).length 3 with
    | inl hFew =>
      have hZero : readOver rsz bytes buffer (bytes.take rsz).length = 0 := by
        rw [readOver_known rsz bytes buffer le_rfl (by omega), ofBytes_of_le le_rfl]
      have hReach := shortReach_of_zero hType hZero (by omega)
      omega
    | inr hMany =>
      have hReach := shortReach_le type (readOver rsz bytes buffer)
      omega

theorem scanReach_le (buf : Buf) (stop rounds start ptr : Nat) : scanReach buf stop rounds start ptr ≤ stop + 1 := by
  induction rounds generalizing start ptr with
  | zero => exact Nat.zero_le _
  | succ rounds ih =>
    rw [scanReach]
    split
    · rename_i hInside
      split
      · have hRest := ih (ptr + 1) (ptr + 2)
        apply max_le
        · split <;> omega
        · split <;> omega
      · have hRest := ih start (ptr + 1)
        omega
    · exact Nat.zero_le _

theorem scanTypes_of_reach {stop rounds start ptr : Nat} (hOrder : start ≤ ptr)
    (h : ∀ i < scanReach buf stop rounds start ptr, buf i = buf' i) :
    scanTypes buf stop rounds start ptr = scanTypes buf' stop rounds start ptr := by
  induction rounds generalizing start ptr with
  | zero => rfl
  | succ rounds ih =>
    rw [scanReach] at h
    rw [scanTypes, scanTypes]
    split
    · rename_i hInside
      rw [if_pos hInside] at h
      cases hEnds : buf ptr == comma || buf (ptr + 1) == 0 with
      | true =>
        rw [hEnds, if_pos rfl] at h
        have hHere : ∀ i < if buf ptr == comma then ptr + 1 else ptr + 2, buf i = buf' i :=
          fun i hLt => h i (lt_max_of_lt_left hLt)
        have hFront : ∀ i ≤ ptr, buf i = buf' i := fun i hLe => hHere i (by split <;> omega)
        have hEnds' : (buf' ptr == comma || buf' (ptr + 1) == 0) = true := by
          rw [← hFront ptr le_rfl]
          cases hComma : buf ptr == comma with
          | true => rfl
          | false =>
            rw [hComma, if_neg Bool.false_ne_true] at hHere
            rw [← hHere (ptr + 1) (by omega), ← hComma]
            exact hEnds
        have hItem : slice buf start (ptr - start) = slice buf' start (ptr - start) :=
          slice_congr fun i _ hhi => hFront i (by omega)
        rw [hEnds', if_pos rfl, ← hItem]
        dsimp only at h ⊢
        split
        · rfl
        · rename_i hKnown
          rw [if_neg hKnown] at h
          exact ih (Nat.le_succ _) fun i hLt => h i (lt_max_of_lt_right hLt)
      | false =>
        rw [hEnds, if_neg Bool.false_ne_true] at h
        rw [← h ptr (by omega), ← h (ptr + 1) (by omega), hEnds]
        exact ih (by omega) fun i hLt => h i (lt_max_of_lt_right hLt)
    · rfl

/-- The text of an answer ends at the first zero byte behind the head. -/
theorem respVariables_end_le_iff {k : Nat} (hInside : k ≤ packetBytes) :
    4 + (respVariables buf).length + 1 ≤ k ↔ ∃ i, 4 ≤ i ∧ i < k ∧ buf i = 0 := by
  have hEnds : (respVariables buf).length < k - 4 ↔ 0 ∈ (slice buf 4 (packetBytes - 4)).take (k - 4) :=
    length_cStr_lt_iff (by rw [length_slice]; omega)
  have hTake : (slice buf 4 (packetBytes - 4)).take (k - 4) = slice buf 4 (k - 4) :=
    slice_take_drop buf 4 (packetBytes - 4) 0 (k - 4) (by omega)
  have hFirst : 4 + (respVariables buf).length + 1 ≤ k ↔ (respVariables buf).length < k - 4 := by omega
  rw [hFirst, hEnds, hTake]
  simp only [slice, List.mem_map, List.mem_range]
  constructor
  · rintro ⟨j, hLt, hZero⟩
    exact ⟨4 + j, by omega, by omega, hZero⟩
  · rintro ⟨i, hlo, hhi, hZero⟩
    exact ⟨i - 4, by omega, by rwa [Nat.add_sub_cancel' hlo]⟩

theorem registerReach_of_head (h : HeadValid buf) : registerReach buf =
    max 3 (max (scanReach buf (hdrSize buf) (hdrSize buf) 4 4)
      (if scanTypes buf (hdrSize buf) (hdrSize buf) 4 4 then 4 + (respVariables buf).length + 1 else 0)) := by
  obtain ⟨hLo, hHi, hType⟩ := (headValid_iff buf).mp h
  rw [registerReach, if_pos ⟨hLo, hHi⟩]
  exact if_pos hType

theorem registerReach_of_not_head (h : ¬ HeadValid buf) :
    registerReach buf = if 3 ≤ hdrSize buf ∧ hdrSize buf ≤ 2000 then 3 else 2 := by
  rw [registerReach]
  split
  · rename_i hSize
    exact if_neg fun hType => h ((headValid_iff buf).mpr ⟨hSize.1, hSize.2, hType⟩)
  · rfl

theorem registerReach_le_iff {k : Nat} (hInside : k ≤ packetBytes) : registerReach buf ≤ k ↔ AnswerReceived buf k := by
  cases Classical.em (HeadValid buf) with
  | inl hHead =>
    obtain ⟨hLo, hHi, -⟩ := (headValid_iff buf).mp hHead
    have hText : (if scanTypes buf (hdrSize buf) (hdrSize buf) 4 4 then 4 + (respVariables buf).length + 1 else 0) ≤ k ↔
        (scanTypes buf (hdrSize buf) (hdrSize buf) 4 4 = true → ∃ i, 4 ≤ i ∧ i < k ∧ buf i = 0) := by
      rw [← respVariables_end_le_iff hInside]
      split
      · exact (imp_iff_right ‹_›).symm
      · exact iff_of_true (Nat.zero_le k) fun hScan => absurd hScan ‹_›
    rw [registerReach_of_head hHead, max_le_iff, max_le_iff, hText]
    constructor
    · exact fun ⟨hThree, hScan, hEnds⟩ => ⟨by omega, fun _ _ => hThree, fun _ => hScan, fun _ => hEnds⟩
    · exact fun h => ⟨h.type hLo hHi, h.scan hHead, h.text hHead⟩
  | inr hHead =>
    rw [registerReach_of_not_head hHead]
    constructor
    · intro h
      refine ⟨?_, fun hLo hHi => ?_, fun hValid => absurd hValid hHead, fun hValid => absurd hValid hHead⟩
      · split at h <;> omega
      · rwa [if_pos ⟨hLo, hHi⟩] at h
    · intro h
      split
      · exact h.type (And.left ‹_›) (And.right ‹_›)
      · exact h.size

theorem headValid_of_reach (h : ∀ i < registerReach buf, buf i = buf' i) :
    hdrSize buf = hdrSize buf' ∧ (HeadValid buf ↔ HeadValid buf') := by
  have hTwo : 2 ≤ registerReach buf := by
    rw [registerReach]
    split
    · split <;> omega
    · exact le_rfl
  have hSize : hdrSize buf = hdrSize buf' := hdrSize_congr (h 0 (by omega)) (h 1 (by omega))
  refine ⟨hSize, ?_⟩
  rw [headValid_iff, headValid_iff, ← hSize, ← and_assoc, ← and_assoc]
  refine and_congr_right fun hFits => ?_
  have hThree : 3 ≤ registerReach buf := by
    rw [registerReach, if_pos hFits]
    split <;> omega
  rw [h 2 (by omega)]

theorem respVariables_of_reach (h : ∀ i, 4 ≤ i → i < 4 + (respVariables buf).length + 1 → buf i = buf' i) :
    respVariables buf = respVariables buf' := by
  cases Nat.lt_or_ge (4 + (respVariables buf).length) packetBytes with
  | inl hEnds =>
    obtain ⟨n, hText⟩ : ∃ n, (respVariables buf).length + 1 = n := ⟨_, rfl⟩
    have hFront : slice buf 4 n = slice buf' 4 n := slice_congr fun i hLo hHi => h i hLo (by omega)
    have hZero : 0 ∈ slice buf 4 n := by
      obtain ⟨i, hLo, hHi, hByte⟩ : ∃ i, 4 ≤ i ∧ i < 4 + (respVariables buf).length + 1 ∧ buf i = 0 :=
        (respVariables_end_le_iff hEnds).mp le_rfl
      exact List.mem_map.mpr ⟨i - 4, List.mem_range.mpr (by omega), by rwa [Nat.add_sub_cancel' hLo]⟩
    have hSplit (b : Buf) : slice b 4 (packetBytes - 4) = slice b 4 n ++ slice b (4 + n) (packetBytes - 4 - n) := by
      rw [← slice_add, Nat.add_sub_cancel' (by omega)]
    rw [respVariables, respVariables, hSplit, hSplit, cStr_append hZero, cStr_append (hFront ▸ hZero), hFront]
  | inr hFull => exact respVariables_congr fun i hLo hHi => h i hLo (by omega)

theorem RtdeRecipe.registerResponse_of_reach (r : RtdeRecipe) (h : ∀ i < registerReach buf, buf i = buf' i) :
    (r.registerResponse buf).1 = (r.registerResponse buf').1 := by
  obtain ⟨hSize, hHeads⟩ := headValid_of_reach h
  rw [Bool.eq_iff_iff, registerResponse_true_iff, registerResponse_true_iff, ← hHeads, ← hSize]
  refine and_congr_right fun hHead => ?_
  rw [registerReach_of_head hHead] at h
  have hScan : scanTypes buf (hdrSize buf) (hdrSize buf) 4 4 = scanTypes buf' (hdrSize buf) (hdrSize buf) 4 4 :=
    scanTypes_of_reach (le_refl 4) fun i hLt => h i (by omega)
  rw [← hScan]
  refine and_congr_right fun hTaken => ?_
  rw [if_pos hTaken] at h
  rw [respVariables_of_reach fun i _ hLt => h i (by omega)]

/-- An answer that has come whole is enough for its check. -/
theorem answerReceived_of_whole {bytes : List UInt8} (b : Buf) (hMany : 4 ≤ (bytes.take packetBytes).length)
    (hWhole : hdrSize (ofBytes (bytes.take packetBytes)) ≤ (bytes.take packetBytes).length) :
    AnswerReceived (answerOver bytes b) (min packetBytes (bytes.length + 1)) := by
  have hPacket : packetBytes = 2048 := rfl
  have hLength : (bytes.take packetBytes).length = min packetBytes bytes.length := List.length_take ..
  have hSize : hdrSize (answerOver bytes b) = hdrSize (ofBytes (bytes.take packetBytes)) :=
    ReplyOp.hdrSize_answerOver hMany b
  refine ⟨by omega, fun _ _ => by omega, fun hHead => ?_, fun _ _ => ?_⟩
  · obtain ⟨-, hHi, -⟩ := (headValid_iff _).mp hHead
    have hReach := scanReach_le (answerOver bytes b) (hdrSize (answerOver bytes b)) (hdrSize (answerOver bytes b)) 4 4
    omega
  · exact ⟨min (bytes.take packetBytes).length (packetBytes - 1), by omega, by omega, answerOver_end bytes b⟩

end LibUrx.Rtde
