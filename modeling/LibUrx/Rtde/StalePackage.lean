import LibUrx.Rtde.StaleBytes

/-! # Stale bytes in a data package

A package that arrives in part is completed from what the buffer held before: its head where no more
than one byte came, its payload where the head came whole.
-/
namespace LibUrx.Rtde
open Bytes Text
set_option autoImplicit false

/-- What arrived is enough to tell whether a package is taken, and all of what it then writes. -/
def RecvCovered (w : World) (bytes : List UInt8) : Prop :=
  match w.out with
  | none => 2 ≤ (bytes.take packetBytes).length ∨
      (bytes.take packetBytes).length = 1 ∧ ofBytes (bytes.take packetBytes) 0 = 0
  | some i => (w.recipes i).dirOut = true →
      ((bytes.take packetBytes).length = 0 → ¬ (1 ≤ (w.recipes i).recipeId ∧ (w.recipes i).recipeId ≤ 255 ∧
        4 + (w.recipes i).expectedBytes ≤ 255)) ∧
      ((bytes.take packetBytes).length = 1 → ¬ (1 ≤ (w.recipes i).recipeId ∧ (w.recipes i).recipeId ≤ 255 ∧
        4 + (w.recipes i).expectedBytes = 256 * (ofBytes (bytes.take packetBytes) 0).toNat)) ∧
      (World.Accepts (w.recipes i) (ofBytes (bytes.take packetBytes)) → ∀ tok ∈ (w.recipes i).fields,
        ∀ j, tok.offset ≤ j → j < tok.offset + tok.numBytes →
          4 + j ≤ (bytes.take packetBytes).length ∨ packetBytes ≤ 4 + j)

theorem readOver_beyond (bytes : List UInt8) (b : Buf) {i : Nat} (h : packetBytes ≤ i) :
    readOver packetBytes bytes b i = b i := doRecv_beyond bytes b h

namespace World

theorem Accepts.nonzero {r : RtdeRecipe} {buf : Buf} (h : Accepts r buf) : buf 2 ≠ 0 ∧ buf 3 ≠ 0 := by
  obtain ⟨hType, hNonzero, -, -⟩ := h
  refine ⟨fun hZero => ?_, hNonzero⟩
  rw [hdrType, hZero] at hType
  cases hType

theorem Accepts.size {r : RtdeRecipe} {buf : Buf} (h : Accepts r buf) :
    256 * (buf 0).toNat + (buf 1).toNat = 4 + r.expectedBytes := by
  have hSize := h.2.2.2
  rw [hdrSize_eq] at hSize
  omega

theorem Accepts.id {r : RtdeRecipe} {buf : Buf} (h : Accepts r buf) : 1 ≤ r.recipeId ∧ r.recipeId ≤ 255 := by
  obtain ⟨-, hNonzero, hId, -⟩ := h
  have hLt : (hdrRecipeId buf).toNat < 256 := (hdrRecipeId buf).toNat_lt
  have hPos : (hdrRecipeId buf).toNat ≠ 0 := fun hZero => hNonzero (UInt8.toNat_inj.mp hZero)
  omega

theorem accepts_of_head {r : RtdeRecipe} {buf : Buf} (hId : 1 ≤ r.recipeId ∧ r.recipeId ≤ 255)
    (hSize : 256 * (buf 0).toNat + (buf 1).toNat = 4 + r.expectedBytes) (hType : buf 2 = 85)
    (hByte : buf 3 = UInt8.ofNat r.recipeId.toNat) : Accepts r buf := by
  have hToNat : (UInt8.ofNat r.recipeId.toNat).toNat = r.recipeId.toNat := by
    simp only [UInt8.toNat_ofNat']
    omega
  have hNonzero : hdrRecipeId buf ≠ 0 := by
    intro hZero
    rw [hdrRecipeId, hByte] at hZero
    rw [hZero] at hToNat
    simp only [UInt8.toNat_zero] at hToNat
    omega
  refine ⟨hType, hNonzero, ?_, ?_⟩
  · rw [hdrRecipeId, hByte, hToNat]
    omega
  · rw [hdrSize_eq, hSize]
    omega

theorem parseIncomingData_input {w : World} {i : Nat} (hOut : w.out = some i)
    (hDir : (w.recipes i).dirOut = false) (data : Buf) (rxTs : UInt64) :
    w.parseIncomingData data rxTs = some (false, data, w.mem) := by
  have hParse : (w.recipes i).parse (payload data) rxTs w.mem = (false, payload data, w.mem) := by
    simp [RtdeRecipe.parse, hDir]
  simp only [parseIncomingData, hOut, hParse, withPayload_payload]
  split
  · rfl
  · split
    · rfl
    · split <;> rfl

/-- Two packages have one effect if and only if both are taken or both are not, and if taken they are decoded alike. -/
theorem parsed_eq_iff {w : World} {i : Nat} (hOut : w.out = some i) (hFormed : (w.recipes i).Formed)
    (hDir : (w.recipes i).dirOut = true) (data data' : Buf) (rxTs : UInt64) :
    ((w.parseIncomingData data rxTs).map fun p => (p.1, p.2.2)) =
        ((w.parseIncomingData data' rxTs).map fun p => (p.1, p.2.2)) ↔
      (Accepts (w.recipes i) data ↔ Accepts (w.recipes i) data') ∧
        (Accepts (w.recipes i) data → Accepts (w.recipes i) data' →
          decodedWrites (w.recipes i).fields (payload data) = decodedWrites (w.recipes i).fields (payload data')) := by
  have hTaken {d : Buf} (h : Accepts (w.recipes i) d) := parseIncomingData_accepted hOut hFormed hDir h rxTs
  have hRefused {d : Buf} (h : ¬ Accepts (w.recipes i) d) := parseIncomingData_refused hOut h rxTs
  rcases Classical.em (Accepts (w.recipes i) data) with h | h <;>
    rcases Classical.em (Accepts (w.recipes i) data') with h' | h'
  · rw [hTaken h, hTaken h']
    simp only [Option.map_some, Option.some.injEq, Prod.mk.injEq, true_and, h, h', forall_const]
    constructor
    · intro hMem
      exact List.append_cancel_right (Memory.writeAll_inj hMem)
    · intro hWrites
      rw [RtdeRecipe.parsedMemory, RtdeRecipe.parsedMemory, hWrites]
  · rw [hTaken h, hRefused h']
    simp [h, h']
  · rw [hRefused h, hTaken h']
    simp [h, h']
  · rw [hRefused h, hRefused h']
    simp [h, h']

theorem parseIncomingData_none {w : World} (hOut : w.out = none) (data : Buf) (rxTs : UInt64) :
    w.parseIncomingData data rxTs = if rtdeParseDataPackage data then none else some (false, data, w.mem) := by
  simp only [parseIncomingData, hOut]
  cases rtdeParseDataPackage data <;> rfl

end World

namespace ReplyOp

variable (w : World) (sent : Nat) (bytes : List UInt8)

theorem recv_outcome (ts : UInt64) (b : Buf) :
    (recv ts).outcome { w with buffer := b } sent bytes =
      (w.parseIncomingData (readOver packetBytes bytes b) ts).map fun p =>
        (p.1, none, { w with buffer := fun _ => 0, mem := p.2.2 }) := by
  rw [outcome, run, World.recv_some, Option.map_map, Option.map_map]
  rfl

/-- Two bytes decide a head: what is missing of it then is the terminator. -/
theorem head_of_two_le (h : 2 ≤ (bytes.take packetBytes).length) :
    (∀ b, readOver packetBytes bytes b 2 = 0) ∨ (∀ b, readOver packetBytes bytes b 3 = 0) ∨
      4 ≤ (bytes.take packetBytes).length ∧
        ∀ b, ∀ i < 4, readOver packetBytes bytes b i = ofBytes (bytes.take packetBytes) i := by
  have hKnown (b : Buf) {i : Nat} (hLe : i ≤ (bytes.take packetBytes).length) (hLt : i < 4) :
      readOver packetBytes bytes b i = ofBytes (bytes.take packetBytes) i :=
    readOver_known packetBytes bytes b hLe (by unfold packetBytes; omega)
  cases Nat.lt_or_ge (bytes.take packetBytes).length 3 with
  | inl hTwo => exact Or.inl fun b => by rw [hKnown b (by omega) (by omega), ofBytes_of_le (by omega)]
  | inr hThree =>
    cases Nat.lt_or_ge (bytes.take packetBytes).length 4 with
    | inl hLt =>
      exact Or.inr (Or.inl fun b => by rw [hKnown b (by omega) (by omega), ofBytes_of_le (by omega)])
    | inr hFour => exact Or.inr (Or.inr ⟨hFour, fun b i hLt => hKnown b (by omega) hLt⟩)

theorem readOver_head_fill (f : Nat → UInt8) (h : (bytes.take packetBytes).length ≤ 1) {i : Nat} (hLo : 2 ≤ i)
    (hHi : i < 4) : readOver packetBytes bytes (fill w f) i = f i :=
  readOver_fill packetBytes bytes (by omega) (by unfold packetBytes; omega)

theorem recv_settled_none (ts : UInt64) (hOut : w.out = none) :
    (recv ts).Settled w sent bytes ↔ 2 ≤ (bytes.take packetBytes).length ∨
      (bytes.take packetBytes).length = 1 ∧ ofBytes (bytes.take packetBytes) 0 = 0 := by
  have hSettled : (recv ts).Settled w sent bytes ↔ ∀ b b' : Buf, (∀ i, packetBytes ≤ i → b i = b' i) →
      rtdeParseDataPackage (readOver packetBytes bytes b) = rtdeParseDataPackage (readOver packetBytes bytes b') := by
    unfold Settled
    apply forall₃_congr
    intro b b' _
    rw [recv_outcome, recv_outcome, World.parseIncomingData_none hOut, World.parseIncomingData_none hOut]
    cases rtdeParseDataPackage (readOver packetBytes bytes b) <;>
      cases rtdeParseDataPackage (readOver packetBytes bytes b') <;> simp
  have hFirst (b : Buf) : readOver packetBytes bytes b 0 = ofBytes (bytes.take packetBytes) 0 :=
    readOver_known packetBytes bytes b (Nat.zero_le _) (by decide)
  have hSecond (b : Buf) (hOne : (bytes.take packetBytes).length = 1) : readOver packetBytes bytes b 1 = 0 := by
    rw [readOver_known packetBytes bytes b (by omega) (by decide), ofBytes_of_le (by omega)]
  rw [hSettled]
  constructor
  · intro h
    by_contra hNot
    obtain ⟨hFew, hLarge⟩ := not_or.mp hNot
    have hOne : (bytes.take packetBytes).length ≤ 1 := by omega
    have hSame := h _ _ (fill_beyond w (fun _ => 0) fun i => if i = 1 then 4 else if i = 2 then 85 else 1)
    have hRefused : rtdeParseDataPackage (readOver packetBytes bytes (fill w fun _ => 0)) = false := by
      have hType := readOver_head_fill w bytes (fun _ => 0) hOne le_rfl (by decide)
      simp [rtdeParseDataPackage, hdrType, hType, PackageType.code]
    have hTaken : rtdeParseDataPackage (readOver packetBytes bytes
        (fill w fun i => if i = 1 then 4 else if i = 2 then 85 else 1)) = true := by
      rw [rtdeParseDataPackage_iff, hdrRecipeId, hdrType, readOver_head_fill w bytes _ hOne (by decide) (by decide),
        readOver_head_fill w bytes _ hOne le_rfl (by decide), hdrSize_eq, hFirst]
      refine ⟨by decide, by decide, ?_⟩
      cases Nat.eq_zero_or_pos (bytes.take packetBytes).length with
      | inl hZero =>
        rw [readOver_fill packetBytes bytes (by omega) (by decide)]
        simp
      | inr hPos =>
        have hByte : (ofBytes (bytes.take packetBytes) 0).toNat ≠ 0 := by
          intro hToNat
          exact hLarge ⟨by omega, UInt8.toNat_inj.mp hToNat⟩
        omega
    rw [hRefused, hTaken] at hSame
    cases hSame
  · intro hCovered b b' _
    have hRefused {b : Buf} (hZero : hdrSize (readOver packetBytes bytes b) < 4 ∨
        readOver packetBytes bytes b 2 = 0 ∨ readOver packetBytes bytes b 3 = 0) :
        rtdeParseDataPackage (readOver packetBytes bytes b) = false := by
      rw [← Bool.not_eq_true, rtdeParseDataPackage_iff, hdrRecipeId, hdrType]
      rintro ⟨hId, hType, hSize⟩
      rcases hZero with hSmall | hZero | hZero
      · omega
      · rw [hZero] at hType
        cases hType
      · exact hId hZero
    rcases hCovered with hTwo | ⟨hOne, hZero⟩
    · rcases head_of_two_le bytes hTwo with hType | hId | ⟨-, hHead⟩
      · rw [hRefused (Or.inr (Or.inl (hType b))), hRefused (Or.inr (Or.inl (hType b')))]
      · rw [hRefused (Or.inr (Or.inr (hId b))), hRefused (Or.inr (Or.inr (hId b')))]
      · have hByte {i : Nat} (hLt : i < 4) := (hHead b i hLt).trans (hHead b' i hLt).symm
        rw [rtdeParseDataPackage, rtdeParseDataPackage, hdrRecipeId, hdrRecipeId, hdrType, hdrType,
          hdrSize_congr (hByte (by decide)) (hByte (by decide)), hByte (by decide), hByte (by decide)]
    · have hSize (b : Buf) : hdrSize (readOver packetBytes bytes b) < 4 := by
        rw [hdrSize_eq, hFirst, hZero, hSecond b hOne]
        decide
      rw [hRefused (Or.inl (hSize b)), hRefused (Or.inl (hSize b'))]

theorem recv_settled_input (ts : UInt64) {i : Nat} (hOut : w.out = some i) (hDir : (w.recipes i).dirOut = false) :
    (recv ts).Settled w sent bytes := by
  intro b b' _
  rw [recv_outcome, recv_outcome, World.parseIncomingData_input hOut hDir, World.parseIncomingData_input hOut hDir]
  rfl

/-- A package that is taken says so, and its writes are all there. -/
theorem recv_settled_iff_writes (ts : UInt64) {i : Nat} (hOut : w.out = some i) (hFormed : (w.recipes i).Formed)
    (hDir : (w.recipes i).dirOut = true) :
    (recv ts).Settled w sent bytes ↔ ∀ b b' : Buf, (∀ j, packetBytes ≤ j → b j = b' j) →
      (World.Accepts (w.recipes i) (readOver packetBytes bytes b) ↔
        World.Accepts (w.recipes i) (readOver packetBytes bytes b')) ∧
      (World.Accepts (w.recipes i) (readOver packetBytes bytes b) →
        World.Accepts (w.recipes i) (readOver packetBytes bytes b') →
        decodedWrites (w.recipes i).fields (payload (readOver packetBytes bytes b)) =
          decodedWrites (w.recipes i).fields (payload (readOver packetBytes bytes b'))) := by
  have hOutcome (b : Buf) : (recv ts).outcome { w with buffer := b } sent bytes =
      ((w.parseIncomingData (readOver packetBytes bytes b) ts).map fun p => (p.1, p.2.2)).map fun q =>
        (q.1, none, { w with buffer := fun _ => 0, mem := q.2 }) := by
    rw [recv_outcome, Option.map_map]
    rfl
  have hInj : Function.Injective fun q : Bool × Memory =>
      (q.1, (none : Option UrVersion), { w with buffer := fun _ => 0, mem := q.2 }) := by
    rintro ⟨ok, mem⟩ ⟨ok', mem'⟩ h
    simp only [Prod.mk.injEq, World.mk.injEq, true_and, and_true] at h
    exact Prod.ext h.1 h.2
  unfold Settled
  apply forall₃_congr
  intro b b' _
  rw [hOutcome, hOutcome, (Option.map_injective hInj).eq_iff]
  exact World.parsed_eq_iff hOut hFormed hDir _ _ ts

theorem fields_covered_of_settled {i : Nat} (hFormed : (w.recipes i).Formed)
    (hKept : ∀ b b' : Buf, (∀ j, packetBytes ≤ j → b j = b' j) →
      World.Accepts (w.recipes i) (readOver packetBytes bytes b) →
      World.Accepts (w.recipes i) (readOver packetBytes bytes b') →
      decodedWrites (w.recipes i).fields (payload (readOver packetBytes bytes b)) =
        decodedWrites (w.recipes i).fields (payload (readOver packetBytes bytes b')))
    (hHead : World.Accepts (w.recipes i) (ofBytes (bytes.take packetBytes))) :
    ∀ tok ∈ (w.recipes i).fields, ∀ j, tok.offset ≤ j → j < tok.offset + tok.numBytes →
      4 + j ≤ (bytes.take packetBytes).length ∨ packetBytes ≤ 4 + j := by
  intro tok hMem j hlo hhi
  by_contra hNot
  obtain ⟨hMissing, hInside⟩ := not_or.mp hNot
  have hFour : 3 < (bytes.take packetBytes).length :=
    Nat.lt_of_not_le fun hLe => hHead.nonzero.2 (ofBytes_of_le hLe)
  have hAccepts (f : Nat → UInt8) : World.Accepts (w.recipes i) (readOver packetBytes bytes (fill w f)) :=
    hHead.congr fun k hLt => (readOver_known packetBytes bytes _ (by omega) (by unfold packetBytes; omega)).symm
  have hWrites := hKept _ _ (fill_beyond w (fun _ => 0) fun _ => 1) (hAccepts _) (hAccepts _)
  have hByte (f : Nat → UInt8) : payload (readOver packetBytes bytes (fill w f)) j = f (4 + j) :=
    readOver_fill packetBytes bytes (by omega) (by omega)
  have hZero := ((decodedWrites_eq_iff hFormed.wellTyped).mp hWrites tok hMem j hlo hhi).zero_iff
  rw [hByte, hByte] at hZero
  exact absurd (hZero.mp rfl) (by decide)

theorem recv_settled_output (ts : UInt64) {i : Nat} (hOut : w.out = some i) (hFormed : (w.recipes i).Formed)
    (hDir : (w.recipes i).dirOut = true) : (recv ts).Settled w sent bytes ↔ RecvCovered w bytes := by
  have hFirst (b : Buf) : readOver packetBytes bytes b 0 = ofBytes (bytes.take packetBytes) 0 :=
    readOver_known packetBytes bytes b (Nat.zero_le _) (by decide)
  have hSecond (b : Buf) (hOne : (bytes.take packetBytes).length = 1) : readOver packetBytes bytes b 1 = 0 := by
    rw [readOver_known packetBytes bytes b (by omega) (by decide), ofBytes_of_le (by omega)]
  have hEmpty (hZero : (bytes.take packetBytes).length = 0) : ofBytes (bytes.take packetBytes) 0 = 0 :=
    ofBytes_of_le (by omega)
  rw [recv_settled_iff_writes w sent bytes ts hOut hFormed hDir, RecvCovered, hOut]
  simp only [hDir, forall_const]
  constructor
  · intro h
    -- with two bytes of the head missing, one content makes the package and the other one does not
    have hNoHead (second : UInt8) (hOne : (bytes.take packetBytes).length ≤ 1)
        (hId : 1 ≤ (w.recipes i).recipeId ∧ (w.recipes i).recipeId ≤ 255)
        (hSize : ∀ b : Buf, b 1 = second → 256 * (readOver packetBytes bytes b 0).toNat +
          (readOver packetBytes bytes b 1).toNat = 4 + (w.recipes i).expectedBytes) : False := by
      have hSame := (h _ _ (fill_beyond w (fun _ => 0) fun j => if j = 1 then second else if j = 2 then 85 else
        UInt8.ofNat (w.recipes i).recipeId.toNat)).1
      have hTaken := World.accepts_of_head hId (hSize (fill w fun j => if j = 1 then second else
          if j = 2 then 85 else UInt8.ofNat (w.recipes i).recipeId.toNat) (fill_of_lt (by decide)))
        (readOver_head_fill w bytes _ hOne le_rfl (by decide))
        (readOver_head_fill w bytes _ hOne (by decide) (by decide))
      exact (hSame.mpr hTaken).nonzero.1 (readOver_head_fill w bytes _ hOne le_rfl (by decide))
    refine ⟨fun hZero hFits => ?_, fun hOne hFits => ?_, fun hHead => ?_⟩
    · refine hNoHead (UInt8.ofNat (4 + (w.recipes i).expectedBytes)) (by omega) ⟨hFits.1, hFits.2.1⟩
        fun b hByte => ?_
      have hRead : readOver packetBytes bytes b 1 = b 1 := doRecv_byte_of_gt b (by omega)
      rw [hFirst, hEmpty hZero, hRead, hByte]
      simp only [UInt8.toNat_zero, UInt8.toNat_ofNat']
      omega
    · refine hNoHead 0 (by omega) ⟨hFits.1, hFits.2.1⟩ fun b _ => ?_
      rw [hFirst, hSecond b hOne]
      simp only [UInt8.toNat_zero]
      omega
    · exact fields_covered_of_settled w bytes hFormed (fun b b' hSame => (h b b' hSame).2) hHead
  · rintro ⟨hZero, hOne, hFields⟩ b b' hSame
    have hNot {b : Buf} (hFew : (bytes.take packetBytes).length ≤ 1) :
        ¬ World.Accepts (w.recipes i) (readOver packetBytes bytes b) := by
      intro h
      have hSize := h.size
      rw [hFirst] at hSize
      cases Nat.eq_zero_or_pos (bytes.take packetBytes).length with
      | inl hNone =>
        have hLt : (readOver packetBytes bytes b 1).toNat < 256 := (readOver packetBytes bytes b 1).toNat_lt
        rw [hEmpty hNone] at hSize
        simp only [UInt8.toNat_zero] at hSize
        exact hZero hNone ⟨h.id.1, h.id.2, by omega⟩
      | inr hSome =>
        rw [hSecond b (by omega)] at hSize
        simp only [UInt8.toNat_zero] at hSize
        exact hOne (by omega) ⟨h.id.1, h.id.2, by omega⟩
    cases Nat.lt_or_ge (bytes.take packetBytes).length 2 with
    | inl hFew =>
      exact ⟨iff_of_false (hNot (by omega)) (hNot (by omega)), fun h => absurd h (hNot (by omega))⟩
    | inr hTwo =>
      rcases head_of_two_le bytes hTwo with hType | hId | ⟨hFour, hHead⟩
      · have hRefused (b : Buf) : ¬ World.Accepts (w.recipes i) (readOver packetBytes bytes b) :=
          fun h => h.nonzero.1 (hType b)
        exact ⟨iff_of_false (hRefused b) (hRefused b'), fun h => absurd h (hRefused b)⟩
      · have hRefused (b : Buf) : ¬ World.Accepts (w.recipes i) (readOver packetBytes bytes b) :=
          fun h => h.nonzero.2 (hId b)
        exact ⟨iff_of_false (hRefused b) (hRefused b'), fun h => absurd h (hRefused b)⟩
      · have hByte : ∀ k < 4, readOver packetBytes bytes b k = readOver packetBytes bytes b' k :=
          fun k hLt => (hHead b k hLt).trans (hHead b' k hLt).symm
        refine ⟨⟨fun h => h.congr hByte, fun h => h.congr fun k hLt => (hByte k hLt).symm⟩, fun h _ => ?_⟩
        refine decodedWrites_congr hFormed.wellTyped fun tok hMem => slice_congr fun j hlo hhi => ?_
        cases hFields (h.congr (hHead b)) tok hMem j hlo hhi with
        | inl hKnown =>
          cases Nat.lt_or_ge (4 + j) packetBytes with
          | inl hLt =>
            exact (readOver_known packetBytes bytes b hKnown hLt).trans
              (readOver_known packetBytes bytes b' hKnown hLt).symm
          | inr hGe =>
            exact (readOver_beyond bytes b hGe).trans ((hSame _ hGe).trans (readOver_beyond bytes b' hGe).symm)
        | inr hBeyond =>
          exact (readOver_beyond bytes b hBeyond).trans
            ((hSame _ hBeyond).trans (readOver_beyond bytes b' hBeyond).symm)

theorem recv_settled_iff (ts : UInt64) (hFormed : w.AllFormed) :
    (recv ts).Settled w sent bytes ↔ RecvCovered w bytes := by
  cases hOut : w.out with
  | none =>
    rw [recv_settled_none w sent bytes ts hOut, RecvCovered, hOut]
  | some i =>
    cases hDir : (w.recipes i).dirOut with
    | true => exact recv_settled_output w sent bytes ts hOut (hFormed i) hDir
    | false =>
      apply iff_of_true (recv_settled_input w sent bytes ts hOut hDir)
      rw [RecvCovered, hOut]
      simp [hDir]

end ReplyOp

end LibUrx.Rtde
