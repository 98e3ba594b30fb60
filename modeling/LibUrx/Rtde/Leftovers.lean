import LibUrx.Rtde.StalePackage

/-! # What a read shows of the buffer

A read that brings a whole head takes the rest of a short package from the buffer, and one that brings at most one byte
takes the rest of the head from there, too. Two contents of the buffer make no difference to any read if and only if
they agree in the cells that such reads show.
-/
namespace LibUrx.Rtde
open Bytes Text
set_option autoImplicit false

namespace World

/-- What a read does, the buffer aside. -/
def received (w : World) (reply : Option (List UInt8)) (ts : UInt64) : Option (Bool × Memory) :=
  (w.recv reply ts).map fun result => (result.1, result.2.mem)

/-- Every read has the same effect over both contents of the buffer. -/
def ReadsAlike (w : World) (b b' : Buf) : Prop :=
  ∀ reply ts, { w with buffer := b }.received reply ts = { w with buffer := b' }.received reply ts

/-- The fields show the same in both contents, from the given cell of the buffer on. -/
def SameFields (r : RtdeRecipe) (first : Nat) (b b' : Buf) : Prop :=
  ∀ tok ∈ r.fields, ∀ j, tok.offset ≤ j → j < tok.offset + tok.numBytes → first ≤ 4 + j → 4 + j < packetBytes →
    Token.ShownAlike tok.type (b (4 + j)) (b' (4 + j))

/-- The content has the rest of a head for the recipe. Where the size of the package is less than 256, an empty read
leaves its lower byte, too. -/
structure OldHead (r : RtdeRecipe) (b : Buf) : Prop where
  type : b 2 = PackageType.dataPackage.code
  id : ((b 3).toNat : Int) = r.recipeId
  size : 4 + r.expectedBytes ≤ 255 → (b 1).toNat = 4 + r.expectedBytes

/-- The two contents are the same to every read. -/
def Indistinct (w : World) (b b' : Buf) : Prop :=
  match w.out with
  | none => (b 2 = PackageType.dataPackage.code ∧ b 3 ≠ 0 ↔ b' 2 = PackageType.dataPackage.code ∧ b' 3 ≠ 0) ∧
      (b 2 = PackageType.dataPackage.code → b 3 ≠ 0 → (4 ≤ (b 1).toNat ↔ 4 ≤ (b' 1).toNat))
  | some i => (w.recipes i).dirOut = true → 1 ≤ (w.recipes i).recipeId → (w.recipes i).recipeId ≤ 255 →
      4 + (w.recipes i).expectedBytes ≤ 65535 → SameFields (w.recipes i) 5 b b' ∧
        (4 + (w.recipes i).expectedBytes ≤ 255 ∨ 256 ∣ 4 + (w.recipes i).expectedBytes →
          (OldHead (w.recipes i) b ↔ OldHead (w.recipes i) b') ∧
            (OldHead (w.recipes i) b → SameFields (w.recipes i) 4 b b'))

theorem received_over (w : World) (b : Buf) (bytes : List UInt8) (ts : UInt64) :
    { w with buffer := b }.received (some bytes) ts =
      (w.parseIncomingData (readOver packetBytes bytes b) ts).map fun p => (p.1, p.2.2) := by
  rw [received, recv_some, Option.map_map]
  rfl

theorem accepts_iff (r : RtdeRecipe) (data : Buf) :
    Accepts r data ↔ 256 * (data 0).toNat + (data 1).toNat = 4 + r.expectedBytes ∧
      data 2 = PackageType.dataPackage.code ∧ data 3 ≠ 0 ∧ ((data 3).toNat : Int) = r.recipeId := by
  constructor
  · exact fun h => ⟨h.size, h.1, h.2.1, h.2.2.1⟩
  · rintro ⟨hSize, hType, hNonzero, hId⟩
    refine ⟨hType, hNonzero, hId, ?_⟩
    rw [hdrSize_eq, hSize]
    omega

section Read

variable {r : RtdeRecipe} {bytes : List UInt8} {b b' : Buf}

theorem readOver_of_gt (b : Buf) {i : Nat} (h : (bytes.take packetBytes).length < i) :
    readOver packetBytes bytes b i = b i := doRecv_byte_of_gt b h

/-- The size that a read of at most one byte announces is that of the recipe's packages. -/
def Announces (r : RtdeRecipe) (bytes : List UInt8) : Prop :=
  if bytes = [] then 4 + r.expectedBytes ≤ 255 else 4 + r.expectedBytes = 256 * (ofBytes bytes 0).toNat

/-- Whether a read of at most one byte is taken is decided by the size it announces and by what is left of a head. -/
theorem accepts_short (hFew : (bytes.take packetBytes).length ≤ 1) (hId : 1 ≤ r.recipeId) (b : Buf) :
    Accepts r (readOver packetBytes bytes b) ↔ Announces r (bytes.take packetBytes) ∧ OldHead r b := by
  have hFirst : readOver packetBytes bytes b 0 = ofBytes (bytes.take packetBytes) 0 :=
    readOver_known packetBytes bytes b (Nat.zero_le _) (by decide)
  have hNonzero (h : ((b 3).toNat : Int) = r.recipeId) : b 3 ≠ 0 := by
    intro hZero
    rw [hZero] at h
    simp only [UInt8.toNat_zero] at h
    omega
  rw [Announces]
  split
  · rename_i hEmpty
    have hNone : (bytes.take packetBytes).length = 0 := by rw [hEmpty, List.length_nil]
    have hZero : (ofBytes (bytes.take packetBytes) 0).toNat = 0 := by rw [ofBytes_of_le (by omega)]; rfl
    have hLt : (b 1).toNat < 256 := (b 1).toNat_lt
    rw [accepts_iff, hFirst, hZero, readOver_of_gt b (by omega), readOver_of_gt b (by omega),
      readOver_of_gt b (by omega)]
    constructor
    · exact fun ⟨hSize, hType, _, hBears⟩ => ⟨by omega, hType, hBears, fun _ => by omega⟩
    · exact fun ⟨hFits, hOld⟩ => ⟨by have := hOld.size hFits; omega, hOld.type, hNonzero hOld.id, hOld.id⟩
  · rename_i hSome
    have hOne := List.length_pos_iff.mpr hSome
    have hSecond : (readOver packetBytes bytes b 1).toNat = 0 := by
      rw [readOver_known packetBytes bytes b (by omega) (by decide), ofBytes_of_le (by omega)]
      rfl
    rw [accepts_iff, hFirst, hSecond, readOver_of_gt b (by omega), readOver_of_gt b (by omega)]
    constructor
    · exact fun ⟨hSize, hType, _, hBears⟩ => ⟨by omega, hType, hBears, fun _ => by omega⟩
    · exact fun ⟨hSize, hOld⟩ => ⟨by omega, hOld.type, hNonzero hOld.id, hOld.id⟩

theorem Announces.short (h : Announces r bytes) : 4 + r.expectedBytes ≤ 255 ∨ 256 ∣ 4 + r.expectedBytes := by
  rw [Announces] at h
  split at h
  · exact Or.inl h
  · exact Or.inr ⟨_, h⟩

theorem exists_announces (h : 4 + r.expectedBytes ≤ 255 ∨ 256 ∣ 4 + r.expectedBytes) (hSize : 4 + r.expectedBytes ≤ 65535) :
    ∃ bytes : List UInt8, bytes.length ≤ 1 ∧ Announces r bytes := by
  cases h with
  | inl hSmall => exact ⟨[], Nat.zero_le 1, by rw [Announces, if_pos rfl]; exact hSmall⟩
  | inr hMultiple =>
    refine ⟨[UInt8.ofNat ((4 + r.expectedBytes) / 256)], le_rfl, ?_⟩
    have hByte : (UInt8.ofNat ((4 + r.expectedBytes) / 256)).toNat = (4 + r.expectedBytes) / 256 := by
      simp only [UInt8.toNat_ofNat']
      omega
    rw [Announces, if_neg (List.cons_ne_nil _ _)]
    change 4 + r.expectedBytes = 256 * (UInt8.ofNat ((4 + r.expectedBytes) / 256)).toNat
    omega

theorem decodedWrites_readOver_iff (hFormed : r.Formed) (hBeyond : ∀ i, packetBytes ≤ i → b i = b' i) :
    decodedWrites r.fields (payload (readOver packetBytes bytes b)) =
        decodedWrites r.fields (payload (readOver packetBytes bytes b')) ↔
      SameFields r ((bytes.take packetBytes).length + 1) b b' := by
  rw [decodedWrites_eq_iff hFormed.wellTyped]
  refine forall₅_congr fun tok _ j _ _ => ?_
  rw [payload, payload]
  constructor
  · intro h hBehind _
    rwa [readOver_of_gt b (by omega), readOver_of_gt b' (by omega)] at h
  · intro h
    cases Nat.lt_or_ge (4 + j) packetBytes with
    | inl hInside =>
      cases Nat.lt_or_ge (bytes.take packetBytes).length (4 + j) with
      | inl hBehind =>
        rw [readOver_of_gt b hBehind, readOver_of_gt b' hBehind]
        exact h hBehind hInside
      | inr hRead =>
        apply Token.ShownAlike.of_eq
        rw [readOver_known packetBytes bytes b hRead hInside, readOver_known packetBytes bytes b' hRead hInside]
    | inr hOutside =>
      apply Token.ShownAlike.of_eq
      rw [readOver_beyond bytes b hOutside, readOver_beyond bytes b' hOutside, hBeyond _ hOutside]

theorem SameFields.mono {first first' : Nat} (h : SameFields r first b b') (hLe : first ≤ first') :
    SameFields r first' b b' :=
  fun tok hMem j hlo hhi hFirst hInside => h tok hMem j hlo hhi (by omega) hInside

/-- No field stands in the head. -/
theorem SameFields.of_head {first : Nat} (h : SameFields r first b b') (hHead : first ≤ 4) (first' : Nat) :
    SameFields r first' b b' :=
  fun tok hMem j hlo hhi _ hInside => h tok hMem j hlo hhi (by omega) hInside

end Read

section Contents

variable {w : World} {b b' : Buf}

theorem parses_iff (data : Buf) : rtdeParseDataPackage data = true ↔ (data 2 = PackageType.dataPackage.code ∧
    data 3 ≠ 0) ∧ 4 ≤ 256 * (data 0).toNat + (data 1).toNat := by
  rw [rtdeParseDataPackage_iff, hdrSize_eq, ← and_assoc]
  exact and_congr_left' and_comm

theorem parses_short {bytes : List UInt8} (hFew : (bytes.take packetBytes).length ≤ 1) (b : Buf) :
    rtdeParseDataPackage (readOver packetBytes bytes b) = true ↔ (b 2 = PackageType.dataPackage.code ∧ b 3 ≠ 0) ∧
      (if (bytes.take packetBytes).length = 0 then 4 ≤ (b 1).toNat
        else 1 ≤ (ofBytes (bytes.take packetBytes) 0).toNat) := by
  rw [parses_iff, readOver_of_gt b (by omega), readOver_of_gt b (by omega),
    readOver_known packetBytes bytes b (Nat.zero_le _) (by decide)]
  refine and_congr_right fun _ => ?_
  split
  · rename_i hNone
    rw [readOver_of_gt b (by omega), ofBytes_of_le (by omega)]
    simp
  · rw [readOver_known packetBytes bytes b (by omega) (by decide), ofBytes_of_le (i := 1) (by omega)]
    simp only [UInt8.toNat_zero]
    omega

theorem parses_of_two_le {bytes : List UInt8} (hTwo : 2 ≤ (bytes.take packetBytes).length) (b b' : Buf) :
    rtdeParseDataPackage (readOver packetBytes bytes b) = rtdeParseDataPackage (readOver packetBytes bytes b') := by
  have hRefused {b : Buf} (h : readOver packetBytes bytes b 2 = 0 ∨ readOver packetBytes bytes b 3 = 0) :
      rtdeParseDataPackage (readOver packetBytes bytes b) = false := by
    rw [← Bool.not_eq_true, parses_iff]
    rintro ⟨⟨hType, hId⟩, -⟩
    cases h with
    | inl hZero =>
      rw [hZero] at hType
      cases hType
    | inr hZero => exact hId hZero
  rcases ReplyOp.head_of_two_le bytes hTwo with hType | hId | ⟨-, hHead⟩
  · rw [hRefused (Or.inl (hType b)), hRefused (Or.inl (hType b'))]
  · rw [hRefused (Or.inr (hId b)), hRefused (Or.inr (hId b'))]
  · rw [Bool.eq_iff_iff, parses_iff, parses_iff]
    simp only [hHead b, hHead b', Nat.reduceLT, Nat.zero_lt_succ, Nat.one_lt_ofNat]

theorem indistinct_without_output (hOut : w.out = none) : w.ReadsAlike b b' ↔ w.Indistinct b b' := by
  have hReceived (b : Buf) (bytes : List UInt8) (ts : UInt64) : { w with buffer := b }.received (some bytes) ts =
      if rtdeParseDataPackage (readOver packetBytes bytes b) then none else some (false, w.mem) := by
    rw [received_over, parseIncomingData_none hOut]
    split <;> rfl
  have hIndistinct : w.Indistinct b b' ↔
      (b 2 = PackageType.dataPackage.code ∧ b 3 ≠ 0 ↔ b' 2 = PackageType.dataPackage.code ∧ b' 3 ≠ 0) ∧
        (b 2 = PackageType.dataPackage.code → b 3 ≠ 0 → (4 ≤ (b 1).toNat ↔ 4 ≤ (b' 1).toNat)) := by
    rw [Indistinct, hOut]
  rw [hIndistinct]
  constructor
  · intro h
    have hSame (bytes : List UInt8) : rtdeParseDataPackage (readOver packetBytes bytes b) = true ↔
        rtdeParseDataPackage (readOver packetBytes bytes b') = true := by
      have hRead := h (some bytes) 0
      rw [hReceived, hReceived] at hRead
      cases hParse : rtdeParseDataPackage (readOver packetBytes bytes b) <;>
        cases hParse' : rtdeParseDataPackage (readOver packetBytes bytes b') <;> simp [hParse, hParse'] at hRead ⊢
    have hOne : 1 ≤ (ofBytes [1] 0).toNat := by decide
    have hByte := hSame [1]
    have hNone := hSame []
    rw [parses_short (by decide), parses_short (by decide), if_neg (by decide), if_neg (by decide)] at hByte
    rw [parses_short (by decide), parses_short (by decide), if_pos (by decide), if_pos (by decide)] at hNone
    have hHead := (and_iff_left hOne).symm.trans (hByte.trans (and_iff_left hOne))
    refine ⟨hHead, fun hType hId => ?_⟩
    have hOld : b 2 = PackageType.dataPackage.code ∧ b 3 ≠ 0 := ⟨hType, hId⟩
    rwa [and_iff_right hOld, and_iff_right (hHead.mp hOld)] at hNone
  · rintro ⟨hHead, hSize⟩ reply ts
    cases reply with
    | none => rfl
    | some bytes =>
      suffices hSame : rtdeParseDataPackage (readOver packetBytes bytes b) =
          rtdeParseDataPackage (readOver packetBytes bytes b') by rw [hReceived, hReceived, hSame]
      cases Nat.lt_or_ge (bytes.take packetBytes).length 2 with
      | inl hFew =>
        rw [Bool.eq_iff_iff, parses_short (by omega), parses_short (by omega), ← hHead]
        refine and_congr_right fun ⟨hType, hId⟩ => ?_
        rw [hSize hType hId]
      | inr hTwo => exact parses_of_two_le hTwo b b'

section Output

variable {i : Nat} (hOut : w.out = some i) (hFormed : (w.recipes i).Formed) (hDir : (w.recipes i).dirOut = true)
  (hBeyond : ∀ j, packetBytes ≤ j → b j = b' j)

include hOut hFormed hDir hBeyond

/-- One read has the same effect over both contents if and only if it is taken over both or over none, and what it does
not bring of the fields shows the same in both. -/
theorem received_eq_iff (bytes : List UInt8) (ts : UInt64) :
    { w with buffer := b }.received (some bytes) ts = { w with buffer := b' }.received (some bytes) ts ↔
      (Accepts (w.recipes i) (readOver packetBytes bytes b) ↔ Accepts (w.recipes i) (readOver packetBytes bytes b')) ∧
        (Accepts (w.recipes i) (readOver packetBytes bytes b) →
          Accepts (w.recipes i) (readOver packetBytes bytes b') →
          SameFields (w.recipes i) ((bytes.take packetBytes).length + 1) b b') := by
  rw [received_over, received_over, parsed_eq_iff hOut hFormed hDir, decodedWrites_readOver_iff hFormed hBeyond]

theorem received_of_indistinct (hSame : w.Indistinct b b') (bytes : List UInt8) (ts : UInt64) :
    { w with buffer := b }.received (some bytes) ts = { w with buffer := b' }.received (some bytes) ts := by
  rw [Indistinct, hOut] at hSame
  rw [received_eq_iff hOut hFormed hDir hBeyond]
  rcases Classical.em ((1 ≤ (w.recipes i).recipeId ∧ (w.recipes i).recipeId ≤ 255) ∧
    4 + (w.recipes i).expectedBytes ≤ 65535) with ⟨⟨hLow, hHigh⟩, hSize⟩ | hNever
  · obtain ⟨hFields, hHead⟩ := hSame hDir hLow hHigh hSize
    cases Nat.lt_or_ge (bytes.take packetBytes).length 2 with
    | inl hFew =>
      rw [accepts_short (by omega) hLow, accepts_short (by omega) hLow]
      refine ⟨and_congr_right fun h => (hHead h.short).1, fun h _ => ?_⟩
      exact ((hHead h.1.short).2 h.2).of_head le_rfl _
    | inr hTwo =>
      rcases ReplyOp.head_of_two_le bytes hTwo with hType | hId | ⟨hFour, hBytes⟩
      · have hRefused (b : Buf) : ¬ Accepts (w.recipes i) (readOver packetBytes bytes b) :=
          fun h => h.nonzero.1 (hType b)
        exact ⟨iff_of_false (hRefused b) (hRefused b'), fun h => absurd h (hRefused b)⟩
      · have hRefused (b : Buf) : ¬ Accepts (w.recipes i) (readOver packetBytes bytes b) :=
          fun h => h.nonzero.2 (hId b)
        exact ⟨iff_of_false (hRefused b) (hRefused b'), fun h => absurd h (hRefused b)⟩
      · have hByte : ∀ k < 4, readOver packetBytes bytes b k = readOver packetBytes bytes b' k :=
          fun k hLt => (hBytes b k hLt).trans (hBytes b' k hLt).symm
        refine ⟨⟨fun h => h.congr hByte, fun h => h.congr fun k hLt => (hByte k hLt).symm⟩, fun _ _ => ?_⟩
        exact hFields.mono (by omega)
  · have hRefused (b : Buf) : ¬ Accepts (w.recipes i) (readOver packetBytes bytes b) := by
      intro h
      have hFirst : (readOver packetBytes bytes b 0).toNat < 256 := (readOver packetBytes bytes b 0).toNat_lt
      have hSecond : (readOver packetBytes bytes b 1).toNat < 256 := (readOver packetBytes bytes b 1).toNat_lt
      have hSize := h.size
      exact hNever ⟨h.id, by omega⟩
    exact ⟨iff_of_false (hRefused b) (hRefused b'), fun h => absurd h (hRefused b)⟩

/-- A head for the recipe, an empty read and a read of one byte tell contents apart. -/
theorem indistinct_of_readsAlike (h : w.ReadsAlike b b') : w.Indistinct b b' := by
  rw [Indistinct, hOut]
  intro _ hLow hHigh hSize
  have hRead (bytes : List UInt8) := (received_eq_iff hOut hFormed hDir hBeyond bytes 0).mp (h (some bytes) 0)
  obtain ⟨size, hTotal⟩ : ∃ size, 4 + (w.recipes i).expectedBytes = size := ⟨_, rfl⟩
  rw [hTotal] at hSize ⊢
  constructor
  · obtain ⟨head, hHead⟩ : ∃ head : List UInt8, [UInt8.ofNat (size / 256), UInt8.ofNat (size % 256), 85,
        UInt8.ofNat (w.recipes i).recipeId.toNat] = head := ⟨_, rfl⟩
    have hLength : (head.take packetBytes).length = 4 := by rw [← hHead]; rfl
    have hAccepts (b : Buf) : Accepts (w.recipes i) (readOver packetBytes head b) := by
      have hBytes {k : Nat} (hLt : k < 4) : readOver packetBytes head b k = ofBytes (head.take packetBytes) k :=
        readOver_known packetBytes head b (by omega) (by unfold packetBytes; omega)
      have hHigher : (UInt8.ofNat (size / 256)).toNat = size / 256 := by
        simp only [UInt8.toNat_ofNat']
        omega
      have hLower : (UInt8.ofNat (size % 256)).toNat = size % 256 := by
        simp only [UInt8.toNat_ofNat']
        omega
      refine accepts_of_head ⟨hLow, hHigh⟩ ?_ ?_ ?_
      · rw [hBytes (by decide), hBytes (by decide), hTotal, ← hHead]
        change 256 * (UInt8.ofNat (size / 256)).toNat + (UInt8.ofNat (size % 256)).toNat = size
        omega
      · rw [hBytes (by decide), ← hHead]
        rfl
      · rw [hBytes (by decide), ← hHead]
        rfl
    have hBehind := (hRead head).2 (hAccepts b) (hAccepts b')
    rwa [hLength] at hBehind
  · intro hShort
    rw [← hTotal] at hSize hShort
    obtain ⟨bytes, hFew, hAnnounces⟩ := exists_announces hShort hSize
    have hTake : bytes.take packetBytes = bytes := List.take_of_length_le (by unfold packetBytes; omega)
    have hBoth := hRead bytes
    rw [accepts_short (by rwa [hTake]) hLow, accepts_short (by rwa [hTake]) hLow, hTake, and_iff_right hAnnounces,
      and_iff_right hAnnounces] at hBoth
    refine ⟨hBoth.1, fun hOld => ?_⟩
    exact (hBoth.2 hOld (hBoth.1.mp hOld)).of_head (by omega) 4

end Output

/-- Two contents of the buffer make no difference to any read if and only if they agree in what it can show of them. -/
theorem readsAlike_iff (hFormed : w.AllFormed) (hBeyond : ∀ j, packetBytes ≤ j → b j = b' j) :
    w.ReadsAlike b b' ↔ w.Indistinct b b' := by
  cases hOut : w.out with
  | none => exact indistinct_without_output hOut
  | some i =>
    cases hDir : (w.recipes i).dirOut with
    | true =>
      refine ⟨indistinct_of_readsAlike hOut (hFormed i) hDir hBeyond, ?_⟩
      intro hSame reply ts
      cases reply with
      | none => rfl
      | some bytes => exact received_of_indistinct hOut (hFormed i) hDir hBeyond hSame bytes ts
    | false =>
      apply iff_of_true
      · intro reply ts
        cases reply with
        | none => rfl
        | some bytes =>
          rw [received_over, received_over, parseIncomingData_input hOut hDir, parseIncomingData_input hOut hDir]
          rfl
      · rw [Indistinct, hOut]
        intro hOutput
        rw [hDir] at hOutput
        cases hOutput

end Contents

end World

end LibUrx.Rtde
