import LibUrx.Rtde.Settled
import LibUrx.Rtde.TypeScan

/-! # Answers that spell the types out

A controller answers a registration with the names of the types, separated by commas. Such an answer is
accepted by the recipe whose fields have these types, whatever the size in its head.
-/
namespace LibUrx.Rtde
open Bytes Text
set_option autoImplicit false

def typeName : DataType → List UInt8
  | .bool => text "BOOL"
  | .uint8 => text "UINT8"
  | .uint32 => text "UINT32"
  | .uint64 => text "UINT64"
  | .int32 => text "INT32"
  | .double => text "DOUBLE"
  | .vector3d => text "VECTOR3D"
  | .vector6d => text "VECTOR6D"
  | .vector6int32 => text "VECTOR6INT32"
  | .vector6uint32 => text "VECTOR6UINT32"
  | .string => text "STRING"
  | .inUse => text "IN_USE"
  | .notFound => text "NOT_FOUND"

def typeNames (types : List DataType) : List UInt8 := [comma].intercalate (types.map typeName)

/-- A spelling that the scan lets through, also without its last character. -/
structure Spelled (name : List UInt8) : Prop where
  whole : isTypeName name = true
  shortened : isTypeName name.dropLast = true
  comma : Text.comma ∉ name
  zero : 0 ∉ name
  long : 2 ≤ name.length

set_option maxRecDepth 10000 in
theorem spelled_typeName {type : DataType} (h : type ∈ outputTypes) : Spelled (typeName type) := by
  simp only [outputTypes, List.mem_cons, List.not_mem_nil, or_false] at h
  rcases h with rfl | rfl | rfl | rfl | rfl | rfl | rfl | rfl | rfl <;>
    exact ⟨by decide, by decide, by decide, by decide, by decide⟩

set_option maxRecDepth 10000 in
theorem dataNameToType_typeName {type : DataType} (h : type ∈ outputTypes) :
    dataNameToType (trim (typeName type)) (cStr (trim (typeName type))).length = type := by
  simp only [outputTypes, List.mem_cons, List.not_mem_nil, or_false] at h
  rcases h with rfl | rfl | rfl | rfl | rfl | rfl | rfl | rfl | rfl <;> decide

namespace Spelled

variable {name : List UInt8}

theorem item (h : Spelled name) : Item name := ⟨h.comma, h.zero, h.long⟩

theorem passes {items : List (List UInt8)} (h : ∀ item ∈ items, Spelled item) : checkedItems items = true := by
  induction items with
  | nil => rfl
  | cons item rest ih =>
    have hItem := h item List.mem_cons_self
    cases rest with
    | nil => exact hItem.shortened
    | cons next rest =>
      have hRest := ih (List.forall_mem_of_forall_mem_cons h)
      exact (Bool.and_eq_true _ _).mpr ⟨hItem.whole, hRest⟩

end Spelled

/-- Items that are spelled as types, separated by commas, with letters behind them, pass the scan. -/
theorem scanTypes_items {buf : Buf} {stop start : Nat} {items : List (List UInt8)} (hNe : items ≠ [])
    (hSpelled : ∀ item ∈ items, Spelled item)
    (hText : slice buf start (([comma].intercalate items).length + 1) = [comma].intercalate items ++ [0])
    (hLetters : ∀ i, start + ([comma].intercalate items).length < i → i ≤ stop → buf i = 65) (rounds : Nat) :
    scanTypes buf stop rounds start start = true := by
  -- a frame that ends before the text does is no stricter than one that ends with it
  have hStop : stop ≤ max stop (start + ([comma].intercalate items).length) := le_max_left _ _
  apply scanTypes_of_scan hStop
  rw [scan_list hNe (fun item hMem => (hSpelled item hMem).item) hText (le_max_right _ _) (Or.inl rfl),
    Spelled.passes hSpelled, Bool.true_and]
  rw [slice_add] at hText
  obtain ⟨hTerminator, -⟩ := List.cons.inj (List.append_inj' hText rfl).2
  have hTerminator : buf (start + ([comma].intercalate items).length) = 0 := hTerminator
  have hKnown : buf (start + ([comma].intercalate items).length) ≠ comma := by
    rw [hTerminator]
    decide
  exact scanTypes_letters hKnown (fun i hGt hLe => hLetters i hGt (by omega)) _ _ (Nat.le_succ _)

theorem cStr_of_zero {s rest : List UInt8} (h : 0 ∉ s) : cStr (s ++ 0 :: rest) = s := by
  induction s with
  | nil => rfl
  | cons c s ih =>
    obtain ⟨hHead, hTail⟩ := not_or.mp (mt List.mem_cons.mpr h)
    rw [List.cons_append, cStr, List.takeWhile_cons_of_pos (by simpa using Ne.symm hHead)]
    exact congrArg (c :: ·) (ih hTail)

theorem respVariables_of_text {buf : Buf} {names : List UInt8} (hFits : 4 + names.length < packetBytes)
    (hZero : 0 ∉ names) (hText : slice buf 4 (names.length + 1) = names ++ [0]) : respVariables buf = names := by
  have hSplit : packetBytes - 4 = names.length + 1 + (packetBytes - 4 - (names.length + 1)) := by omega
  rw [respVariables, hSplit, slice_add, hText, List.append_assoc]
  exact cStr_of_zero hZero

theorem notMem_intercalate {c : UInt8} {sep : List UInt8} {items : List (List UInt8)} (hSep : c ∉ sep)
    (hItems : ∀ item ∈ items, c ∉ item) : c ∉ sep.intercalate items := by
  induction items with
  | nil => exact List.not_mem_nil
  | cons item rest ih =>
    have hRest := ih (List.forall_mem_of_forall_mem_cons hItems)
    have hItem := hItems item List.mem_cons_self
    cases rest with
    | nil => rwa [List.intercalate_singleton]
    | cons next rest =>
      rw [List.intercalate_cons_cons, List.mem_append, List.mem_append]
      rintro ((hMem | hMem) | hMem)
      · exact hItem hMem
      · exact hSep hMem
      · exact hRest hMem

namespace RtdeRecipe

def types (r : RtdeRecipe) : List DataType := r.fields.map Token.type

theorem Formed.mem_outputTypes {r : RtdeRecipe} (h : r.Formed) {type : DataType} (hMem : type ∈ r.types) :
    type ∈ outputTypes := by
  obtain ⟨tok, hTok, rfl⟩ := List.mem_map.mp hMem
  exact (h.wellTyped tok hTok).mem_outputTypes

theorem Formed.spelled {r : RtdeRecipe} (h : r.Formed) : ∀ item ∈ r.types.map typeName, Spelled item := by
  intro item hMem
  obtain ⟨type, hType, rfl⟩ := List.mem_map.mp hMem
  exact spelled_typeName (h.mem_outputTypes hType)

theorem Formed.zero_notMem {r : RtdeRecipe} (h : r.Formed) : 0 ∉ typeNames r.types :=
  notMem_intercalate (by decide) fun item hMem => (h.spelled item hMem).zero

theorem Formed.named {r : RtdeRecipe} (h : r.Formed) : r.Named (typeNames r.types) := by
  have hItems : getlines comma (typeNames r.types) = r.types.map typeName := by
    apply getlines_intercalate (fun item hMem => (h.spelled item hMem).comma)
    intro item hLast hNil
    have hLong := (h.spelled item (List.mem_of_mem_getLast? hLast)).long
    rw [hNil] at hLong
    simp at hLong
  refine ⟨by rw [hItems, types, List.length_map, List.length_map], ?_⟩
  rw [hItems, types, List.map_map, ← List.map_prod_left_eq_zip, List.all_map, List.all_eq_true]
  intro tok hMem
  simp only [Function.comp_apply, Token.setResponseType, beq_iff_eq]
  exact (dataNameToType_typeName (h.wellTyped tok hMem).mem_outputTypes).symm

/-- The types spelled out, a terminator, and letters as far as the scan may go. -/
theorem Formed.accepts_spelled {r : RtdeRecipe} (h : r.Formed) (hFields : r.fields ≠ []) {buf : Buf}
    (hHead : HeadValid buf)
    (hText : slice buf 4 ((typeNames r.types).length + 1) = typeNames r.types ++ [0])
    (hFits : 4 + (typeNames r.types).length < packetBytes)
    (hLetters : ∀ i, 4 + (typeNames r.types).length < i → i ≤ hdrSize buf → buf i = 65) :
    (r.registerResponse buf).1 = true := by
  have hTypes : r.types.map typeName ≠ [] := by simpa [types] using hFields
  refine (r.registerResponse_true_iff buf).mpr ⟨hHead, ?_, ?_⟩
  · exact scanTypes_items hTypes h.spelled hText hLetters _
  · rw [respVariables_of_text hFits h.zero_notMem hText]
    exact h.named

/-- A recipe whose types can be spelled out in a buffer is answerable in every size. -/
theorem Formed.answerable {r : RtdeRecipe} (h : r.Formed) (hFields : r.fields ≠ [])
    (hFits : 4 + (typeNames r.types).length < packetBytes) {size : Nat} (hLo : 3 ≤ size) (hHi : size ≤ 2000) :
    r.Answerable size := by
  let buf := putSize (putType (patch (fun _ => 65) 4 (typeNames r.types ++ [0])) .setupOutputs) size
  have hBehind {i : Nat} (hGe : 4 ≤ i) : buf i = patch (fun _ => 65) 4 (typeNames r.types ++ [0]) i := by
    have hType : putType (patch (fun _ => 65) 4 (typeNames r.types ++ [0])) .setupOutputs i =
        patch (fun _ => 65) 4 (typeNames r.types ++ [0]) i := patch_outside (Or.inr (by simp only [List.length_singleton]; omega))
    rw [← hType]
    exact putSize_of_le _ size (by omega)
  have hSize : hdrSize buf = size := (hdrSize_putSize _ size).trans (Nat.mod_eq_of_lt (by omega))
  have hHead : HeadValid buf := by
    refine (headValid_iff buf).mpr ⟨hSize ▸ hLo, hSize ▸ hHi, Or.inl ?_⟩
    exact putSize_of_le _ size le_rfl
  refine ⟨buf, hSize, h.accepts_spelled hFields hHead ?_ hFits fun i hGt _ => ?_⟩
  · have hPatch := slice_patch_self (fun _ => 65) 4 (typeNames r.types ++ [0])
    rw [List.length_append, List.length_singleton] at hPatch
    rw [← hPatch]
    exact slice_congr fun i hlo _ => hBehind hlo
  · rw [hBehind (by omega)]
    exact patch_outside (Or.inr (by simp only [List.length_append, List.length_singleton]; omega))

end RtdeRecipe

/-- The answer of a controller that files the recipe under `id`. -/
def typesAnswer (type : PackageType) (id : UInt8) (types : List DataType) : List UInt8 :=
  let names := typeNames types
  [UInt8.ofNat ((4 + names.length) / 256), UInt8.ofNat (4 + names.length), type.code, id] ++ names

section Answer

variable (type : PackageType) (id : UInt8) (types : List DataType)

theorem length_typesAnswer : (typesAnswer type id types).length = 4 + (typeNames types).length := by
  simp only [typesAnswer, List.length_append, List.length_cons, List.length_nil]

theorem hdrSize_typesAnswer (hFits : 4 + (typeNames types).length < 65536) :
    hdrSize (ofBytes (typesAnswer type id types)) = 4 + (typeNames types).length := by
  have hHigh : (ofBytes (typesAnswer type id types) 0) = UInt8.ofNat ((4 + (typeNames types).length) / 256) := rfl
  have hLow : (ofBytes (typesAnswer type id types) 1) = UInt8.ofNat (4 + (typeNames types).length) := rfl
  rw [hdrSize_eq, hHigh, hLow, UInt8.toNat_ofNat', UInt8.toNat_ofNat']
  omega

theorem slice_typesAnswer : slice (ofBytes (typesAnswer type id types)) 4 ((typeNames types).length + 1) =
    typeNames types ++ [0] := by
  have hPatch : ofBytes (typesAnswer type id types) = patch (ofBytes ((typesAnswer type id types).take 4)) 4
      (typeNames types) := (patch_append _ 0 ((typesAnswer type id types).take 4) (typeNames types)).symm
  have hEnd : ofBytes (typesAnswer type id types) (4 + (typeNames types).length) = 0 :=
    ofBytes_of_le (length_typesAnswer type id types).le
  have hLast : slice (ofBytes (typesAnswer type id types)) (4 + (typeNames types).length) 1 = [0] :=
    congrArg (fun c => [c]) hEnd
  rw [slice_add, hLast, hPatch, slice_patch_self]

section Whole

variable (hFits : 4 + (typeNames types).length ≤ 2000) (b : Buf)

include hFits

theorem answerOver_typesAnswer {i : Nat} (hLe : i ≤ 4 + (typeNames types).length) :
    answerOver (typesAnswer type id types) b i = ofBytes (typesAnswer type id types) i := by
  have hPacket : packetBytes = 2048 := rfl
  have hLength := length_typesAnswer type id types
  have hTake : (typesAnswer type id types).take packetBytes = typesAnswer type id types :=
    List.take_of_length_le (by omega)
  have hSame := answerOver_known (typesAnswer type id types) b (i := i) (by rw [hTake]; omega) (by omega)
  rwa [hTake] at hSame

theorem hdrSize_answer : hdrSize (answerOver (typesAnswer type id types) b) = 4 + (typeNames types).length := by
  rw [← hdrSize_typesAnswer type id types (by omega)]
  exact hdrSize_congr (answerOver_typesAnswer type id types hFits b (by omega))
    (answerOver_typesAnswer type id types hFits b (by omega))

theorem slice_answer : slice (answerOver (typesAnswer type id types) b) 4 ((typeNames types).length + 1) =
    typeNames types ++ [0] := by
  rw [← slice_typesAnswer type id types]
  exact slice_congr fun i _ hhi => answerOver_typesAnswer type id types hFits b (by omega)

theorem respVariables_answer (hZero : 0 ∉ typeNames types) :
    respVariables (answerOver (typesAnswer type id types) b) = typeNames types :=
  respVariables_of_text (by unfold packetBytes; omega) hZero (slice_answer type id types hFits b)

end Whole

theorem RtdeRecipe.Formed.accepts_typesAnswer {r : RtdeRecipe} (h : r.Formed) (hFields : r.fields ≠ [])
    (hType : type = .setupOutputs ∨ type = .setupInputs) (hFits : 4 + (typeNames r.types).length ≤ 2000) (b : Buf) :
    (r.registerResponse (answerOver (typesAnswer type id r.types) b)).1 = true ∧
      hdrRecipeId (answerOver (typesAnswer type id r.types) b) = id := by
  have hPacket : packetBytes = 2048 := rfl
  have hSize := hdrSize_answer type id r.types hFits b
  refine ⟨h.accepts_spelled hFields ?_ (slice_answer type id r.types hFits b) (by omega) fun i hGt hLe => ?_, ?_⟩
  · refine (headValid_iff _).mpr ⟨by omega, by omega, ?_⟩
    rw [answerOver_typesAnswer type id r.types hFits b (by omega)]
    exact hType.imp (congrArg PackageType.code) (congrArg PackageType.code)
  · omega
  · exact answerOver_typesAnswer type id r.types hFits b (by omega)

end Answer

end LibUrx.Rtde
