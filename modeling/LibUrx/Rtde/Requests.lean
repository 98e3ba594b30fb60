import LibUrx.Rtde.Recipe

/-! # Setup requests

A request is built in the block of its recipe, which earlier requests have used. The functions that build
it are given here once more, on a memory that remembers what they assign.
-/
namespace LibUrx.Rtde
open Bytes Text
set_option autoImplicit false

def headBytes (dirOut : Bool) : Nat := if dirOut then 11 else 3

namespace Stores

def putSize (hdr : Memory) (n : Nat) : Memory := hdr.write 0 (leBytes 2 (htons n))

def putType (hdr : Memory) (t : PackageType) : Memory := hdr.write 2 [t.code]

def rtdeControlMsgClear (hdr : Memory) (dirOut : Bool) : Memory :=
  if dirOut then
    ((putSize (putType hdr .setupOutputs) 11).write 3 (leBytes 8 0)).write 11 [0]
  else
    (putType (putSize hdr 3) .setupInputs).write 3 [0]

/-- The copying loop, character by character, and the terminator behind it. -/
def copy (hdr : Memory) (off : Nat) (s : List UInt8) : Memory :=
  (hdr.writeAll (blocks off (s.map fun c => [c]))).write (off + s.length) [0]

/-- The two requests differ in the head alone. -/
def buildMsg (dirOut : Bool) (hdr : Memory) (payload : List UInt8) : Bool × Memory :=
  let len := (cStr payload).length
  if packetBytes - headBytes dirOut < len then (false, hdr) else
  let hdr := rtdeControlMsgClear hdr dirOut
  let hdr := copy hdr (headBytes dirOut) (cStr payload)
  (true, putSize hdr (hdrSize hdr.byte + len))

def rtdeControlMsgIn : Memory → List UInt8 → Bool × Memory := buildMsg false

def rtdeControlMsgOut : Memory → List UInt8 → Bool × Memory := buildMsg true

theorem byte_clear (hdr : Memory) (dirOut : Bool) :
    (rtdeControlMsgClear hdr dirOut).byte = Rtde.rtdeControlMsgClear hdr.byte dirOut := by
  cases dirOut <;> rfl

theorem flatten_bytes (s : List UInt8) : (s.map fun c => [c]).flatten = s := by
  rw [← List.flatMap_def, List.flatMap_singleton']

theorem byte_copy (hdr : Memory) (off : Nat) (s : List UInt8) :
    (copy hdr off s).byte = patch (patch hdr.byte off s) (off + s.length) [0] := by
  rw [copy, Memory.byte_write, Memory.byte_writeAll_blocks, flatten_bytes]

theorem written_clear (hdr : Memory) (dirOut : Bool) (i : Nat) :
    (rtdeControlMsgClear hdr dirOut).written i = true ↔ i ≤ headBytes dirOut ∨ hdr.written i = true := by
  cases dirOut with
  | true =>
    simp only [rtdeControlMsgClear, putSize, putType, headBytes, if_true, Memory.written_write, List.length_singleton,
      length_leBytes, ← or_assoc]
    apply or_congr_left
    omega
  | false =>
    simp only [rtdeControlMsgClear, putSize, putType, headBytes, Bool.false_eq_true, if_false, Memory.written_write,
      List.length_singleton, length_leBytes, ← or_assoc]
    apply or_congr_left
    omega

theorem written_copy (hdr : Memory) (off : Nat) (s : List UInt8) (i : Nat) :
    (copy hdr off s).written i = true ↔ off ≤ i ∧ i ≤ off + s.length ∨ hdr.written i = true := by
  rw [copy, Memory.written_write, Memory.written_writeAll_blocks, flatten_bytes, List.length_singleton, ← or_assoc]
  apply or_congr_left
  omega

end Stores

def rtdeControlMsg (dirOut : Bool) : Buf → List UInt8 → Bool × Buf :=
  if dirOut then rtdeControlMsgOut else rtdeControlMsgIn

section Request

variable (dirOut : Bool) (hdr : Buf) (payload : List UInt8)

theorem hdrSize_clear : hdrSize (rtdeControlMsgClear hdr dirOut) = headBytes dirOut := by
  cases dirOut with
  | true =>
    rw [rtdeControlMsgClear, if_pos rfl, hdrSize_patch _ _ (by omega), hdrSize_patch _ _ (by omega), hdrSize_putSize]
    rfl
  | false =>
    rw [rtdeControlMsgClear, if_neg Bool.false_ne_true, hdrSize_patch _ _ (by omega), putType,
      hdrSize_patch _ _ (by omega), hdrSize_putSize]
    rfl

theorem hdrType_clear : hdrType (rtdeControlMsgClear hdr dirOut) =
    (if dirOut then PackageType.setupOutputs else .setupInputs).code := by
  cases dirOut with
  | true =>
    rw [hdrType, rtdeControlMsgClear, if_pos rfl, patch_outside (Or.inl (by omega)), patch_outside (Or.inl (by omega)),
      putSize_of_le _ _ le_rfl]
    rfl
  | false =>
    rw [hdrType, rtdeControlMsgClear, if_neg Bool.false_ne_true, patch_outside (Or.inl (by omega))]
    rfl

/-- The block with the text and its terminator behind a cleared head. -/
def copied : Buf :=
  patch (patch (rtdeControlMsgClear hdr dirOut) (headBytes dirOut) (cStr payload))
    (headBytes dirOut + (cStr payload).length) [0]

theorem rtdeControlMsg_eq : rtdeControlMsg dirOut hdr payload =
    if packetBytes - headBytes dirOut < (cStr payload).length then (false, hdr) else
      (true, putSize (copied dirOut hdr payload) (hdrSize (copied dirOut hdr payload) + (cStr payload).length)) := by
  cases dirOut <;> rfl

theorem byte_buildMsg (hdr : Memory) : rtdeControlMsg dirOut hdr.byte payload =
    ((Stores.buildMsg dirOut hdr payload).1, (Stores.buildMsg dirOut hdr payload).2.byte) := by
  rw [rtdeControlMsg_eq, Stores.buildMsg]
  dsimp only
  split
  · rfl
  · rw [Stores.putSize, Memory.byte_write, Stores.byte_copy, Stores.byte_clear]
    rfl

theorem headBytes_bounds : 2 < headBytes dirOut ∧ headBytes dirOut < packetBytes := by
  cases dirOut <;> decide

theorem hdrSize_copied : hdrSize (copied dirOut hdr payload) = headBytes dirOut := by
  have hHead := headBytes_bounds dirOut
  rw [copied, hdrSize_patch _ _ (by omega), hdrSize_patch _ _ (by omega), hdrSize_clear]

theorem slice_copied : slice (copied dirOut hdr payload) (headBytes dirOut) ((cStr payload).length + 1) =
    cStr payload ++ [0] := by
  rw [copied, patch_append]
  have hSelf := slice_patch_self (rtdeControlMsgClear hdr dirOut) (headBytes dirOut) (cStr payload ++ [0])
  rwa [List.length_append, List.length_singleton] at hSelf

theorem rtdeControlMsg_of_le (h : (cStr payload).length ≤ packetBytes - headBytes dirOut) :
    ∃ packet, rtdeControlMsg dirOut hdr payload = (true, packet) ∧
      hdrType packet = (if dirOut then PackageType.setupOutputs else .setupInputs).code ∧
      slice packet (headBytes dirOut) ((cStr payload).length + 1) = cStr payload ++ [0] ∧
      hdrSize packet = headBytes dirOut + (cStr payload).length := by
  have hHead := headBytes_bounds dirOut
  have hPacket : packetBytes = 2048 := rfl
  rw [rtdeControlMsg_eq, if_neg (by omega), hdrSize_copied]
  refine ⟨_, rfl, ?_, ?_, ?_⟩
  · rw [hdrType, putSize_of_le _ _ le_rfl, copied, patch_outside (Or.inl (by omega)), patch_outside (Or.inl (by omega))]
    exact hdrType_clear dirOut hdr
  · rw [← slice_copied dirOut hdr payload]
    exact slice_congr fun i hLo _ => putSize_of_le _ _ (by omega)
  · rw [hdrSize_putSize, Nat.mod_eq_of_lt (by omega)]

end Request

/-- What a request assigns stays in the block, and its size counts what stands before the terminator. -/
structure Contained (dirOut : Bool) (payload : List UInt8) (result : Bool × Memory) : Prop where
  inside : ∀ i, result.2.written i = true → i < packetBytes
  terminated : result.1 = true →
    slice result.2.byte (headBytes dirOut) ((cStr payload).length + 1) = cStr payload ++ [0]
  size : result.1 = true → hdrSize result.2.byte = headBytes dirOut + (cStr payload).length

theorem written_buildMsg {dirOut : Bool} {hdr : Buf} {payload : List UInt8}
    (h : (cStr payload).length ≤ packetBytes - headBytes dirOut) (i : Nat) :
    (Stores.buildMsg dirOut ⟨hdr, []⟩ payload).2.written i = true ↔ i ≤ headBytes dirOut + (cStr payload).length := by
  have hHead := headBytes_bounds dirOut
  rw [Stores.buildMsg, if_neg (by omega)]
  dsimp only
  rw [Stores.putSize, Memory.written_write, Stores.written_copy, Stores.written_clear,
    or_iff_left (Memory.not_written_new hdr i), length_leBytes]
  omega

theorem contained_buildMsg_iff (dirOut : Bool) (hdr : Buf) (payload : List UInt8) :
    Contained dirOut payload (Stores.buildMsg dirOut ⟨hdr, []⟩ payload) ↔
      (cStr payload).length ≠ packetBytes - headBytes dirOut := by
  have hHead := headBytes_bounds dirOut
  have hSame : rtdeControlMsg dirOut hdr payload = _ := byte_buildMsg dirOut payload ⟨hdr, []⟩
  cases Nat.lt_or_ge (packetBytes - headBytes dirOut) (cStr payload).length with
  | inl hGt =>
    have hNone : Stores.buildMsg dirOut ⟨hdr, []⟩ payload = (false, ⟨hdr, []⟩) := if_pos hGt
    rw [hNone]
    apply iff_of_true
    · constructor
      · intro i hWritten
        cases hWritten
      · exact fun hOk => absurd hOk Bool.false_ne_true
      · exact fun hOk => absurd hOk Bool.false_ne_true
    · omega
  | inr hLe =>
    obtain ⟨packet, hMsg, -, hText, hSize⟩ := rtdeControlMsg_of_le dirOut hdr payload hLe
    have hByte : (Stores.buildMsg dirOut ⟨hdr, []⟩ payload).2.byte = packet :=
      (Prod.mk.inj (hSame.symm.trans hMsg)).2
    constructor
    · intro h
      have hEnd := h.inside _ ((written_buildMsg hLe _).mpr le_rfl)
      omega
    · intro hNe
      refine ⟨?_, fun _ => hByte ▸ hText, fun _ => hByte ▸ hSize⟩
      intro i hWritten
      have := (written_buildMsg hLe i).mp hWritten
      omega

/-- Requests stay in their block, except for the one whose terminator is the first byte behind it. -/
theorem contained_iff (hdr : Buf) (payload : List UInt8) :
    (Contained false payload (Stores.rtdeControlMsgIn ⟨hdr, []⟩ payload) ↔ (cStr payload).length ≠ 2045) ∧
      (Contained true payload (Stores.rtdeControlMsgOut ⟨hdr, []⟩ payload) ↔ (cStr payload).length ≠ 2037) :=
  ⟨contained_buildMsg_iff false hdr payload, contained_buildMsg_iff true hdr payload⟩

theorem terminator_behind_block :
    ¬ ∀ (t : PackageType) (payload : List UInt8),
      Contained false payload (Stores.rtdeControlMsgIn ⟨rtdeHdrGet t, []⟩ payload) := by
  intro h
  have hText : cStr (List.replicate 2045 65) = List.replicate 2045 65 := cStr_eq_self_iff.mpr fun hMem =>
    absurd (List.eq_of_mem_replicate hMem) (by decide)
  have hWritten : (Stores.buildMsg false ⟨rtdeHdrGet .setupInputs, []⟩ (List.replicate 2045 65)).2.written 2048 =
      true := (written_buildMsg (by rw [hText, List.length_replicate]; decide) 2048).mpr
    (by rw [hText, List.length_replicate]; decide)
  exact absurd ((h .setupInputs (List.replicate 2045 65)).inside 2048 hWritten) (by decide)

namespace RtdeRecipe

def fieldNames (r : RtdeRecipe) : List UInt8 := [comma].intercalate (r.fields.map Token.name)

/-- The packet asks for the fields of the recipe, by their names. -/
structure Requests (r : RtdeRecipe) (packet : Buf) : Prop where
  type : hdrType packet = (if r.dirOut then PackageType.setupOutputs else .setupInputs).code
  names : r.fieldNames ++ [0] <+: slice packet (headBytes r.dirOut) (packetBytes - headBytes r.dirOut)
  size : hdrSize packet = headBytes r.dirOut + r.fieldNames.length

theorem foldl_names (fields : List Token) (res : List UInt8) (hNe : fields ≠ []) :
    fields.foldl (fun res v => res ++ (v.name ++ [comma])) res =
      res ++ [comma].intercalate (fields.map Token.name) ++ [comma] := by
  induction fields generalizing res with
  | nil => exact absurd rfl hNe
  | cons tok rest ih =>
    rw [List.foldl_cons]
    cases rest with
    | nil => simp
    | cons next rest =>
      rw [ih _ (by simp), List.map_cons, List.map_cons, List.map_cons, List.intercalate_cons_cons]
      simp only [List.append_assoc]

theorem getFields_eq {r : RtdeRecipe} (h : r.fields ≠ []) : r.getFields = some r.fieldNames := by
  rw [getFields, foldl_names _ _ h, List.nil_append]
  rw [if_neg (by simp), List.dropLast_concat]
  rfl

theorem getMsg_eq {r : RtdeRecipe} (h : r.fields ≠ []) :
    ∃ r', r.getMsg = some ((rtdeControlMsg r.dirOut (if r.dirOut then r.cpo else r.cpi) r.fieldNames).2, r') := by
  rw [getMsg, getFields_eq h, Option.map_some]
  cases r.dirOut <;> exact ⟨_, rfl⟩

/-- A recipe with fields asks for them, as long as their names and the terminator fit behind the head. -/
theorem requests_iff (r : RtdeRecipe) (hFields : r.fields ≠ []) :
    (∃ packet r', r.getMsg = some (packet, r') ∧ r.Requests packet) ↔
      r.fieldNames.length < packetBytes - headBytes r.dirOut ∧ 0 ∉ r.fieldNames := by
  obtain ⟨r', hMsg⟩ := getMsg_eq hFields
  have hHead := headBytes_bounds r.dirOut
  constructor
  · rintro ⟨packet, r'', hGot, hRequests⟩
    obtain ⟨rfl, -⟩ := Prod.mk.inj (Option.some.inj (hMsg.symm.trans hGot))
    have hLength := hRequests.names.length_le
    rw [List.length_append, List.length_singleton, length_slice] at hLength
    have hShort : (cStr r.fieldNames).length ≤ r.fieldNames.length := (List.takeWhile_prefix _).length_le
    obtain ⟨built, hBuilt, -, -, hSize⟩ :=
      rtdeControlMsg_of_le r.dirOut (if r.dirOut then r.cpo else r.cpi) r.fieldNames (by omega)
    have hSame := hRequests.size
    rw [hBuilt, hSize] at hSame
    have hWhole : (cStr r.fieldNames).length = r.fieldNames.length := by omega
    exact ⟨by omega, cStr_eq_self_iff.mp ((List.takeWhile_prefix _).eq_of_length hWhole)⟩
  · rintro ⟨hFits, hZero⟩
    have hText := cStr_eq_self_iff.mpr hZero
    obtain ⟨built, hBuilt, hType, hSlice, hSize⟩ :=
      rtdeControlMsg_of_le r.dirOut (if r.dirOut then r.cpo else r.cpi) r.fieldNames (by rw [hText]; omega)
    rw [hText] at hSlice hSize
    refine ⟨built, r', by rw [hMsg, hBuilt], hType, ?_, hSize⟩
    obtain ⟨more, hMore⟩ := Nat.exists_eq_add_of_le (Nat.succ_le_of_lt hFits)
    rw [hMore, slice_add, hSlice]
    exact List.prefix_append _ _

def crowdedCalls : List RecipeCall := List.replicate 228 (.addField (text "timestamp") 8)

set_option maxRecDepth 100000 in
theorem requests_iff_crowded :
    (∃ packet r', (afterCalls ⟨fun _ => 0, []⟩ crowdedCalls).getMsg = some (packet, r') ∧
      (afterCalls ⟨fun _ => 0, []⟩ crowdedCalls).Requests packet) ↔
      (afterCalls ⟨fun _ => 0, []⟩ crowdedCalls).fieldNames.length <
        packetBytes - headBytes (afterCalls ⟨fun _ => 0, []⟩ crowdedCalls).dirOut ∧
      0 ∉ (afterCalls ⟨fun _ => 0, []⟩ crowdedCalls).fieldNames :=
  requests_iff _ (by decide +kernel)

set_option maxRecDepth 100000 in
/-- With too many names the request is an empty one. -/
theorem crowded_request_is_empty :
    ¬ ∀ (m : Memory) (calls : List RecipeCall), (afterCalls m calls).fields ≠ [] → ∀ packet r',
      (afterCalls m calls).getMsg = some (packet, r') → (afterCalls m calls).Requests packet := by
  intro h
  have hFields : (afterCalls ⟨fun _ => 0, []⟩ crowdedCalls).fields ≠ [] := by decide +kernel
  obtain ⟨r', hMsg⟩ := getMsg_eq hFields
  have hLength := (h _ _ hFields _ _ hMsg).names.length_le
  revert hLength
  rw [length_slice]
  decide +kernel

end RtdeRecipe

end LibUrx.Rtde
