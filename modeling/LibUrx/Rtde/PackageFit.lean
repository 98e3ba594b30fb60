import LibUrx.Rtde.HandlerRun
import LibUrx.Rtde.Requests
import LibUrx.Rtde.RoundTrip

/-! # Data packages and the blocks they lie in

A package of a recipe is as long as its fields make it, and the block it is built in or received into has
2048 bytes. Storing is given here once more on a memory that remembers what is assigned, and parsing with
the bytes that it looks at.
-/
namespace LibUrx.Rtde
open Bytes Text
set_option autoImplicit false

namespace Token

/-- The stretches of the payload that the decoding closure looks at. -/
def reads (tok : Token) : List (Nat × Nat) :=
  match tok.type with
  | .bool | .uint8 => [(tok.offset, 1)]
  | .uint32 | .int32 => [(tok.offset, 4)]
  | .uint64 | .double => [(tok.offset, 8)]
  | .vector3d => (List.range 3).map fun c => (tok.offset + 8 * c, 8)
  | .vector6d => (List.range 6).map fun c => (tok.offset + 8 * c, 8)
  | .vector6int32 | .vector6uint32 => (List.range 6).map fun c => (tok.offset + 4 * c, 4)
  | .string | .inUse | .notFound => []

end Token

def readsOfFields : List Token → List (Nat × Nat)
  | [] => []
  | tok :: rest =>
    match tok.kind with
    | .input => []
    | .output => tok.reads ++ readsOfFields rest

/-- The stretches of a data package that `parse` looks at, behind the head. -/
def RtdeRecipe.reads (r : RtdeRecipe) : List (Nat × Nat) :=
  if !r.dirOut then [] else (readsOfFields r.fields).map fun p => (4 + p.1, p.2)

namespace Stores

def rtdeDataPackageInit (dp : Memory) (recipeId : Int) (bytes : Nat) : Memory :=
  (putSize (putType dp .dataPackage) (4 + bytes)).write 3 [UInt8.ofNat (recipeId % 256).toNat]

def tokenStore (tok : Token) (m : Memory) (dp : Memory) : Memory :=
  match tok.type with
  | .bool | .uint8 => dp.write (4 + tok.offset) (m.read tok.storage 1)
  | .uint32 | .int32 => dp.write (4 + tok.offset) (leBytes 4 (htobe32 (leNat (m.read tok.storage 4))))
  | .double => dp.write (4 + tok.offset) (leBytes 8 (doubleH (leNat (m.read tok.storage 8))))
  | _ => dp

def storeFields : List Token → Memory → Memory → Bool × Memory
  | [], _, dp => (true, dp)
  | tok :: rest, m, dp =>
    match tok.kind with
    | .input => storeFields rest m (tokenStore tok m dp)
    | .output => (false, dp)

def store (r : RtdeRecipe) (dp : Memory) (m : Memory) : Bool × Memory :=
  if r.dirOut then (false, dp)
  else storeFields r.fields m (rtdeDataPackageInit dp r.recipeId r.expectedBytes)

end Stores

namespace Token

theorem assignments_of_reads {tok : Token} {buf buf' : Buf}
    (h : ∀ p ∈ tok.reads, slice buf p.1 p.2 = slice buf' p.1 p.2) : tok.assignments buf = tok.assignments buf' := by
  have hElements {w count : Nat} (conv : Nat → Nat)
      (hWords : ∀ p ∈ (List.range count).map fun c => (tok.offset + w * c, w), slice buf p.1 p.2 = slice buf' p.1 p.2) :
      elements w count conv buf tok.offset tok.storage = elements w count conv buf' tok.offset tok.storage := by
    apply List.map_congr_left
    intro c hMem
    rw [hWords _ (List.mem_map_of_mem hMem)]
  unfold reads at h
  unfold assignments
  cases hType : tok.type <;> simp only [hType] at h ⊢
  case bool =>
    have hByte : [buf tok.offset] = [buf' tok.offset] := h _ List.mem_cons_self
    rw [List.head_eq_of_cons_eq hByte]
  case uint8 | uint32 | int32 | uint64 | double => rw [h _ List.mem_cons_self]
  case vector3d | vector6d | vector6int32 | vector6uint32 => exact hElements _ h

theorem WellTyped.reads_inside {tok : Token} (h : tok.WellTyped) :
    ∀ p ∈ tok.reads, p.1 + p.2 ≤ tok.offset + tok.numBytes := by
  intro p hMem
  have hSize := h.numBytes_eq
  unfold reads at hMem
  cases hType : tok.type <;> simp [hType] at hMem <;> simp only [hType, rtdeDatasize] at hSize
  case bool | uint8 | uint32 | int32 | uint64 | double =>
    rw [hMem, hSize]
  case vector3d | vector6d | vector6int32 | vector6uint32 =>
    obtain ⟨c, hLt, rfl⟩ := hMem
    omega

end Token

theorem readsOfFields_eq {fields : List Token} (hKind : ∀ tok ∈ fields, tok.kind = .output) :
    readsOfFields fields = fields.flatMap Token.reads := by
  induction fields with
  | nil => rfl
  | cons tok rest ih =>
    rw [readsOfFields, hKind tok List.mem_cons_self, List.flatMap_cons,
      ← ih (List.forall_mem_of_forall_mem_cons hKind)]

theorem payload_withPayload (dp data : Buf) : payload (withPayload dp data) = data := by
  funext i
  simp [payload, withPayload]

theorem withPayload_withPayload (dp data data' : Buf) :
    withPayload (withPayload dp data) data' = withPayload dp data' := by
  funext i
  unfold withPayload
  split <;> rfl

theorem withPayload_patch (dp : Buf) (off : Nat) (bs : List UInt8) :
    withPayload dp (patch (payload dp) off bs) = patch dp (4 + off) bs := by
  funext i
  unfold withPayload payload patch
  split
  · rw [if_neg (by omega)]
  · have hIndex : 4 + (i - 4) = i := by omega
    have hOffset : i - 4 - off = i - (4 + off) := by omega
    simp only [hIndex, hOffset]
    split
    · rw [if_pos (by omega)]
    · rw [if_neg (by omega)]

namespace Stores

theorem byte_tokenStore (tok : Token) (m dp : Memory) :
    (tokenStore tok m dp).byte = withPayload dp.byte (tok.tokenStore m (payload dp.byte)) := by
  unfold tokenStore Token.tokenStore
  cases tok.type <;> first | exact (withPayload_patch _ _ _).symm | exact (withPayload_payload _).symm

theorem byte_storeFields (fields : List Token) (m dp : Memory) :
    ((storeFields fields m dp).1, (storeFields fields m dp).2.byte) =
      ((Rtde.storeFields fields m (payload dp.byte)).1,
        withPayload dp.byte (Rtde.storeFields fields m (payload dp.byte)).2) := by
  induction fields generalizing dp with
  | nil => exact Prod.ext rfl (withPayload_payload dp.byte).symm
  | cons tok rest ih =>
    cases hKind : tok.kind with
    | output => simp [storeFields, Rtde.storeFields, Token.store, hKind, withPayload_payload]
    | input =>
      have hRest := ih (tokenStore tok m dp)
      rw [byte_tokenStore, payload_withPayload, withPayload_withPayload] at hRest
      simp only [storeFields, Rtde.storeFields, Token.store, hKind]
      exact hRest

/-- On the contents of the block, the two accounts of storing agree. -/
theorem byte_store (r : RtdeRecipe) (dp m : Memory) :
    ((store r dp m).1, (store r dp m).2.byte) = r.store dp.byte m := by
  unfold store RtdeRecipe.store
  split
  · rfl
  · exact byte_storeFields r.fields m (rtdeDataPackageInit dp r.recipeId r.expectedBytes)

theorem written_tokenStore {tok : Token} (h : tok.WellTyped) (hKind : tok.kind = .input) (m dp : Memory) (i : Nat) :
    (tokenStore tok m dp).written i = true ↔
      4 + tok.offset ≤ i ∧ i < 4 + tok.offset + tok.numBytes ∨ dp.written i = true := by
  have hMem := h.input hKind
  have hSize := h.numBytes_eq
  simp only [inputTypes, List.mem_cons, List.not_mem_nil, or_false] at hMem
  unfold tokenStore
  rcases hMem with hType | hType | hType | hType | hType <;> simp only [hType, rtdeDatasize] at hSize ⊢ <;>
    rw [Memory.written_write, hSize]
  · rw [Memory.length_read]
  · rw [Memory.length_read]
  · rw [length_leBytes]
  · rw [length_leBytes]
  · rw [length_leBytes]

theorem written_storeFields {fields : List Token} (hTyped : ∀ tok ∈ fields, tok.WellTyped)
    (hKind : ∀ tok ∈ fields, tok.kind = .input) {o : Nat} (hOffsets : OffsetsFrom o fields) (m dp : Memory) (i : Nat) :
    (storeFields fields m dp).2.written i = true ↔
      4 + o ≤ i ∧ i < 4 + o + totalBytes fields ∨ dp.written i = true := by
  induction fields generalizing o dp with
  | nil =>
    rw [storeFields, totalBytes_nil, or_iff_right]
    omega
  | cons tok rest ih =>
    obtain ⟨rfl, hRest⟩ := hOffsets
    have hTail := ih (List.forall_mem_of_forall_mem_cons hTyped)
      (List.forall_mem_of_forall_mem_cons hKind) hRest (tokenStore tok m dp)
    rw [written_tokenStore (hTyped tok List.mem_cons_self) (hKind tok List.mem_cons_self), ← or_assoc] at hTail
    rw [storeFields, hKind tok List.mem_cons_self, totalBytes_cons]
    refine hTail.trans (or_congr_left ?_)
    omega

theorem written_dataPackageInit (dp : Buf) (recipeId : Int) (bytes i : Nat) :
    (rtdeDataPackageInit ⟨dp, []⟩ recipeId bytes).written i = true ↔ i < 4 := by
  simp only [rtdeDataPackageInit, putSize, putType, Memory.written_write, length_leBytes, List.length_singleton,
    Memory.not_written_new, Bool.false_eq_true, or_false]
  omega

end Stores

namespace RtdeRecipe

/-- Storing assigns the head and the fields, each byte of them and no other. -/
theorem written_store_iff {r : RtdeRecipe} (hLayout : r.Layout) (hFormed : r.Formed) (hDir : r.dirOut = false)
    (dp : Buf) (m : Memory) (i : Nat) :
    (Stores.store r ⟨dp, []⟩ m).2.written i = true ↔ i < 4 + r.expectedBytes := by
  have hFields := Stores.written_storeFields hFormed.wellTyped (hFormed.kind_of_dir (by rw [hDir]; rfl))
    hLayout.offsetsFrom m (Stores.rtdeDataPackageInit ⟨dp, []⟩ r.recipeId r.expectedBytes) i
  rw [Stores.store, if_neg (by simp [hDir]), hFields, Stores.written_dataPackageInit, hLayout.expected]
  omega

theorem Formed.reads_eq {r : RtdeRecipe} (h : r.Formed) (hDir : r.dirOut = true) :
    r.reads = (r.fields.flatMap Token.reads).map fun p => (4 + p.1, p.2) := by
  rw [reads, hDir, readsOfFields_eq (h.kind_of_dir (by rw [hDir]; rfl))]
  rfl

/-- Two packages that agree where `parse` looks are parsed alike. -/
theorem Formed.parse_of_reads {r : RtdeRecipe} (h : r.Formed) {data data' : Buf}
    (hReads : ∀ p ∈ r.reads, slice data p.1 p.2 = slice data' p.1 p.2) (ts : UInt64) (m : Memory) :
    (r.parse (payload data) ts m).1 = (r.parse (payload data') ts m).1 ∧
      (r.parse (payload data) ts m).2.2 = (r.parse (payload data') ts m).2.2 := by
  cases hDir : r.dirOut with
  | false => simp [parse, hDir]
  | true =>
    have hWrites : decodedWrites r.fields (payload data) = decodedWrites r.fields (payload data') := by
      apply List.flatMap_congr
      intro tok hMem
      apply Token.assignments_of_reads
      intro p hRead
      have hWindow := hReads (4 + p.1, p.2) (by
        rw [h.reads_eq hDir]
        exact List.mem_map_of_mem (List.mem_flatMap.mpr ⟨tok, hMem, hRead⟩))
      exact (slice_shift data 4 p.1 p.2).trans (hWindow.trans (slice_shift data' 4 p.1 p.2).symm)
    rw [h.parse_eq hDir, h.parse_eq hDir, parsedMemory, parsedMemory, hWrites]
    exact ⟨rfl, rfl⟩

theorem reads_inside {r : RtdeRecipe} (hLayout : r.Layout) (hFormed : r.Formed) :
    ∀ p ∈ r.reads, p.1 + p.2 ≤ 4 + r.expectedBytes := by
  intro p hMem
  cases hDir : r.dirOut with
  | false => simp [reads, hDir] at hMem
  | true =>
    rw [hFormed.reads_eq hDir] at hMem
    obtain ⟨q, hRead, rfl⟩ := List.mem_map.mp hMem
    obtain ⟨tok, hTok, hWindow⟩ := List.mem_flatMap.mp hRead
    have hField := (hFormed.wellTyped tok hTok).reads_inside q hWindow
    have hEnd := hLayout.bounded _ hTok
    dsimp only
    omega

end RtdeRecipe

def namesOf (dirOut : Bool) : List DataName := if dirOut then rtdeOutputNames else rtdeInputNames

/-- The size that the table of a direction gives a name. -/
def nameBytes (dirOut : Bool) (name : List UInt8) : Nat :=
  rtdeDatasize (((nameToIdx (namesOf dirOut) name).map (typeAt (namesOf dirOut))).getD .notFound)

namespace RtdeRecipe

theorem addField_eq_namesOf {r : RtdeRecipe} {name : List UInt8} {storage idx : Nat} (hStorage : storage ≠ 0)
    (hIdx : nameToIdx (namesOf r.dirOut) name = some idx) :
    ∃ r', r.addField name storage = (true, r') ∧ r'.dirOut = r.dirOut ∧ r'.bytes = r.bytes + nameBytes r.dirOut name := by
  unfold namesOf at hIdx
  unfold nameBytes namesOf addField
  rw [if_neg hStorage]
  cases hDir : r.dirOut with
  | true =>
    rw [hDir, if_pos rfl] at hIdx
    have hLt := rtdeDatasize_lt (typeAt rtdeOutputNames idx)
    simp only [if_true, outputNameToIdx, hIdx, Option.map_some, Option.getD_some]
    refine ⟨_, rfl, rfl, ?_⟩
    simp [Token.ofOutput, Token.setOffset, Token.numBytes, Nat.mod_eq_of_lt hLt]
  | false =>
    rw [hDir, if_neg Bool.false_ne_true] at hIdx
    have hLt := rtdeDatasize_lt (typeAt rtdeInputNames idx)
    simp only [Bool.false_eq_true, if_false, inputNameToIdx, hIdx, Option.map_some, Option.getD_some]
    refine ⟨_, rfl, rfl, ?_⟩
    simp [Token.ofInput, Token.setOffset, Token.numBytes, Nat.mod_eq_of_lt hLt, hStorage]

theorem addField_bytes {r r' : RtdeRecipe} {name : List UInt8} {storage : Nat}
    (h : r.addField name storage = (true, r')) : r'.dirOut = r.dirOut ∧ r'.bytes = r.bytes + nameBytes r.dirOut name := by
  have hStorage : storage ≠ 0 := by
    rintro rfl
    cases h
  cases hIdx : nameToIdx (namesOf r.dirOut) name with
  | some idx =>
    obtain ⟨r'', hAdd, hSame⟩ := addField_eq_namesOf hStorage hIdx
    obtain rfl := (Prod.mk.inj (h.symm.trans hAdd)).2
    exact hSame
  | none =>
    unfold namesOf at hIdx
    unfold addField at h
    cases hDir : r.dirOut <;> simp [hDir, hStorage] at h hIdx
    · simp [inputNameToIdx, hIdx] at h
    · simp [outputNameToIdx, hIdx] at h

/-- A recipe of one direction to which fields of these names have been added, each of them accepted. It may
have been asked for, answered, and given a time stamp to track in between. -/
inductive Built (dirOut : Bool) : List (List UInt8) → RtdeRecipe → Prop where
  | new : Built dirOut [] (init.setDir dirOut).2
  | addField {names : List (List UInt8)} {r r' : RtdeRecipe} {name : List UInt8} {storage : Nat}
      (built : Built dirOut names r) (accepted : r.addField name storage = (true, r')) :
      Built dirOut (names ++ [name]) r'
  | asked {names : List (List UInt8)} {r r' : RtdeRecipe} {packet : Buf} (built : Built dirOut names r)
      (msg : r.getMsg = some (packet, r')) : Built dirOut names r'
  | answered {names : List (List UInt8)} {r : RtdeRecipe} (built : Built dirOut names r) (resp : Buf) :
      Built dirOut names (r.registerResponse resp).2
  | tracked {names : List (List UInt8)} {r : RtdeRecipe} (built : Built dirOut names r) (m : Memory) (tsNs : Nat) :
      Built dirOut names (r.trackTsNs m tsNs).2.1

/-- The packages of a recipe stay in the blocks that they are built in and received into. -/
structure Fits (r : RtdeRecipe) : Prop where
  bytes : 4 + r.expectedBytes ≤ packetBytes
  stores : ∀ dp m i, (Stores.store r ⟨dp, []⟩ m).2.written i = true → i < packetBytes
  size : ∀ dp, hdrSize (rtdeDataPackageInit dp r.recipeId r.expectedBytes) = 4 + r.expectedBytes
  reads : ∀ (w : World) (i : Nat) (data : Buf) (rxTs : UInt64) (parsed : Buf × Memory), w.out = some i →
    w.recipes i = r → w.parseIncomingData data rxTs = some (true, parsed) → ∀ p ∈ r.reads, p.1 + p.2 ≤ packetBytes

/-- What is known of a recipe from the names that it was built with. -/
theorem Built.spec {dirOut : Bool} {names : List (List UInt8)} {r : RtdeRecipe} (h : Built dirOut names r) :
    r.dirOut = dirOut ∧ r.bytes = (names.map (nameBytes dirOut)).sum ∧ r.Layout ∧ r.Formed := by
  induction h with
  | new =>
    cases dirOut with
    | true => exact ⟨rfl, rfl, layout_of_nil rfl rfl, formed_of_nil rfl⟩
    | false => exact ⟨rfl, rfl, layout_of_nil rfl rfl, formed_of_nil rfl⟩
  | addField _ accepted ih =>
    obtain ⟨hDir, hBytes, hLayout, hFormed⟩ := ih
    obtain ⟨hSame, hMore⟩ := addField_bytes accepted
    refine ⟨hSame.trans hDir, ?_, layout_addField accepted hLayout, formed_addField accepted hFormed⟩
    rw [hMore, hDir, hBytes, List.map_append, List.sum_append, List.map_singleton, List.sum_singleton]
  | @asked _ r _ _ _ msg ih =>
    obtain ⟨cpo, cpi, rfl⟩ := getMsg_eq_some msg
    obtain ⟨hDir, hBytes, hLayout, hFormed⟩ := ih
    exact ⟨hDir, hBytes, layout_congr (r := r) rfl rfl hLayout, hFormed.congr rfl rfl⟩
  | @answered _ r _ resp ih =>
    obtain ⟨hDir, hBytes, hLayout, hFormed⟩ := ih
    cases registerResponse_cases r resp with
    | inl hRefused =>
      rw [hRefused]
      exact ⟨hDir, hBytes, hLayout, hFormed⟩
    | inr hTaken =>
      rw [hTaken]
      exact ⟨hDir, hBytes, layout_congr (r := r) rfl rfl hLayout, hFormed.congr rfl rfl⟩
  | @tracked _ r _ m tsNs ih =>
    obtain ⟨hDir, hBytes, hLayout, hFormed⟩ := ih
    obtain ⟨hFields, hSame, hOut⟩ := trackTsNs_fields r m tsNs
    exact ⟨hOut.trans hDir, hSame.trans hBytes, layout_congr hSame hFields hLayout, hFormed.congr hFields hOut⟩

theorem exists_built {dirOut : Bool} {names : List (List UInt8)}
    (h : ∀ name ∈ names, (nameToIdx (namesOf dirOut) name).isSome = true) : ∃ r, Built dirOut names r := by
  induction names using List.reverseRecOn with
  | nil => exact ⟨_, .new⟩
  | append_singleton names name ih =>
    obtain ⟨r, hBuilt⟩ := ih fun n hMem => h n (List.mem_append_left _ hMem)
    obtain ⟨idx, hIdx⟩ := Option.isSome_iff_exists.mp (h name (by simp))
    obtain ⟨r', hAdd, -⟩ := addField_eq_namesOf (r := r) Nat.one_ne_zero (by rw [hBuilt.spec.1]; exact hIdx)
    exact ⟨r', hBuilt.addField hAdd⟩

/-- Packages fit exactly as long as the sizes of the names add up to no more than a block has behind a head. -/
theorem Built.fits_iff {dirOut : Bool} {names : List (List UInt8)} {r : RtdeRecipe} (h : Built dirOut names r) :
    r.Fits ↔ (names.map (nameBytes dirOut)).sum ≤ 2044 := by
  obtain ⟨-, hBytes, hLayout, hFormed⟩ := h.spec
  have hBlock : packetBytes = 2048 := rfl
  have hExpected : r.expectedBytes = (names.map (nameBytes dirOut)).sum := hBytes
  constructor
  · intro hFits
    have := hFits.bytes
    omega
  · intro hSum
    constructor
    · omega
    · intro dp m i hWritten
      cases hDir : r.dirOut with
      | true =>
        rw [Stores.store, hDir, if_pos rfl] at hWritten
        exact absurd hWritten (Memory.not_written_new dp i)
      | false =>
        have := (written_store_iff hLayout hFormed hDir dp m i).mp hWritten
        omega
    · intro dp
      rw [hdrSize_dataPackageInit, Nat.mod_eq_of_lt (by omega)]
    · intro w i data rxTs parsed _ _ _ p hMem
      have := reads_inside hLayout hFormed p hMem
      omega

set_option maxRecDepth 100000 in
theorem known_timestamp :
    nameToIdx (namesOf true) (text "timestamp") = some 0 ∧ nameBytes true (text "timestamp") = 8 := by
  decide +kernel

set_option maxRecDepth 100000 in
theorem fits_iff_timestamp : ∃ r, Built true [text "timestamp", text "target_q", text "timestamp"] r ∧ r.Fits ∧
    r.bytes = 64 := by
  have hKnown : nameToIdx (namesOf true) (text "target_q") = some 1 ∧ nameBytes true (text "target_q") = 48 := by
    decide +kernel
  obtain ⟨r, hBuilt⟩ : ∃ r, Built true [text "timestamp", text "target_q", text "timestamp"] r :=
    exists_built (by simp [known_timestamp.1, hKnown.1])
  have hSum : ([text "timestamp", text "target_q", text "timestamp"].map (nameBytes true)).sum = 64 := by
    simp [known_timestamp.2, hKnown.2]
  exact ⟨r, hBuilt, hBuilt.fits_iff.mpr (by omega), hBuilt.spec.2.1.trans hSum⟩

/-- A time stamp may be asked for 256 times, which makes 2048 bytes behind the head. -/
theorem repeated_names_do_not_fit : ¬ ∀ (dirOut : Bool) (names : List (List UInt8)) (r : RtdeRecipe),
    Built dirOut names r → r.Fits := by
  intro h
  obtain ⟨r, hBuilt⟩ : ∃ r, Built true (List.replicate 256 (text "timestamp")) r := by
    apply exists_built
    intro name hMem
    rw [List.eq_of_mem_replicate hMem, known_timestamp.1]
    rfl
  have hBytes := hBuilt.spec.2.1
  rw [List.map_replicate, known_timestamp.2, List.sum_replicate_nat] at hBytes
  have hFits : 4 + r.bytes ≤ packetBytes := (h true _ r hBuilt).bytes
  rw [hBytes] at hFits
  exact absurd hFits (by decide)

end RtdeRecipe

end LibUrx.Rtde
