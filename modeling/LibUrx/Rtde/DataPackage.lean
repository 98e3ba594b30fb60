import LibUrx.Rtde.Handler
import LibUrx.Rtde.WireValue

/-! # Decoding data packages

A recipe that was built field by field decodes its package the way a sequential decoder reads it,
and the handler lets a package through only if header, id and size fit.
-/
namespace LibUrx.Rtde
open Bytes Text
set_option autoImplicit false

def decodedWrites (fields : List Token) (buf : Buf) : List (Nat × List UInt8) :=
  fields.flatMap fun tok => tok.assignments buf

theorem Token.WellTyped.tokenParser_eq {tok : Token} (h : tok.WellTyped) (buf : Buf) (m : Memory) :
    tok.tokenParser buf m = (buf, m.writeAll (tok.assignments buf)) := by
  rw [tokenParser, if_neg h.ne_string]

theorem Token.WellTyped.assignments_apart {tok : Token} (h : tok.WellTyped) {buf : Buf} {b n : Nat}
    (hApart : Apart tok.storage tok.numBytes b n) :
    ∀ entry ∈ tok.assignments buf, Apart entry.1 entry.2.length b n := by
  intro entry hMem
  obtain ⟨bss, -, hBlocks, hLength, -⟩ := h.assignments_spec buf []
  rw [hBlocks] at hMem
  obtain ⟨hlo, hhi⟩ := mem_blocks_bounds hMem
  rw [hLength] at hhi
  cases hApart with
  | inl hBelow => exact Or.inl (hhi.trans hBelow)
  | inr hAbove => exact Or.inr (hAbove.trans hlo)

theorem decodedWrites_congr {fields : List Token} (hTyped : ∀ tok ∈ fields, tok.WellTyped) {buf buf' : Buf}
    (hSlice : ∀ tok ∈ fields, slice buf tok.offset tok.numBytes = slice buf' tok.offset tok.numBytes) :
    decodedWrites fields buf = decodedWrites fields buf' :=
  List.flatMap_congr fun tok hMem => (hTyped tok hMem).assignments_congr (hSlice tok hMem)

theorem assignments_eq_of_decodedWrites {fields : List Token} {buf buf' : Buf}
    (h : decodedWrites fields buf = decodedWrites fields buf') :
    ∀ tok ∈ fields, tok.assignments buf = tok.assignments buf' := by
  induction fields with
  | nil =>
    intro tok hMem
    cases hMem
  | cons head fields ih =>
    rw [decodedWrites, decodedWrites, List.flatMap_cons, List.flatMap_cons] at h
    obtain ⟨hHead, hRest⟩ := List.append_inj h (head.length_assignments_congr buf buf')
    intro tok hMem
    rcases List.mem_cons.mp hMem with rfl | hMem
    · exact hHead
    · exact ih hRest tok hMem

/-- Two packages are decoded alike if and only if they agree in what the fields show of their bytes. -/
theorem decodedWrites_eq_iff {fields : List Token} (hTyped : ∀ tok ∈ fields, tok.WellTyped) {buf buf' : Buf} :
    decodedWrites fields buf = decodedWrites fields buf' ↔ ∀ tok ∈ fields, ∀ j, tok.offset ≤ j →
      j < tok.offset + tok.numBytes → Token.ShownAlike tok.type (buf j) (buf' j) := by
  constructor
  · exact fun h tok hMem => (hTyped tok hMem).assignments_eq_iff.mp (assignments_eq_of_decodedWrites h tok hMem)
  · exact fun h => List.flatMap_congr fun tok hMem => (hTyped tok hMem).assignments_eq_iff.mpr (h tok hMem)

theorem decodedWrites_apart {fields : List Token} (hTyped : ∀ tok ∈ fields, tok.WellTyped) {buf : Buf}
    {b n : Nat} (hApart : ∀ tok ∈ fields, Apart tok.storage tok.numBytes b n) :
    ∀ entry ∈ decodedWrites fields buf, Apart entry.1 entry.2.length b n := by
  intro entry hMem
  obtain ⟨tok, hTok, hEntry⟩ := List.mem_flatMap.mp hMem
  exact (hTyped tok hTok).assignments_apart (hApart tok hTok) entry hEntry

theorem writeAll_decodedWrites_cons (m : Memory) (tok : Token) (fields : List Token) (buf : Buf) :
    m.writeAll (decodedWrites (tok :: fields) buf) =
      (m.writeAll (tok.assignments buf)).writeAll (decodedWrites fields buf) := by
  rw [decodedWrites, List.flatMap_cons, Memory.writeAll_append, decodedWrites]

theorem parseFields_eq {fields : List Token} (hTyped : ∀ tok ∈ fields, tok.WellTyped)
    (hKind : ∀ tok ∈ fields, tok.kind = .output) (buf : Buf) (m : Memory) :
    parseFields fields buf m = (true, buf, m.writeAll (decodedWrites fields buf)) := by
  induction fields generalizing m with
  | nil => rfl
  | cons tok rest ih =>
    have hParse : tok.parse buf m = (true, buf, m.writeAll (tok.assignments buf)) := by
      rw [Token.parse, hKind tok List.mem_cons_self]
      exact congrArg _ ((hTyped tok List.mem_cons_self).tokenParser_eq buf m)
    have hRest := ih (List.forall_mem_of_forall_mem_cons hTyped)
      (List.forall_mem_of_forall_mem_cons hKind) (m.writeAll (tok.assignments buf))
    rw [parseFields, hParse, writeAll_decodedWrites_cons]
    exact hRest

/-- Reading the stream front to back and reading the storage afterwards give the same values. -/
theorem decodeSeq_fields {fields : List Token} (hTyped : ∀ tok ∈ fields, tok.WellTyped) {o : Nat}
    (hOffsets : OffsetsFrom o fields)
    (hApart : fields.Pairwise fun a b => Apart a.storage a.numBytes b.storage b.numBytes) (buf : Buf)
    (rest : List UInt8) :
    ∃ vs, decodeSeq (fields.map Token.type) (slice buf o (totalBytes fields) ++ rest) = some (vs, rest) ∧
      ∀ m : Memory, fields.map (fun tok => hostValue tok.type
        ((m.writeAll (decodedWrites fields buf)).read tok.storage tok.numBytes)) = vs.map some := by
  induction fields generalizing o with
  | nil => exact ⟨[], rfl, fun _ => rfl⟩
  | cons tok fields ih =>
    obtain ⟨rfl, hRestOffsets⟩ := hOffsets
    obtain ⟨hHeadApart, hRestApart⟩ := List.pairwise_cons.mp hApart
    have hRestTyped : ∀ t ∈ fields, t.WellTyped := List.forall_mem_of_forall_mem_cons hTyped
    obtain ⟨vs, hDecode, hHost⟩ := ih hRestTyped hRestOffsets hRestApart
    obtain ⟨bss, v, hBlocks, hLength, hValue, hHead⟩ :=
      (hTyped tok List.mem_cons_self).assignments_spec buf
        (slice buf (tok.offset + tok.numBytes) (totalBytes fields) ++ rest)
    refine ⟨v :: vs, ?_, fun m => ?_⟩
    · rw [List.map_cons, totalBytes_cons, slice_add, List.append_assoc, decodeSeq, hValue]
      simp only [hDecode, Option.map_some]
    · have hEntries : ∀ entry ∈ decodedWrites fields buf,
          Apart entry.1 entry.2.length tok.storage tok.numBytes :=
        decodedWrites_apart hRestTyped fun t ht => (hHeadApart t ht).symm
      have hKept := Memory.read_writeAll_of_apart (m := m.writeAll (tok.assignments buf)) hEntries
      have hRead := Memory.read_writeAll_blocks m tok.storage bss
      rw [hLength, ← hBlocks] at hRead
      rw [List.map_cons, writeAll_decodedWrites_cons, hHost, hKept, hRead, hHead, List.map_cons]

namespace RtdeRecipe

def targets (r : RtdeRecipe) : List (Nat × Nat) :=
  r.fields.map (fun tok => (tok.storage, tok.numBytes)) ++ r.tsNs.toList.map fun ts => (ts, 8)

def DisjointTargets (r : RtdeRecipe) : Prop := r.targets.Pairwise fun a b => Apart a.1 a.2 b.1 b.2

instance (r : RtdeRecipe) : Decidable r.DisjointTargets := inferInstanceAs (Decidable (List.Pairwise _ _))

theorem DisjointTargets.fields {r : RtdeRecipe} (h : r.DisjointTargets) :
    r.fields.Pairwise fun a b => Apart a.storage a.numBytes b.storage b.numBytes :=
  List.pairwise_map.mp (List.pairwise_append.mp h).1

theorem DisjointTargets.timestamp {r : RtdeRecipe} (h : r.DisjointTargets) {ts : Nat} (hTs : r.tsNs = some ts) :
    ∀ tok ∈ r.fields, Apart ts 8 tok.storage tok.numBytes := by
  intro tok hMem
  have hTarget : (ts, 8) ∈ r.tsNs.toList.map fun ts => (ts, 8) := by simp [hTs]
  exact ((List.pairwise_append.mp h).2.2 _ (List.mem_map_of_mem hMem) _ hTarget).symm

def parsedMemory (r : RtdeRecipe) (load : Buf) (ts : UInt64) (m : Memory) : Memory :=
  m.writeAll (decodedWrites r.fields load ++ r.tsNs.toList.map fun a => (a, leBytes 8 ts.toNat))

theorem Formed.parse_eq {r : RtdeRecipe} (h : r.Formed) (hDir : r.dirOut = true) (load : Buf) (ts : UInt64)
    (m : Memory) : r.parse load ts m = (true, load, r.parsedMemory load ts m) := by
  have hKind : ∀ tok ∈ r.fields, tok.kind = .output := h.kind_of_dir (by rw [hDir]; rfl)
  rw [parse, hDir, parseFields_eq h.wellTyped hKind, parsedMemory, Memory.writeAll_append]
  cases r.tsNs with
  | none => rfl
  | some a => rfl

theorem parsedMemory_timestamp {r : RtdeRecipe} {a : Nat} (hTs : r.tsNs = some a) (load : Buf) (ts : UInt64)
    (m : Memory) : leNat ((r.parsedMemory load ts m).read a 8) = ts.toNat := by
  have hRead := Memory.read_write_self (m.writeAll (decodedWrites r.fields load)) a (leBytes 8 ts.toNat)
  rw [length_leBytes] at hRead
  rw [parsedMemory, hTs, Memory.writeAll_append]
  exact (congrArg leNat hRead).trans (leNat_leBytes_of_lt ts.toNat_lt)

theorem parsedMemory_fields {r : RtdeRecipe} (hLayout : r.Layout) (hFormed : r.Formed) (hApart : r.DisjointTargets)
    (load : Buf) (ts : UInt64) (m : Memory) :
    ∃ vs, decodeSeq (r.fields.map Token.type) (slice load 0 r.expectedBytes) = some (vs, []) ∧
      r.fields.map (fun tok => hostValue tok.type ((r.parsedMemory load ts m).read tok.storage tok.numBytes)) =
        vs.map some := by
  obtain ⟨vs, hDecode, hHost⟩ :=
    decodeSeq_fields hFormed.wellTyped hLayout.offsetsFrom hApart.fields load []
  rw [List.append_nil, ← hLayout.expected] at hDecode
  refine ⟨vs, hDecode, (List.map_congr_left fun tok hMem => ?_).trans (hHost m)⟩
  rw [parsedMemory, Memory.writeAll_append, Memory.read_writeAll_of_apart]
  intro entry hEntry
  obtain ⟨a, hTs, rfl⟩ := List.mem_map.mp hEntry
  have := hApart.timestamp (Option.mem_toList.mp hTs) tok hMem
  rwa [length_leBytes]

theorem parsedMemory_congr {r : RtdeRecipe} (hBounded : r.Bounded) (hFormed : r.Formed) {data data' : Buf}
    (hBytes : ∀ i < 4 + r.expectedBytes, data i = data' i) (ts : UInt64) (m : Memory) :
    r.parsedMemory (payload data) ts m = r.parsedMemory (payload data') ts m := by
  have hWrites : decodedWrites r.fields (payload data) = decodedWrites r.fields (payload data') := by
    apply decodedWrites_congr hFormed.wellTyped
    intro tok hMem
    have hEnd := hBounded tok hMem
    exact slice_congr fun i _ hhi => hBytes (4 + i) (by omega)
  rw [parsedMemory, parsedMemory, hWrites]

end RtdeRecipe

theorem withPayload_payload (data : Buf) : withPayload data (payload data) = data := by
  funext i
  unfold withPayload payload
  split
  · rfl
  · exact congrArg data (by omega)

theorem slice_payload (data : Buf) (n : Nat) : slice (payload data) 0 n = slice data 4 n :=
  slice_shift data 4 0 n

theorem rtdeParseDataPackage_iff (data : Buf) :
    rtdeParseDataPackage data = true ↔
      hdrRecipeId data ≠ 0 ∧ hdrType data = PackageType.dataPackage.code ∧ 4 ≤ hdrSize data := by
  simp [rtdeParseDataPackage, and_assoc]

namespace World

def Accepts (r : RtdeRecipe) (data : Buf) : Prop :=
  hdrType data = PackageType.dataPackage.code ∧ hdrRecipeId data ≠ 0 ∧
    ((hdrRecipeId data).toNat : Int) = r.recipeId ∧ (hdrSize data : Int) - 4 = r.expectedBytes

theorem Accepts.congr {r : RtdeRecipe} {data data' : Buf} (hHead : ∀ i < 4, data i = data' i)
    (h : Accepts r data) : Accepts r data' := by
  obtain ⟨hType, hNonzero, hId, hSize⟩ := h
  rw [hdrType, hHead 2 (by decide)] at hType
  rw [hdrRecipeId, hHead 3 (by decide)] at hNonzero hId
  rw [hdrSize_congr (hHead 0 (by decide)) (hHead 1 (by decide))] at hSize
  exact ⟨hType, hNonzero, hId, hSize⟩

theorem parseIncomingData_accepted {w : World} {i : Nat} (hOut : w.out = some i)
    (hFormed : (w.recipes i).Formed) (hDir : (w.recipes i).dirOut = true) {data : Buf}
    (h : Accepts (w.recipes i) data) (rxTs : UInt64) :
    w.parseIncomingData data rxTs =
      some (true, data, (w.recipes i).parsedMemory (payload data) rxTs w.mem) := by
  obtain ⟨hType, hNonzero, hId, hSize⟩ := h
  have hHeader : rtdeParseDataPackage data = true :=
    (rtdeParseDataPackage_iff data).mpr ⟨hNonzero, hType, by omega⟩
  have hExpected : (w.recipes i).expectedBytes = hdrSize data - 4 := by omega
  simp only [parseIncomingData, hHeader, hOut, hId, hExpected, hFormed.parse_eq hDir, withPayload_payload]
  simp

theorem parseIncomingData_refused {w : World} {i : Nat} (hOut : w.out = some i) {data : Buf}
    (h : ¬ Accepts (w.recipes i) data) (rxTs : UInt64) :
    w.parseIncomingData data rxTs = some (false, data, w.mem) := by
  simp only [parseIncomingData, hOut]
  split
  · rfl
  · rename_i hHeader
    obtain ⟨hNonzero, hType, hLarge⟩ := (rtdeParseDataPackage_iff data).mp (by simpa using hHeader)
    split
    · rfl
    · rename_i hId
      split
      · rfl
      · rename_i hSize
        exact absurd ⟨hType, hNonzero, (not_not.mp hId).symm, by omega⟩ h

/-- The handler takes exactly the packages that fit, and a package taken puts into the storage of
each field what a sequential decoder reads. -/
theorem parseIncomingData_spec {w : World} {i : Nat} {m : Memory} {calls : List RecipeCall}
    (hOut : w.out = some i) (hRecipe : w.recipes i = RtdeRecipe.afterCalls m calls)
    (hCalls : .clearFields ∉ calls) (hDir : (w.recipes i).dirOut = true)
    (hApart : (w.recipes i).DisjointTargets) (data : Buf) (rxTs : UInt64) :
    ∃ ok mem, w.parseIncomingData data rxTs = some (ok, data, mem) ∧
      (ok = true ↔ hdrType data = PackageType.dataPackage.code ∧ hdrRecipeId data ≠ 0 ∧
        ((hdrRecipeId data).toNat : Int) = (w.recipes i).recipeId ∧
        (hdrSize data : Int) - 4 = (w.recipes i).expectedBytes) ∧
      (ok = true →
        (∃ vs, decodeSeq ((w.recipes i).fields.map Token.type) (slice data 4 (w.recipes i).expectedBytes) =
            some (vs, []) ∧
          (w.recipes i).fields.map (fun tok => hostValue tok.type (mem.read tok.storage tok.numBytes)) =
            vs.map some) ∧
        ∀ a, (w.recipes i).tsNs = some a → leNat (mem.read a 8) = rxTs.toNat) ∧
      (ok = false → mem = w.mem) := by
  have hFormed : (w.recipes i).Formed := hRecipe ▸ RtdeRecipe.formed_afterCalls m calls
  have hLayout : (w.recipes i).Layout := hRecipe ▸ RtdeRecipe.layout_afterCalls hCalls
  cases Classical.em (Accepts (w.recipes i) data) with
  | inl hAccepts =>
    refine ⟨true, _, parseIncomingData_accepted hOut hFormed hDir hAccepts rxTs, ?_, ?_, by simp⟩
    · exact iff_of_true rfl hAccepts
    · intro _
      obtain ⟨vs, hDecode, hHost⟩ :=
        RtdeRecipe.parsedMemory_fields hLayout hFormed hApart (payload data) rxTs w.mem
      rw [slice_payload] at hDecode
      exact ⟨⟨vs, hDecode, hHost⟩, fun a hTs => RtdeRecipe.parsedMemory_timestamp hTs _ _ _⟩
  | inr hRefuses =>
    refine ⟨false, _, parseIncomingData_refused hOut hRefuses rxTs, ?_, by simp, fun _ => rfl⟩
    exact iff_of_false (by simp) hRefuses

/-- A time stamp and six joint angles, registered under id 1. -/
def jointCalls : List RecipeCall :=
  [.addField (text "timestamp") 8, .addField (text "target_q") 16, .trackTsNs 64,
    .registerResponse (patch (fun _ => 0) 0 ([0, 19, 79, 1] ++ text "DOUBLE,VECTOR6D"))]

def jointWorld : World where
  out := some 0
  recipesIn := []
  buffer := fun _ => 0
  recipes := fun _ => RtdeRecipe.afterCalls ⟨fun _ => 0, []⟩ jointCalls
  mem := ⟨fun _ => 0, []⟩
  wire := []

def jointPackage : Buf := patch (fun _ => 0) 0 [0, 60, 85, 1, 63, 240]

set_option maxRecDepth 100000 in
theorem parseIncomingData_spec_joints :
    ∃ mem, jointWorld.parseIncomingData jointPackage 7 = some (true, jointPackage, mem) ∧
      leNat (mem.read 64 8) = 7 := by
  have hRecipe : jointWorld.recipes 0 = RtdeRecipe.afterCalls ⟨fun _ => 0, []⟩ jointCalls := rfl
  obtain ⟨ok, mem, hParse, hAccepted, hDecoded, -⟩ :=
    parseIncomingData_spec rfl hRecipe (by simp [jointCalls]) (by decide +kernel) (by decide +kernel) jointPackage 7
  have hOk : ok = true := hAccepted.mpr (by decide +kernel)
  exact ⟨mem, hOk ▸ hParse, (hDecoded hOk).2 64 (by decide +kernel)⟩

end World

end LibUrx.Rtde
