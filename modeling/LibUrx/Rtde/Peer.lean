import LibUrx.Rtde.FieldList
import LibUrx.Rtde.Frames
import LibUrx.Rtde.TypeList

/-! # The controller's side of the connection

The controller has variables, which it knows by name. It files the variables of a request under an id and answers
with their types, and a package under such an id sets them.
-/
namespace LibUrx.Rtde
open Bytes Text
set_option autoImplicit false

abbrev Variables := List UInt8 → Option WireValue

def setAll (registers : Variables) (entries : List (List UInt8 × Option WireValue)) : Variables :=
  entries.foldl (fun registers entry name => if name = entry.1 then entry.2 else registers name) registers

structure Peer where
  inputs : UInt8 → Option (List (List UInt8 × DataType))
  outputs : UInt8 → Option (List (List UInt8 × DataType))
  registers : Variables

/-- The names that a request asks for, behind its head. -/
def requested (dirOut : Bool) (frame : List UInt8) : List (List UInt8) :=
  (frame.drop (headBytes dirOut)).splitOn comma

def asksForOutput (frame : List UInt8) : Bool := frame[2]? == some PackageType.setupOutputs.code

namespace Peer

def file (p : Peer) (dirOut : Bool) (id : UInt8) (listed : List (List UInt8 × DataType)) : Peer :=
  if dirOut then { p with outputs := fun k => if k = id then some listed else p.outputs k }
  else { p with inputs := fun k => if k = id then some listed else p.inputs k }

/-- The answer lists the types of the variables. They are filed if all of them are available. -/
def ask (p : Peer) (id : UInt8) (provides : List UInt8 → DataType) (frame : List UInt8) : List UInt8 × Peer :=
  let dirOut := asksForOutput frame
  let names := requested dirOut frame
  (typesAnswer (if dirOut then .setupOutputs else .setupInputs) id (names.map provides),
    if (names.map provides).all available then p.file dirOut id (names.map fun name => (name, provides name)) else p)

def take (p : Peer) (frame : List UInt8) : Peer :=
  if isPackage frame then
    match frame[3]?.bind p.inputs with
    | none => p
    | some listed =>
      match decodeSeq (listed.map Prod.snd) (frame.drop 4) with
      | some (values, []) => { p with registers := setAll p.registers ((listed.map Prod.fst).zip (values.map some)) }
      | _ => p
  else p

end Peer

theorem Token.WellTyped.decode_input {tok : Token} (h : tok.WellTyped) (hKind : tok.kind = .input) {bs : List UInt8}
    (hLength : bs.length = tok.numBytes) (rest : List UInt8) :
    ∃ v, decodeValue tok.type (bs.reverse ++ rest) = some (v, rest) ∧ hostValue tok.type bs = some v := by
  have hWord : takeWord tok.numBytes (bs.reverse ++ rest) = some (leNat bs, rest) := by
    rw [takeWord_append (by rw [List.length_reverse, hLength]), beNat, List.reverse_reverse]
  have hMem := h.input hKind
  rw [h.numBytes_eq] at hWord
  simp only [inputTypes, List.mem_cons, List.not_mem_nil, or_false] at hMem
  rcases hMem with hType | hType | hType | hType | hType <;> simp only [hType, rtdeDatasize] at hWord ⊢ <;>
    exact ⟨_, by rw [decodeValue, hWord]; rfl, rfl⟩

/-- Decoding what the members put on the wire gives what the host reads in them. -/
theorem decodeSeq_wire {fields : List Token} (hTyped : ∀ tok ∈ fields, tok.WellTyped)
    (hKind : ∀ tok ∈ fields, tok.kind = .input) (m : Memory) :
    ∃ values, decodeSeq (fields.map Token.type) (wireBytes m fields) = some (values, []) ∧
      values.map some = fields.map fun tok => hostValue tok.type (m.read tok.storage tok.numBytes) := by
  induction fields with
  | nil => exact ⟨[], rfl, rfl⟩
  | cons tok fields ih =>
    obtain ⟨values, hDecode, hHost⟩ := ih (List.forall_mem_of_forall_mem_cons hTyped)
      (List.forall_mem_of_forall_mem_cons hKind)
    obtain ⟨v, hValue, hHead⟩ := (hTyped tok List.mem_cons_self).decode_input (hKind tok List.mem_cons_self)
      (Memory.length_read m tok.storage tok.numBytes) (wireBytes m fields)
    refine ⟨v :: values, ?_, ?_⟩
    · rw [List.map_cons, wireBytes_cons, decodeSeq, hValue]
      simp only [hDecode, Option.map_some]
    · rw [List.map_cons, List.map_cons, hHost, hHead]

theorem length_of_takeWord {w n : Nat} {bs rest : List UInt8} (h : takeWord w bs = some (n, rest)) :
    bs.length = w + rest.length := by
  unfold takeWord at h
  split at h
  · obtain ⟨-, rfl⟩ := Prod.mk.inj (Option.some.inj h)
    rw [List.length_drop]
    omega
  · cases h

theorem length_of_takeWords {w count : Nat} {ns : List Nat} {bs rest : List UInt8}
    (h : takeWords w count bs = some (ns, rest)) : bs.length = w * count + rest.length := by
  induction count generalizing ns bs with
  | zero =>
    obtain ⟨-, rfl⟩ := Prod.mk.inj (Option.some.inj h)
    omega
  | succ count ih =>
    rw [takeWords] at h
    split at h
    · cases h
    · rename_i hWord
      obtain ⟨⟨ns, rest⟩, hWords, hSame⟩ := Option.map_eq_some_iff.mp h
      obtain ⟨-, rfl⟩ := Prod.mk.inj hSame
      have hFirst := length_of_takeWord hWord
      have hRest := ih hWords
      rw [Nat.mul_succ]
      omega

theorem length_of_decodeValue {type : DataType} (hType : type ∈ outputTypes) {v : WireValue} {bs rest : List UInt8}
    (h : decodeValue type bs = some (v, rest)) : bs.length = rtdeDatasize type + rest.length := by
  simp only [outputTypes, List.mem_cons, List.not_mem_nil, or_false] at hType
  rcases hType with rfl | rfl | rfl | rfl | rfl | rfl | rfl | rfl | rfl <;> rw [decodeValue] at h <;>
    obtain ⟨⟨words, left⟩, hTake, hSame⟩ := Option.map_eq_some_iff.mp h <;>
    obtain ⟨-, rfl⟩ := Prod.mk.inj hSame
  iterate 6 exact length_of_takeWord hTake
  iterate 3 exact length_of_takeWords hTake

theorem length_of_decodeSeq {types : List DataType} (hTypes : ∀ type ∈ types, type ∈ outputTypes)
    {values : List WireValue} {bs rest : List UInt8} (h : decodeSeq types bs = some (values, rest)) :
    bs.length = (types.map rtdeDatasize).sum + rest.length := by
  induction types generalizing values bs with
  | nil =>
    obtain ⟨-, rfl⟩ := Prod.mk.inj (Option.some.inj h)
    simp
  | cons type types ih =>
    rw [decodeSeq] at h
    split at h
    · cases h
    · rename_i hValue
      obtain ⟨⟨values, left⟩, hSeq, hSame⟩ := Option.map_eq_some_iff.mp h
      obtain ⟨-, rfl⟩ := Prod.mk.inj hSame
      have hFirst := length_of_decodeValue (hTypes _ List.mem_cons_self) hValue
      have hRest := ih (List.forall_mem_of_forall_mem_cons hTypes) hSeq
      rw [List.map_cons, List.sum_cons]
      omega

theorem dataNameToType_eq_iff {type type' : DataType} (h : type ∈ outputTypes) :
    dataNameToType (trim (typeName type')) (cStr (trim (typeName type'))).length = type ↔ type' = type := by
  simp only [outputTypes, List.mem_cons, List.not_mem_nil, or_false] at h
  rcases h with rfl | rfl | rfl | rfl | rfl | rfl | rfl | rfl | rfl <;> cases type' <;> decide

theorem length_typeNames_le (types : List DataType) : (typeNames types).length ≤ 14 * types.length := by
  induction types with
  | nil => exact Nat.zero_le _
  | cons type rest ih =>
    have hName : (typeName type).length ≤ 13 := by cases type <;> decide
    cases rest with
    | nil =>
      rw [typeNames, List.map_cons, List.map_nil, List.intercalate_singleton, List.length_singleton]
      omega
    | cons next rest =>
      rw [typeNames, List.map_cons] at ih
      rw [typeNames, List.map_cons, List.map_cons, List.intercalate_cons_cons, List.length_append, List.length_append,
        List.length_singleton]
      simp only [List.length_cons] at ih ⊢
      omega

theorem getlines_typeNames (types : List DataType) : getlines comma (typeNames types) = types.map typeName := by
  apply getlines_intercalate
  · intro item hMem
    obtain ⟨type, -, rfl⟩ := List.mem_map.mp hMem
    exact (item_typeName type).comma
  · intro item hLast hNil
    obtain ⟨type, -, rfl⟩ := List.mem_map.mp (List.mem_of_mem_getLast? hLast)
    have hLong := (item_typeName type).long
    rw [hNil] at hLong
    simp at hLong

namespace RtdeRecipe

/-- An answer that is accepted names the types of the fields. -/
theorem Formed.types_of_accepted {r : RtdeRecipe} (h : r.Formed) {type : PackageType} {id : UInt8}
    {types : List DataType} {b : Buf} (hFits : 4 + (typeNames types).length < 65536)
    (hAccepted : (r.registerResponse (answerOver (typesAnswer type id types) b)).1 = true) :
    types = r.types ∧ hdrRecipeId (answerOver (typesAnswer type id types) b) = id := by
  have hPacket : packetBytes = 2048 := rfl
  obtain ⟨hHead, -, hLength, hNamed⟩ := (r.registerResponse_true_iff _).mp hAccepted
  have hLong := length_typesAnswer type id types
  have hKnown {i : Nat} (hLe : i < 4) : answerOver (typesAnswer type id types) b i = ofBytes (typesAnswer type id types) i := by
    have hMany : i ≤ ((typesAnswer type id types).take packetBytes).length := by
      rw [List.length_take]
      omega
    rw [answerOver_known _ b hMany (by omega), ofBytes_of_lt (by rw [List.length_take]; omega),
      ofBytes_of_lt (by omega), List.getElem_take]
  have hSize : hdrSize (answerOver (typesAnswer type id types) b) = 4 + (typeNames types).length := by
    rw [← hdrSize_typesAnswer type id types hFits]
    exact hdrSize_congr (hKnown (by omega)) (hKnown (by omega))
  have hShort := ((headValid_iff _).mp hHead).2.1
  have hText : respVariables (answerOver (typesAnswer type id types) b) = typeNames types := by
    apply respVariables_answer type id types (by omega)
    refine notMem_intercalate (by decide) fun item hMem => ?_
    obtain ⟨type, -, rfl⟩ := List.mem_map.mp hMem
    exact (item_typeName type).zero
  rw [hText, getlines_typeNames] at hLength hNamed
  rw [List.length_map] at hLength
  refine ⟨?_, hKnown (by omega)⟩
  apply List.ext_getElem
  · rw [RtdeRecipe.types, List.length_map, hLength]
  · intro k hK hK'
    have hPair := List.all_eq_true.mp hNamed _ (List.getElem_mem (n := k) (by simp; omega))
    simp only [List.getElem_zip, List.getElem_map, Token.setResponseType, beq_iff_eq] at hPair
    have hField : k < r.fields.length := by omega
    have hMem : r.fields[k].type ∈ outputTypes :=
      (h.wellTyped _ (List.getElem_mem _)).mem_outputTypes
    simp only [RtdeRecipe.types, List.getElem_map]
    exact (dataNameToType_eq_iff hMem).mp hPair.symm

/-- A recipe as its calls leave it, with names that are names. -/
structure Proper (r : RtdeRecipe) : Prop where
  layout : r.Layout
  formed : r.Formed
  plain : ∀ tok ∈ r.fields, 0 ∉ tok.name ∧ comma ∉ tok.name

def listed (r : RtdeRecipe) : List (List UInt8 × DataType) := r.fields.map fun tok => (tok.name, tok.type)

/-- What the host reads in the members of the fields. -/
def values (r : RtdeRecipe) (m : Memory) : List (List UInt8 × Option WireValue) :=
  r.fields.map fun tok => (tok.name, hostValue tok.type (m.read tok.storage tok.numBytes))

/-- The names fit into a request, and the values into a package. -/
def FitsPacket (r : RtdeRecipe) : Prop :=
  r.fields ≠ [] ∧ r.fieldNames.length ≤ packetBytes - headBytes r.dirOut ∧ 4 + r.bytes ≤ packetBytes

instance (r : RtdeRecipe) : Decidable r.FitsPacket := inferInstanceAs (Decidable (_ ∧ _ ∧ _))

theorem Proper.zero_notMem {r : RtdeRecipe} (h : r.Proper) : 0 ∉ r.fieldNames := by
  refine notMem_intercalate (by decide) fun item hMem => ?_
  obtain ⟨tok, hTok, rfl⟩ := List.mem_map.mp hMem
  exact (h.plain tok hTok).1

theorem Proper.asks {r r' : RtdeRecipe} (h : r.Proper) (hFits : r.FitsPacket) {packet : Buf}
    (hMsg : r.getMsg = some (packet, r')) :
    asksForOutput (frameOf packet) = r.dirOut ∧ requested r.dirOut (frameOf packet) = r.fields.map Token.name := by
  obtain ⟨hFields, hShort, -⟩ := hFits
  have hText := cStr_eq_self_iff.mpr h.zero_notMem
  have hHead := headBytes_bounds r.dirOut
  obtain ⟨r'', hGot⟩ := getMsg_eq hFields
  obtain ⟨built, hBuilt, hType, hSlice, hSize⟩ :=
    rtdeControlMsg_of_le r.dirOut (if r.dirOut then r.cpo else r.cpi) r.fieldNames (by rwa [hText])
  rw [hGot, hBuilt] at hMsg
  obtain ⟨rfl, -⟩ := Prod.mk.inj (Option.some.inj hMsg)
  rw [hText] at hSlice hSize
  constructor
  · rw [asksForOutput, getElem_frameOf, hSize, if_pos (by omega), hType]
    cases r.dirOut <;> rfl
  · have hNames : (frameOf built).drop (headBytes r.dirOut) = r.fieldNames := by
      rw [slice_add] at hSlice
      rw [frameOf, hSize, slice_add, List.drop_left' (length_slice _ _ _), Nat.zero_add]
      exact (List.append_inj' hSlice rfl).1
    rw [requested, hNames, fieldNames, splitOn_intercalate_iff (by simpa using hFields)]
    intro item hMem
    obtain ⟨tok, hTok, rfl⟩ := List.mem_map.mp hMem
    exact (h.plain tok hTok).2

end RtdeRecipe

namespace Peer

theorem zip_listed (fields : List Token) (values : List WireValue) (f : Token → Option WireValue)
    (h : values.map some = fields.map f) :
    (fields.map Token.name).zip (values.map some) = fields.map fun tok => (tok.name, f tok) := by
  rw [h, List.zip_map', List.map_congr_left]
  exact fun _ _ => rfl

/-- A package that is stored from a filed recipe sets its variables to what the members hold. -/
theorem take_store {p : Peer} {r : RtdeRecipe} (h : r.Proper) (hDir : r.dirOut = false)
    (hFits : 4 + r.bytes ≤ packetBytes) {id : UInt8} (hId : r.recipeId = id.toNat)
    (hFiled : p.inputs id = some r.listed) (dp : Buf) (m : Memory) :
    p.take (frameOf (r.store dp m).2) = { p with registers := setAll p.registers (r.values m) } := by
  have hPacket : packetBytes = 2048 := rfl
  obtain ⟨-, hIdByte, hSize⟩ := RtdeRecipe.store_header hDir dp m
  have hBytes : r.expectedBytes = r.bytes := rfl
  rw [hBytes, Nat.mod_eq_of_lt (by omega)] at hSize
  have hPackage := RtdeRecipe.isPackage_store (r := r) hDir (by omega) dp m
  have hByte : hdrRecipeId (r.store dp m).2 = id := by
    have hLt := id.toNat_lt
    rw [hIdByte, hId]
    apply UInt8.toNat_inj.mp
    rw [UInt8.toNat_ofNat']
    omega
  have hFourth : (frameOf (r.store dp m).2)[3]? = some id := by
    rw [frameOf, slice_getElem?, if_pos (by omega), ← hByte]
    rfl
  have hWire : (frameOf (r.store dp m).2).drop 4 = wireBytes m r.fields := by
    rw [frameOf, hSize, slice_add, List.drop_left' (length_slice _ _ _)]
    exact RtdeRecipe.store_payload h.layout h.formed hDir dp m
  obtain ⟨values, hDecode, hHost⟩ :=
    decodeSeq_wire h.formed.wellTyped (h.formed.kind_of_dir (by rw [hDir]; rfl)) m
  have hTypes : r.listed.map Prod.snd = r.fields.map Token.type := by
    rw [RtdeRecipe.listed, List.map_map]
    rfl
  have hNames : r.listed.map Prod.fst = r.fields.map Token.name := by
    rw [RtdeRecipe.listed, List.map_map]
    rfl
  rw [take, if_pos hPackage, hFourth, Option.bind_some, hFiled]
  simp only [hTypes, hWire, hDecode, hNames, zip_listed _ _ _ hHost]
  rfl

/-- A package of output variables under this id, with what is known of them. -/
structure Reports (p : Peer) (id : UInt8) (known : Variables) (frame : List UInt8) : Prop where
  package : isPackage frame = true
  size : beNat (frame.take 2) = frame.length
  under : frame[3]? = some id
  decodes : ∀ listed, p.outputs id = some listed → ∃ values,
    decodeSeq (listed.map Prod.snd) (frame.drop 4) = some (values, []) ∧
      values.map some = listed.map fun e => known e.1

end Peer

namespace World

theorem slice_doRecv (rbuf : Buf) {frame : List UInt8} (h : frame.length ≤ packetBytes) :
    slice (doRecv rbuf packetBytes (some frame)).2 0 frame.length = frame := by
  have hSelf := slice_patch_self rbuf 0 frame
  simp only [doRecv, List.take_of_length_le h]
  split
  · rw [slice_congr fun i _ hhi => patch_outside (Or.inl (by omega)), hSelf]
  · exact hSelf

/-- What the peer reports under the id of the output recipe is in its members afterwards. -/
theorem takes_report {w : World} {i : Nat} (hOut : w.out = some i) (h : (w.recipes i).Proper)
    (hDir : (w.recipes i).dirOut = true) (hFits : 4 + (w.recipes i).bytes ≤ packetBytes)
    (hApart : (w.recipes i).DisjointTargets) {p : Peer} {id : UInt8} (hId : (w.recipes i).recipeId = id.toNat)
    (hNonzero : id ≠ 0) (hFiled : p.outputs id = some (w.recipes i).listed) {known : Variables} {frame : List UInt8}
    (hReports : p.Reports id known frame) (ts : UInt64) :
    ∃ w', w.recv (some frame) ts = some (true, w') ∧ (w.recipes i).values w'.mem =
      (w.recipes i).fields.map fun tok => (tok.name, known tok.name) := by
  have hPacket : packetBytes = 2048 := rfl
  have hTypes : (w.recipes i).listed.map Prod.snd = (w.recipes i).types := by
    rw [RtdeRecipe.listed, List.map_map]
    rfl
  obtain ⟨values, hDecode, hKnown⟩ := hReports.decodes _ hFiled
  rw [hTypes] at hDecode
  have hLong : 3 < frame.length := (List.getElem?_eq_some_iff.mp hReports.under).1
  have hLength : frame.length = 4 + (w.recipes i).bytes := by
    have hSum := length_of_decodeSeq (fun _ hMem => h.formed.mem_outputTypes hMem) hDecode
    have hBytes : (w.recipes i).bytes = totalBytes (w.recipes i).fields := h.layout.expected
    have hTotal : ((w.recipes i).types.map rtdeDatasize).sum = totalBytes (w.recipes i).fields := by
      rw [RtdeRecipe.types, List.map_map, totalBytes]
      exact congrArg List.sum (List.map_congr_left fun tok hMem => ((h.formed.wellTyped tok hMem).numBytes_eq).symm)
    rw [List.length_drop, List.length_nil] at hSum
    omega
  obtain ⟨data, hData⟩ : ∃ data, (doRecv w.buffer packetBytes (some frame)).2 = data := ⟨_, rfl⟩
  have hSlice := slice_doRecv w.buffer (show frame.length ≤ packetBytes by omega)
  rw [hData] at hSlice
  have hByte {k : Nat} {c : UInt8} (hGet : frame[k]? = some c) : data k = c := by
    have hLt := (List.getElem?_eq_some_iff.mp hGet).1
    rw [← hSlice, slice_getElem?, if_pos hLt, Nat.zero_add] at hGet
    exact Option.some.inj hGet
  have hHead : hdrSize data = frame.length := by
    have hTwo : slice data 0 2 = frame.take 2 := by
      rw [← hSlice, hLength, Nat.add_assoc 2 2, slice_add, List.take_left' (length_slice _ _ _)]
    have hSwap := swap_leNat (slice data 0 2)
    rw [length_slice, hTwo, hReports.size] at hSwap
    rw [hdrSize, ntohs, hTwo, hSwap]
  have hAccepts : Accepts (w.recipes i) data := by
    refine ⟨hByte (beq_iff_eq.mp hReports.package), ?_, ?_, ?_⟩
    · rw [hdrRecipeId, hByte hReports.under]
      exact hNonzero
    · rw [hdrRecipeId, hByte hReports.under, hId]
    · rw [hHead, hLength, RtdeRecipe.expectedBytes]
      omega
  have hParse := parseIncomingData_accepted hOut h.formed hDir hAccepts ts
  obtain ⟨values', hDecode', hHost⟩ := RtdeRecipe.parsedMemory_fields h.layout h.formed hApart (payload data) ts w.mem
  have hLoad : slice (payload data) 0 (w.recipes i).expectedBytes = frame.drop 4 := by
    rw [slice_payload, ← hSlice, hLength, slice_add, List.drop_left' (length_slice _ _ _), Nat.zero_add]
    rfl
  rw [hLoad] at hDecode'
  obtain ⟨rfl, -⟩ := Prod.mk.inj (Option.some.inj (hDecode.symm.trans hDecode'))
  refine ⟨_, by rw [recv_some, hData, hParse]; rfl, ?_⟩
  have hAll : (w.recipes i).fields.map (fun tok => hostValue tok.type
      (((w.recipes i).parsedMemory (payload data) ts w.mem).read tok.storage tok.numBytes)) =
        (w.recipes i).fields.map fun tok => known tok.name := by
    rw [hHost, hKnown, RtdeRecipe.listed, List.map_map]
    rfl
  rw [RtdeRecipe.values, List.map_inj_left]
  intro tok hMem
  exact Prod.ext rfl (List.map_inj_left.mp hAll tok hMem)

end World

end LibUrx.Rtde
