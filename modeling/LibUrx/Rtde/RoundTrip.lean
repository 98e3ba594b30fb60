import LibUrx.Rtde.DataPackage

/-! # From an input recipe to an output recipe

Storing turns the bytes of each variable round and puts them one behind the other; parsing with
fields of the same types turns them back.
-/
namespace LibUrx.Rtde
open Bytes Text
set_option autoImplicit false

def wireBytes (m : Memory) (fields : List Token) : List UInt8 :=
  fields.flatMap fun tok => (m.read tok.storage tok.numBytes).reverse

@[simp] theorem wireBytes_cons (m : Memory) (tok : Token) (fields : List Token) :
    wireBytes m (tok :: fields) = (m.read tok.storage tok.numBytes).reverse ++ wireBytes m fields := by
  simp [wireBytes]

@[simp] theorem length_wireBytes (m : Memory) (fields : List Token) :
    (wireBytes m fields).length = totalBytes fields := by
  induction fields with
  | nil => rfl
  | cons tok fields ih => simp [ih]

theorem Token.WellTyped.tokenStore_eq {tok : Token} (h : tok.WellTyped) (hKind : tok.kind = .input)
    (m : Memory) (buf : Buf) :
    tok.tokenStore m buf = patch buf tok.offset (m.read tok.storage tok.numBytes).reverse := by
  have hWord (w : Nat) : leBytes w (swap w (leNat (m.read tok.storage w))) = (m.read tok.storage w).reverse := by
    have := leBytes_swap_leNat (m.read tok.storage w)
    rwa [Memory.length_read] at this
  have hByte : (m.read tok.storage 1).reverse = m.read tok.storage 1 := rfl
  have hMem := h.input hKind
  have hSize := h.numBytes_eq
  simp only [inputTypes, List.mem_cons, List.not_mem_nil, or_false] at hMem
  rcases hMem with hType | hType | hType | hType | hType <;>
    simp only [hType, rtdeDatasize] at hSize <;> simp only [tokenStore, hType, hSize]
  · rw [hByte]
  · rw [hByte]
  · rw [htobe32, hWord]
  · rw [htobe32, hWord]
  · rw [doubleH, hWord]

/-- A store fills the bytes of its field, whatever stood there, and leaves the others alone. -/
theorem Token.WellTyped.tokenStore_apply {tok : Token} (h : tok.WellTyped) (hKind : tok.kind = .input) (m : Memory)
    (buf buf' : Buf) (i : Nat) : tok.tokenStore m buf i =
      if tok.offset ≤ i ∧ i < tok.offset + tok.numBytes then tok.tokenStore m buf' i else buf i := by
  have hLength : (m.read tok.storage tok.numBytes).reverse.length = tok.numBytes := by
    rw [List.length_reverse, Memory.length_read]
  rw [h.tokenStore_eq hKind, h.tokenStore_eq hKind]
  split
  · rename_i hInside
    obtain ⟨k, rfl⟩ := Nat.exists_eq_add_of_le hInside.1
    rw [patch_inside (by omega), patch_inside (by omega)]
  · rename_i hOutside
    exact patch_outside (by omega)

theorem storeFields_eq {fields : List Token} (hTyped : ∀ tok ∈ fields, tok.WellTyped)
    (hKind : ∀ tok ∈ fields, tok.kind = .input) {o : Nat} (hOffsets : OffsetsFrom o fields) (m : Memory)
    (buf : Buf) : storeFields fields m buf = (true, patch buf o (wireBytes m fields)) := by
  induction fields generalizing o buf with
  | nil => simp [storeFields, wireBytes]
  | cons tok fields ih =>
    obtain ⟨rfl, hRest⟩ := hOffsets
    have hHead : tok.store m buf =
        (true, patch buf tok.offset (m.read tok.storage tok.numBytes).reverse) := by
      rw [Token.store, hKind tok List.mem_cons_self]
      exact congrArg _ ((hTyped tok List.mem_cons_self).tokenStore_eq (hKind tok List.mem_cons_self) m buf)
    have hTail := ih (List.forall_mem_of_forall_mem_cons hTyped)
      (List.forall_mem_of_forall_mem_cons hKind) hRest
      (patch buf tok.offset (m.read tok.storage tok.numBytes).reverse)
    have hJoin := patch_append buf tok.offset (m.read tok.storage tok.numBytes).reverse (wireBytes m fields)
    rw [List.length_reverse, Memory.length_read] at hJoin
    rw [storeFields, hHead, wireBytes_cons, ← hJoin]
    exact hTail

/-- What arrives of a value: a truth value only as such, everything else byte for byte. -/
def carried (type : DataType) (bs : List UInt8) : List UInt8 :=
  if type = .bool then [if leNat bs = 0 then 0 else 1] else bs

theorem Token.WellTyped.assignments_of_wire {tok : Token} (h : tok.WellTyped) (hType : tok.type ∈ inputTypes)
    {buf : Buf} {bs : List UInt8} (hWire : slice buf tok.offset tok.numBytes = bs.reverse) :
    tok.assignments buf = [(tok.storage, carried tok.type bs)] := by
  have hWord (w : Nat) (hLength : tok.numBytes = w) :
      leBytes w (swap w (leNat (slice buf tok.offset w))) = bs := by
    have := leBytes_swap_leNat (slice buf tok.offset w)
    rw [length_slice] at this
    rw [this, ← hLength, hWire, List.reverse_reverse]
  have hSize := h.numBytes_eq
  simp only [inputTypes, List.mem_cons, List.not_mem_nil, or_false] at hType
  rcases hType with hType | hType | hType | hType | hType <;>
    simp only [hType, rtdeDatasize] at hSize <;> simp only [assignments, hType, carried]
  · rw [hSize] at hWire
    have hByte : bs = [buf tok.offset] := by
      have := congrArg List.reverse hWire
      rw [List.reverse_reverse] at this
      exact this.symm
    have hMask : buf tok.offset &&& 0xff = buf tok.offset := UInt8.and_neg_one
    have hZero : buf tok.offset = 0 ↔ leNat bs = 0 := by
      rw [hByte, leNat, leNat, Nat.mul_zero, Nat.add_zero]
      exact UInt8.toNat_inj.symm
    rw [hMask]
    simp only [ne_eq, hZero, ite_not, if_true]
  · rw [hSize] at hWire
    have := congrArg List.reverse hWire
    rw [List.reverse_reverse] at this
    rw [← this]
    rfl
  · rw [be32toh, hWord 4 hSize]
    rfl
  · rw [be32toh, hWord 4 hSize]
    rfl
  · rw [doubleBe, hWord 8 hSize]
    rfl

def carriedValues (m : Memory) (ins outs : List Token) : List (Nat × List UInt8) :=
  (ins.zip outs).map fun pair => (pair.2.storage, carried pair.1.type (m.read pair.1.storage pair.1.numBytes))

theorem numBytes_eq_of_type_eq {a b : Token} (ha : a.WellTyped) (hb : b.WellTyped) (h : a.type = b.type) :
    a.numBytes = b.numBytes := by
  rw [ha.numBytes_eq, hb.numBytes_eq, h]

theorem decodedWrites_of_wire {ins outs : List Token} (hIns : ∀ tok ∈ ins, tok.WellTyped)
    (hKind : ∀ tok ∈ ins, tok.kind = .input) (hOuts : ∀ tok ∈ outs, tok.WellTyped)
    (hTypes : ins.map Token.type = outs.map Token.type) {o : Nat} (hOffsets : OffsetsFrom o outs) {m : Memory}
    {buf : Buf} (hWire : slice buf o (totalBytes outs) = wireBytes m ins) :
    decodedWrites outs buf = carriedValues m ins outs := by
  induction outs generalizing ins o with
  | nil =>
    rw [carriedValues, List.zip_nil_right]
    rfl
  | cons tokOut outs ih =>
    cases ins with
    | nil => cases hTypes
    | cons tokIn ins =>
      obtain ⟨hType, hRestTypes⟩ := List.cons.inj hTypes
      obtain ⟨rfl, hRestOffsets⟩ := hOffsets
      have hIn := hIns tokIn List.mem_cons_self
      have hOut := hOuts tokOut List.mem_cons_self
      have hSize := numBytes_eq_of_type_eq hIn hOut hType
      rw [totalBytes_cons, slice_add, wireBytes_cons] at hWire
      obtain ⟨hHead, hRest⟩ := List.append_inj hWire (by simp [hSize])
      have hAssign := hOut.assignments_of_wire (hType ▸ hIn.input (hKind tokIn List.mem_cons_self)) hHead
      have hTail := ih (List.forall_mem_of_forall_mem_cons hIns)
        (List.forall_mem_of_forall_mem_cons hKind) (List.forall_mem_of_forall_mem_cons hOuts)
        hRestTypes hRestOffsets hRest
      rw [decodedWrites, List.flatMap_cons, ← decodedWrites, hTail, hAssign, ← hType]
      rfl

theorem length_carried {tok : Token} (h : tok.WellTyped) (m : Memory) :
    (carried tok.type (m.read tok.storage tok.numBytes)).length = tok.numBytes := by
  rw [carried]
  split
  · rename_i hBool
    rw [h.numBytes_eq, hBool]
    rfl
  · exact Memory.length_read _ _ _

theorem carriedValues_windows {ins outs : List Token} (hIns : ∀ tok ∈ ins, tok.WellTyped)
    (hOuts : ∀ tok ∈ outs, tok.WellTyped) (hTypes : ins.map Token.type = outs.map Token.type) (m : Memory) :
    (carriedValues m ins outs).map (fun entry => (entry.1, entry.2.length)) =
      outs.map fun tok => (tok.storage, tok.numBytes) := by
  induction outs generalizing ins with
  | nil => rw [carriedValues, List.zip_nil_right, List.map_nil, List.map_nil, List.map_nil]
  | cons tokOut outs ih =>
    cases ins with
    | nil => cases hTypes
    | cons tokIn ins =>
      obtain ⟨hType, hRestTypes⟩ := List.cons.inj hTypes
      have hIn := hIns tokIn List.mem_cons_self
      have hTail := ih (List.forall_mem_of_forall_mem_cons hIns)
        (List.forall_mem_of_forall_mem_cons hOuts) hRestTypes
      have hSize := numBytes_eq_of_type_eq hIn (hOuts tokOut List.mem_cons_self) hType
      rw [carriedValues, List.zip_cons_cons, List.map_cons, List.map_cons, ← carriedValues, hTail,
        length_carried hIn, hSize, List.map_cons]

theorem type_eq_of_mem_zip {ins outs : List Token} (hTypes : ins.map Token.type = outs.map Token.type)
    {pair : Token × Token} (hMem : pair ∈ ins.zip outs) : pair.1.type = pair.2.type := by
  induction outs generalizing ins with
  | nil => simp at hMem
  | cons tokOut outs ih =>
    cases ins with
    | nil => cases hTypes
    | cons tokIn ins =>
      obtain ⟨hType, hRestTypes⟩ := List.cons.inj hTypes
      rcases List.mem_cons.mp hMem with rfl | hMem
      · exact hType
      · exact ih hRestTypes hMem

namespace RtdeRecipe

/-- A stored recipe: the header and the turned bytes of the variables, nothing else is touched. -/
theorem store_eq {r : RtdeRecipe} (hLayout : r.Layout) (hFormed : r.Formed) (hDir : r.dirOut = false)
    (dp : Buf) (m : Memory) :
    r.store dp m = (true, patch (rtdeDataPackageInit dp r.recipeId r.expectedBytes) 4 (wireBytes m r.fields)) := by
  have hKind : ∀ tok ∈ r.fields, tok.kind = .input := hFormed.kind_of_dir (by rw [hDir]; rfl)
  rw [store, hDir]
  simp only [storeFields_eq hFormed.wellTyped hKind hLayout.offsetsFrom, Bool.false_eq_true, if_false,
    Prod.mk.injEq, true_and]
  funext i
  unfold withPayload payload
  split
  · rename_i hHeader
    exact (patch_outside (Or.inl hHeader)).symm
  · rename_i hPayload
    simp only [patch, Nat.zero_le, if_true, Nat.sub_zero, if_pos (Nat.le_of_not_lt hPayload)]
    rw [Nat.add_sub_cancel' (Nat.le_of_not_lt hPayload)]

theorem store_payload {r : RtdeRecipe} (hLayout : r.Layout) (hFormed : r.Formed) (hDir : r.dirOut = false)
    (dp : Buf) (m : Memory) :
    slice (r.store dp m).2 4 r.expectedBytes = wireBytes m r.fields := by
  have hPatch := slice_patch_self (rtdeDataPackageInit dp r.recipeId r.expectedBytes) 4 (wireBytes m r.fields)
  rw [length_wireBytes, ← hLayout.expected] at hPatch
  rw [store_eq hLayout hFormed hDir]
  exact hPatch

theorem recipeId_byte (id : Int) : ((UInt8.ofNat (id % 256).toNat).toNat : Int) = id % 256 := by
  have hByte : (UInt8.ofNat (id % 256).toNat).toNat = (id % 256).toNat % 256 := by simp
  omega

/-- Every variable of the input recipe arrives in the storage of its partner. -/
theorem store_parse {mIn mOut : Memory} {inCalls outCalls : List RecipeCall} {k : Int} {rIn rOut : RtdeRecipe}
    (hIn : rIn = { afterCalls mIn inCalls with recipeId := k }) (hInCalls : .clearFields ∉ inCalls)
    (hInDir : rIn.dirOut = false) (hOut : rOut = afterCalls mOut outCalls) (hOutCalls : .clearFields ∉ outCalls)
    (hOutDir : rOut.dirOut = true) (hTypes : rIn.fields.map Token.type = rOut.fields.map Token.type)
    (hSize : 4 + totalBytes rIn.fields ≤ 2048) (dp : Buf) (m target : Memory) (ts : UInt64) :
    ∃ package decoded, rIn.store dp m = (true, package) ∧
      hdrType package = PackageType.dataPackage.code ∧
      ((hdrRecipeId package).toNat : Int) = k % 256 ∧
      hdrSize package = 4 + totalBytes rIn.fields ∧
      rOut.parse (payload package) ts target = (true, payload package, decoded) ∧
      decoded = target.writeAll (carriedValues m rIn.fields rOut.fields ++
        rOut.tsNs.toList.map fun a => (a, leBytes 8 ts.toNat)) ∧
      (rOut.DisjointTargets → ∀ pair ∈ rIn.fields.zip rOut.fields,
        decoded.read pair.2.storage pair.2.numBytes =
          carried pair.1.type (m.read pair.1.storage pair.1.numBytes)) := by
  have hInLayout : rIn.Layout := by
    rw [hIn]
    exact layout_congr (r := afterCalls mIn inCalls) rfl rfl (layout_afterCalls hInCalls)
  have hInFormed : rIn.Formed := by
    rw [hIn]
    exact ⟨(formed_afterCalls mIn inCalls).wellTyped, (formed_afterCalls mIn inCalls).kind⟩
  have hOutLayout : rOut.Layout := hOut ▸ layout_afterCalls hOutCalls
  have hOutFormed : rOut.Formed := hOut ▸ formed_afterCalls mOut outCalls
  have hInKind : ∀ tok ∈ rIn.fields, tok.kind = .input := hInFormed.kind_of_dir (by rw [hInDir]; rfl)
  have hFits : 4 + rIn.expectedBytes < 65536 := by
    rw [hInLayout.expected]
    omega
  have hTotal : totalBytes rIn.fields = totalBytes rOut.fields := by
    have := congrArg (fun types => (types.map rtdeDatasize).sum) hTypes
    rw [List.map_map, List.map_map] at this
    have hSum {fields : List Token} (hTyped : ∀ tok ∈ fields, tok.WellTyped) :
        totalBytes fields = (fields.map (rtdeDatasize ∘ Token.type)).sum :=
      congrArg List.sum (List.map_congr_left fun tok hMem => (hTyped tok hMem).numBytes_eq)
    rw [hSum hInFormed.wellTyped, hSum hOutFormed.wellTyped, this]
  obtain ⟨hType, hId, hHdrSize⟩ := store_header hInDir dp m
  have hWire : slice (payload (rIn.store dp m).2) 0 (totalBytes rOut.fields) = wireBytes m rIn.fields := by
    rw [slice_payload, ← hTotal, ← hInLayout.expected, store_payload hInLayout hInFormed hInDir]
  have hWrites := decodedWrites_of_wire hInFormed.wellTyped hInKind hOutFormed.wellTyped hTypes
    hOutLayout.offsetsFrom hWire
  have hParse := hOutFormed.parse_eq hOutDir (payload (rIn.store dp m).2) ts target
  rw [parsedMemory, hWrites] at hParse
  refine ⟨(rIn.store dp m).2, _, ?_, hType, ?_, ?_, hParse, rfl, fun hApart pair hPair => ?_⟩
  · rw [store_eq hInLayout hInFormed hInDir]
  · have hRecipeId : rIn.recipeId = k := hIn ▸ rfl
    rw [hId, recipeId_byte, hRecipeId]
  · rw [hHdrSize, Nat.mod_eq_of_lt hFits, hInLayout.expected]
  · have hWindows : (carriedValues m rIn.fields rOut.fields ++
        rOut.tsNs.toList.map fun a => (a, leBytes 8 ts.toNat)).map (fun entry => (entry.1, entry.2.length)) =
          rOut.targets := by
      rw [List.map_append, carriedValues_windows hInFormed.wellTyped hOutFormed.wellTyped hTypes, targets,
        List.map_map]
      simp only [Function.comp_def, length_leBytes]
    rw [DisjointTargets, ← hWindows] at hApart
    have hRead := Memory.read_writeAll_of_pairwise (m := target) (List.pairwise_map.mp hApart)
      (List.mem_append_left _ (List.mem_map_of_mem hPair))
    have hTokIn := hInFormed.wellTyped _ (List.of_mem_zip hPair).1
    have hTokOut := hOutFormed.wellTyped _ (List.of_mem_zip hPair).2
    have hLength : (carried pair.1.type (m.read pair.1.storage pair.1.numBytes)).length = pair.2.numBytes :=
      (length_carried hTokIn m).trans
        (numBytes_eq_of_type_eq hTokIn hTokOut (type_eq_of_mem_zip hTypes hPair))
    rw [hLength] at hRead
    exact hRead

/-- A register and a double, sent under id 3 and decoded into the storage at 32 and 40. -/
def registerCallsIn : List RecipeCall :=
  [.dirInput, .addField (text "input_int_register_0") 8, .addField (text "input_double_register_0") 16]

def registerCallsOut : List RecipeCall :=
  [.addField (text "output_int_register_0") 32, .addField (text "output_double_register_0") 40]

def countingMemory : Memory := ⟨UInt8.ofNat, []⟩

set_option maxRecDepth 100000 in
theorem store_parse_registers :
    ∃ package decoded,
      ({ afterCalls countingMemory registerCallsIn with recipeId := 3 } : RtdeRecipe).store (fun _ => 7)
        countingMemory = (true, package) ∧ hdrRecipeId package = 3 ∧ hdrSize package = 16 ∧
      (afterCalls countingMemory registerCallsOut).parse (payload package) 0 countingMemory =
        (true, payload package, decoded) ∧
      decoded.read 40 8 = countingMemory.read 16 8 := by
  have hIn : ({ afterCalls countingMemory registerCallsIn with recipeId := 3 } : RtdeRecipe) =
      { afterCalls countingMemory registerCallsIn with recipeId := 3 } := rfl
  have hOut : afterCalls countingMemory registerCallsOut = afterCalls countingMemory registerCallsOut := rfl
  obtain ⟨package, decoded, hStore, -, hId, hSize, hParse, -, hValues⟩ :=
    store_parse hIn (by simp [registerCallsIn]) (by decide +kernel) hOut (by simp [registerCallsOut])
      (by decide +kernel) (by decide +kernel) (by decide +kernel) (fun _ => 7) countingMemory countingMemory 0
  refine ⟨package, decoded, hStore, ?_, ?_, hParse, ?_⟩
  · exact UInt8.toNat_inj.mp (Int.ofNat_inj.mp hId)
  · exact hSize.trans (by decide +kernel)
  · exact hValues (by decide +kernel)
      (⟨text "input_double_register_0", .double, 8, 4, .input, 16⟩,
        ⟨text "output_double_register_0", .double, 8, 4, .output, 40⟩) (by decide +kernel)

end RtdeRecipe

end LibUrx.Rtde
