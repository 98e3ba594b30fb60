import LibUrx.Rtde.PackageFit

/-! # Fields side by side

The offsets of the fields divide the payload. What is stored in one part, and what is parsed from it, does not
depend on the others.
-/
namespace LibUrx.Rtde
open Bytes Text
set_option autoImplicit false

/-- The bytes of the payload that belong to a field. -/
def Token.Spans (tok : Token) (i : Nat) : Prop := tok.offset ≤ i ∧ i < tok.offset + tok.numBytes

/-- What storing a field assigns. -/
def Token.stored (tok : Token) (m : Memory) : Nat × List UInt8 := (tok.offset, (m.read tok.storage tok.numBytes).reverse)

/-- The fields divide the payload between them, so that it does not matter in which order they are stored, nor over
what. -/
structure RtdeRecipe.Divided (r : RtdeRecipe) : Prop where
  stores : ∀ tok ∈ r.fields, ∀ m dp i,
    (Stores.tokenStore tok m ⟨dp, []⟩).written i = true ↔ 4 ≤ i ∧ tok.Spans (i - 4)
  fills : ∀ tok ∈ r.fields, ∀ m data data' i, tok.Spans i → tok.tokenStore m data i = tok.tokenStore m data' i
  keeps : ∀ tok ∈ r.fields, ∀ m data i, ¬ tok.Spans i → tok.tokenStore m data i = data i
  apart : r.fields.Pairwise fun a b => ∀ i, ¬ (a.Spans i ∧ b.Spans i)
  covers : ∀ i, (∃ tok ∈ r.fields, tok.Spans i) ↔ i < r.expectedBytes
  anyOrder : ∀ fields, fields.Perm r.fields → ∀ m data dp, (storeFields fields m data).1 = true ∧
    slice (storeFields fields m data).2 0 r.expectedBytes = slice (r.store dp m).2 4 r.expectedBytes

/-- What is parsed into a field depends on the bytes of the field alone. -/
structure RtdeRecipe.Isolated (r : RtdeRecipe) : Prop where
  parse : ∀ tok ∈ r.fields, ∀ buf buf' : Buf, (∀ i, tok.Spans i → buf i = buf' i) → ∀ ts m,
    (r.parse buf ts m).2.2.read tok.storage tok.numBytes = (r.parse buf' ts m).2.2.read tok.storage tok.numBytes
  fields : ∀ tok ∈ r.fields, ∀ buf buf' : Buf, (∀ i, tok.Spans i → buf i = buf' i) → ∀ m,
    (parseFields r.fields buf m).2.2.read tok.storage tok.numBytes =
      (parseFields r.fields buf' m).2.2.read tok.storage tok.numBytes

theorem OffsetsFrom.le {o : Nat} {fields : List Token} (h : OffsetsFrom o fields) :
    ∀ tok ∈ fields, o ≤ tok.offset := by
  induction fields generalizing o with
  | nil => exact fun tok hMem => absurd hMem List.not_mem_nil
  | cons head rest ih =>
    intro tok hMem
    cases List.mem_cons.mp hMem with
    | inl hHead => exact hHead ▸ h.1.ge
    | inr hRest => exact (Nat.le_add_right _ _).trans (ih h.2 tok hRest)

theorem OffsetsFrom.pairwise {o : Nat} {fields : List Token} (h : OffsetsFrom o fields) :
    fields.Pairwise fun a b => Apart a.offset a.numBytes b.offset b.numBytes := by
  induction fields generalizing o with
  | nil => exact .nil
  | cons head rest ih =>
    obtain ⟨rfl, hRest⟩ := h
    exact List.pairwise_cons.mpr ⟨fun tok hMem => Or.inl (hRest.le tok hMem), ih hRest⟩

theorem OffsetsFrom.covers {o : Nat} {fields : List Token} (h : OffsetsFrom o fields) (i : Nat) :
    (∃ tok ∈ fields, tok.Spans i) ↔ o ≤ i ∧ i < o + totalBytes fields := by
  induction fields generalizing o with
  | nil =>
    rw [totalBytes_nil]
    refine iff_of_false ?_ (by omega)
    rintro ⟨tok, hMem, -⟩
    cases hMem
  | cons head rest ih =>
    obtain ⟨rfl, hRest⟩ := h
    simp only [List.mem_cons, exists_eq_or_imp]
    rw [ih hRest, totalBytes_cons, Token.Spans]
    omega

theorem storeFields_eq_writeAll {fields : List Token} (hTyped : ∀ tok ∈ fields, tok.WellTyped)
    (hKind : ∀ tok ∈ fields, tok.kind = .input) (m data : Memory) :
    storeFields fields m data.byte = (true, (data.writeAll (fields.map fun tok => tok.stored m)).byte) := by
  induction fields generalizing data with
  | nil => rfl
  | cons tok rest ih =>
    have hHead : tok.store m data.byte = (true, (data.write (tok.stored m).1 (tok.stored m).2).byte) := by
      rw [Token.store, hKind tok List.mem_cons_self]
      exact congrArg _ ((hTyped tok List.mem_cons_self).tokenStore_eq (hKind tok List.mem_cons_self) m data.byte)
    rw [storeFields, hHead]
    exact ih (List.forall_mem_of_forall_mem_cons hTyped)
      (List.forall_mem_of_forall_mem_cons hKind) _

theorem Token.length_stored (tok : Token) (m : Memory) : (tok.stored m).2.length = tok.numBytes := by
  rw [stored, List.length_reverse, Memory.length_read]

/-- Parsing a field fills its storage. -/
theorem Token.WellTyped.read_assignments {tok : Token} (h : tok.WellTyped) (buf : Buf) (m m' : Memory) :
    (m.writeAll (tok.assignments buf)).read tok.storage tok.numBytes =
      (m'.writeAll (tok.assignments buf)).read tok.storage tok.numBytes := by
  obtain ⟨bss, -, hBlocks, hLength, -⟩ := h.assignments_spec buf []
  rw [hBlocks, ← hLength, Memory.read_writeAll_blocks, Memory.read_writeAll_blocks]

theorem read_decodedWrites {before after : List Token} {tok : Token}
    (hTyped : ∀ t ∈ before ++ tok :: after, t.WellTyped)
    (hApart : ∀ t ∈ after, Apart t.storage t.numBytes tok.storage tok.numBytes) (m m' : Memory) (buf : Buf) :
    (m.writeAll (decodedWrites (before ++ tok :: after) buf)).read tok.storage tok.numBytes =
      (m'.writeAll (tok.assignments buf)).read tok.storage tok.numBytes := by
  have hTok : tok.WellTyped := hTyped tok (List.mem_append_right _ List.mem_cons_self)
  have hAfter : ∀ t ∈ after, t.WellTyped := fun t hMem =>
    hTyped t (List.mem_append_right _ (List.mem_cons_of_mem _ hMem))
  have hSplit : decodedWrites (before ++ tok :: after) buf =
      decodedWrites before buf ++ (tok.assignments buf ++ decodedWrites after buf) := by
    rw [decodedWrites, List.flatMap_append, List.flatMap_cons]
    rfl
  rw [hSplit, Memory.writeAll_append, Memory.writeAll_append,
    Memory.read_writeAll_of_apart (decodedWrites_apart hAfter hApart)]
  exact hTok.read_assignments buf _ _

namespace RtdeRecipe

variable {r : RtdeRecipe}

theorem divided (hLayout : r.Layout) (hFormed : r.Formed) (hDir : r.dirOut = false) : r.Divided := by
  have hKind : ∀ tok ∈ r.fields, tok.kind = .input := hFormed.kind_of_dir (by rw [hDir]; rfl)
  have hOffsets := hLayout.offsetsFrom
  have hCovers (i : Nat) : (∃ tok ∈ r.fields, tok.Spans i) ↔ i < r.expectedBytes := by
    rw [hOffsets.covers, hLayout.expected]
    omega
  constructor
  · intro tok hMem m dp i
    rw [Stores.written_tokenStore (hFormed.wellTyped tok hMem) (hKind tok hMem),
      or_iff_left (Memory.not_written_new dp i), Token.Spans]
    omega
  · intro tok hMem m data data' i hSpans
    exact ((hFormed.wellTyped tok hMem).tokenStore_apply (hKind tok hMem) m data data' i).trans (if_pos hSpans)
  · intro tok hMem m data i hSpans
    exact ((hFormed.wellTyped tok hMem).tokenStore_apply (hKind tok hMem) m data data i).trans (if_neg hSpans)
  · apply hOffsets.pairwise.imp
    rintro a b hApart i ⟨hFirst, hSecond⟩
    unfold Token.Spans at hFirst hSecond
    unfold Apart at hApart
    omega
  · exact hCovers
  · intro fields hPerm m data dp
    have hStored : storeFields fields m data = _ := storeFields_eq_writeAll (fun tok hMem => hFormed.wellTyped tok (hPerm.mem_iff.mp hMem))
      (fun tok hMem => hKind tok (hPerm.mem_iff.mp hMem)) m ⟨data, []⟩
    have hInOrder : storeFields r.fields m data = _ := storeFields_eq_writeAll hFormed.wellTyped hKind m ⟨data, []⟩
    have hSame : slice (r.store dp m).2 4 r.expectedBytes = slice (storeFields r.fields m data).2 0 r.expectedBytes := by
      have hPatch := slice_patch_self data 0 (wireBytes m r.fields)
      rw [length_wireBytes, ← hLayout.expected] at hPatch
      rw [store_payload hLayout hFormed hDir, storeFields_eq hFormed.wellTyped hKind hOffsets, hPatch]
    rw [hSame, hStored, hInOrder]
    refine ⟨rfl, Memory.read_writeAll_perm (hPerm.map _) ?_ ?_⟩
    · apply List.pairwise_map.mpr
      apply hOffsets.pairwise.imp
      intro a b hApart
      rwa [Token.length_stored, Token.length_stored]
    · intro i _ hLt
      obtain ⟨tok, hMem, hSpans⟩ := (hCovers i).mpr (by omega)
      refine ⟨tok.stored m, List.mem_map_of_mem hMem, ?_⟩
      rw [Token.length_stored]
      exact hSpans

/-- A field of its own storage holds what its own bytes mean, whatever is parsed before and behind it. -/
theorem isolated (hFormed : r.Formed) (hDir : r.dirOut = true)
    (hApart : r.fields.Pairwise fun a b => Apart a.storage a.numBytes b.storage b.numBytes) : r.Isolated := by
  have hKind : ∀ tok ∈ r.fields, tok.kind = .output := hFormed.kind_of_dir (by rw [hDir]; rfl)
  have hField {tok : Token} (hMem : tok ∈ r.fields) {buf buf' : Buf} (hBytes : ∀ i, tok.Spans i → buf i = buf' i)
      (m : Memory) : (m.writeAll (decodedWrites r.fields buf)).read tok.storage tok.numBytes =
        (m.writeAll (decodedWrites r.fields buf')).read tok.storage tok.numBytes := by
    obtain ⟨before, after, hSplit⟩ := List.append_of_mem hMem
    have hTyped := hFormed.wellTyped
    rw [hSplit] at hApart hTyped
    have hRest : ∀ t ∈ after, Apart t.storage t.numBytes tok.storage tok.numBytes := fun t hAfter =>
      ((List.pairwise_cons.mp (List.pairwise_append.mp hApart).2.1).1 t hAfter).symm
    have hSame : tok.assignments buf = tok.assignments buf' :=
      (hFormed.wellTyped tok hMem).assignments_congr (slice_congr fun i hlo hhi => hBytes i ⟨hlo, hhi⟩)
    rw [hSplit, read_decodedWrites hTyped hRest m m, read_decodedWrites hTyped hRest m m, hSame]
  constructor
  · intro tok hMem buf buf' hBytes ts m
    rw [hFormed.parse_eq hDir, hFormed.parse_eq hDir, parsedMemory, parsedMemory, Memory.writeAll_append,
      Memory.writeAll_append]
    exact Memory.read_writeAll_congr (hField hMem hBytes m) _
  · intro tok hMem buf buf' hBytes m
    rw [parseFields_eq hFormed.wellTyped hKind, parseFields_eq hFormed.wellTyped hKind]
    exact hField hMem hBytes m

/-- The fields of a recipe do not interfere, be it for input or for output. -/
theorem Built.fields_apart {namesIn namesOut : List (List UInt8)} {rIn rOut : RtdeRecipe}
    (hIn : Built false namesIn rIn) (hOut : Built true namesOut rOut)
    (hStorage : rOut.fields.Pairwise fun a b => Apart a.storage a.numBytes b.storage b.numBytes) :
    rIn.Divided ∧ rOut.Isolated := by
  obtain ⟨hDirIn, -, hLayoutIn, hFormedIn⟩ := hIn.spec
  obtain ⟨hDirOut, -, -, hFormedOut⟩ := hOut.spec
  exact ⟨divided hLayoutIn hFormedIn hDirIn, isolated hFormedOut hDirOut hStorage⟩

/-- A register, a mask and a fraction go out. -/
def inNames : List (List UInt8) :=
  [text "input_int_register_0", text "speed_slider_mask", text "speed_slider_fraction"]

set_option maxRecDepth 100000 in
theorem fields_apart_joints : ∃ rIn rOut, Built false inNames rIn ∧
    Built true [text "timestamp", text "target_q"] rOut ∧ rIn.Divided ∧ rOut.Isolated := by
  have hRegister : Built false [text "input_int_register_0"]
      ((init.setDir false).2.addField (text "input_int_register_0") 8).2 :=
    Built.addField .new (Prod.ext (by decide +kernel) rfl)
  have hMask : Built false [text "input_int_register_0", text "speed_slider_mask"]
      (((init.setDir false).2.addField (text "input_int_register_0") 8).2.addField (text "speed_slider_mask") 12).2 :=
    Built.addField hRegister (Prod.ext (by decide +kernel) rfl)
  have hIn : Built false inNames ((((init.setDir false).2.addField (text "input_int_register_0") 8).2.addField
      (text "speed_slider_mask") 12).2.addField (text "speed_slider_fraction") 16).2 :=
    Built.addField hMask (Prod.ext (by decide +kernel) rfl)
  have hFirst : Built true [text "timestamp"] ((init.setDir true).2.addField (text "timestamp") 8).2 :=
    Built.addField .new (Prod.ext (by decide +kernel) rfl)
  have hOut : Built true [text "timestamp", text "target_q"]
      ((((init.setDir true).2.addField (text "timestamp") 8).2.addField (text "target_q") 16).2) :=
    Built.addField hFirst (Prod.ext (by decide +kernel) rfl)
  exact ⟨_, _, hIn, hOut, Built.fields_apart hIn hOut (by decide +kernel)⟩

end RtdeRecipe

end LibUrx.Rtde
