import LibUrx.Base.Words
import LibUrx.Rtde.RecipeLayout

/-! # What the bytes of a package mean

A sequential decoder takes the values of a list of types off the front of a byte stream. Storage
holds a value if the bytes there, read the way the host reads its own variables, give that value.
-/
namespace LibUrx.Rtde
open Bytes Text
set_option autoImplicit false

/-- Doubles are their bit patterns. -/
inductive WireValue where
  | bool (b : Bool)
  | uint8 (n : Nat)
  | uint32 (n : Nat)
  | uint64 (n : Nat)
  | int32 (i : Int)
  | double (bits : Nat)
  | vector3d (bits : List Nat)
  | vector6d (bits : List Nat)
  | vector6int32 (is : List Int)
  deriving DecidableEq, Repr

def signed32 (n : Nat) : Int := if n < 2 ^ 31 then n else n - 2 ^ 32

def decodeValue (type : DataType) (bs : List UInt8) : Option (WireValue × List UInt8) :=
  match type with
  | .bool => (takeWord 1 bs).map fun (n, bs) => (.bool (n != 0), bs)
  | .uint8 => (takeWord 1 bs).map fun (n, bs) => (.uint8 n, bs)
  | .uint32 => (takeWord 4 bs).map fun (n, bs) => (.uint32 n, bs)
  | .uint64 => (takeWord 8 bs).map fun (n, bs) => (.uint64 n, bs)
  | .int32 => (takeWord 4 bs).map fun (n, bs) => (.int32 (signed32 n), bs)
  | .double => (takeWord 8 bs).map fun (n, bs) => (.double n, bs)
  | .vector3d => (takeWords 8 3 bs).map fun (ns, bs) => (.vector3d ns, bs)
  | .vector6d => (takeWords 8 6 bs).map fun (ns, bs) => (.vector6d ns, bs)
  | .vector6int32 => (takeWords 4 6 bs).map fun (ns, bs) => (.vector6int32 (ns.map signed32), bs)
  | _ => none

def decodeSeq : List DataType → List UInt8 → Option (List WireValue × List UInt8)
  | [], bs => some ([], bs)
  | type :: types, bs =>
    match decodeValue type bs with
    | none => none
    | some (v, bs) => (decodeSeq types bs).map fun (vs, bs) => (v :: vs, bs)

def hostValue (type : DataType) (bs : List UInt8) : Option WireValue :=
  match type with
  | .bool => some (.bool (leNat bs != 0))
  | .uint8 => some (.uint8 (leNat bs))
  | .uint32 => some (.uint32 (leNat bs))
  | .uint64 => some (.uint64 (leNat bs))
  | .int32 => some (.int32 (signed32 (leNat bs)))
  | .double => some (.double (leNat bs))
  | .vector3d => some (.vector3d (hostWords 8 3 bs))
  | .vector6d => some (.vector6d (hostWords 8 6 bs))
  | .vector6int32 => some (.vector6int32 ((hostWords 4 6 bs).map signed32))
  | _ => none

namespace Token

theorem elements_eq_blocks (w count : Nat) (buf : Buf) (off t : Nat) :
    elements w count (swap w) buf off t = blocks t (turned w buf count off) := by
  induction count generalizing off t with
  | zero => rfl
  | succ count ih =>
    have hHead := leBytes_swap_leNat (slice buf off w)
    rw [length_slice] at hHead
    have hTail : elements w (count + 1) (swap w) buf off t =
        (t, leBytes w (swap w (leNat (slice buf off w)))) :: elements w count (swap w) buf (off + w) (t + w) := by
      simp only [elements, List.range_succ_eq_map, List.map_cons, List.map_map, Nat.mul_zero, Nat.add_zero]
      refine congrArg _ (List.map_congr_left fun c _ => ?_)
      simp only [Function.comp_apply, Nat.mul_succ]
      rw [Nat.add_comm (w * c) w, Nat.add_assoc, Nat.add_assoc]
    rw [hTail, ih, hHead]
    simp [turned, blocks]

theorem block_of_word (w t : Nat) (buf : Buf) (off : Nat) :
    [(t, leBytes w (swap w (leNat (slice buf off w))))] = blocks t [(slice buf off w).reverse] := by
  have h := leBytes_swap_leNat (slice buf off w)
  rw [length_slice] at h
  rw [h, blocks, blocks]

theorem hostValue_bool (b : UInt8) :
    hostValue .bool [if b &&& 0xff ≠ 0 then 1 else 0] = some (.bool (b.toNat != 0)) := by
  have hMask : b &&& 0xff = b := UInt8.and_neg_one
  have hZero : b = 0 ↔ b.toNat = 0 := UInt8.toNat_inj.symm
  rw [hMask]
  split
  · rename_i hNonzero
    simp [hostValue, leNat, mt hZero.mpr hNonzero]
  · rename_i hZero'
    simp [hostValue, leNat, hZero.mp (not_not.mp hZero')]

/-- The assignments of a field fill its storage with the value that its bytes in the package mean. -/
theorem WellTyped.assignments_spec {tok : Token} (h : tok.WellTyped) (buf : Buf) (rest : List UInt8) :
    ∃ bss v, tok.assignments buf = blocks tok.storage bss ∧ bss.flatten.length = tok.numBytes ∧
      decodeValue tok.type (slice buf tok.offset tok.numBytes ++ rest) = some (v, rest) ∧
      hostValue tok.type bss.flatten = some v := by
  have hWord (w : Nat) : takeWord w (slice buf tok.offset w ++ rest) =
      some (leNat (slice buf tok.offset w).reverse, rest) := takeWord_append (length_slice _ _ _) rest
  have hByte : slice buf tok.offset 1 = [buf tok.offset] := rfl
  have hMem := h.mem_outputTypes
  have hSize := h.numBytes_eq
  simp only [outputTypes, List.mem_cons, List.not_mem_nil, or_false] at hMem
  rcases hMem with hType | hType | hType | hType | hType | hType | hType | hType | hType <;>
    simp only [hType, rtdeDatasize] at hSize <;> simp only [assignments, hType, hSize, decodeValue]
  · refine ⟨[[if buf tok.offset &&& 0xff ≠ 0 then 1 else 0]], _, rfl, rfl, ?_, hostValue_bool _⟩
    rw [hWord, hByte]
    simp [leNat]
  · refine ⟨[[buf tok.offset]], _, rfl, rfl, ?_, rfl⟩
    rw [hWord, hByte]
    rfl
  · exact ⟨_, _, block_of_word .., by simp, by rw [hWord]; rfl, by rw [List.flatten_singleton]; rfl⟩
  · exact ⟨_, _, block_of_word .., by simp, by rw [hWord]; rfl, by rw [List.flatten_singleton]; rfl⟩
  · exact ⟨_, _, block_of_word .., by simp, by rw [hWord]; rfl, by rw [List.flatten_singleton]; rfl⟩
  · exact ⟨_, _, block_of_word .., by simp, by rw [hWord]; rfl, by rw [List.flatten_singleton]; rfl⟩
  · exact ⟨_, _, elements_eq_blocks .., length_turned .., by rw [takeWords_slice 8 _ 3]; rfl, rfl⟩
  · exact ⟨_, _, elements_eq_blocks .., length_turned .., by rw [takeWords_slice 8 _ 6]; rfl, rfl⟩
  · exact ⟨_, _, elements_eq_blocks .., length_turned .., by rw [takeWords_slice 4 _ 6]; rfl, rfl⟩

theorem WellTyped.assignments_congr {tok : Token} (h : tok.WellTyped) {buf buf' : Buf}
    (hSlice : slice buf tok.offset tok.numBytes = slice buf' tok.offset tok.numBytes) :
    tok.assignments buf = tok.assignments buf' := by
  have hByte {i : Nat} (hlo : tok.offset ≤ i) (hhi : i < tok.offset + tok.numBytes) : buf i = buf' i :=
    eq_of_slice_eq hSlice hlo hhi
  have hElements {w count : Nat} (hTotal : w * count = tok.numBytes) :
      elements w count (swap w) buf tok.offset tok.storage = elements w count (swap w) buf' tok.offset tok.storage := by
    apply List.map_congr_left
    intro c hMem
    have hLt : w * (c + 1) ≤ w * count := Nat.mul_le_mul_left w (List.mem_range.mp hMem)
    rw [Nat.mul_succ] at hLt
    rw [slice_congr fun i hlo hhi => hByte (by omega) (by omega)]
  have hMem := h.mem_outputTypes
  have hSize := h.numBytes_eq
  simp only [outputTypes, List.mem_cons, List.not_mem_nil, or_false] at hMem
  rcases hMem with hType | hType | hType | hType | hType | hType | hType | hType | hType <;>
    simp only [hType, rtdeDatasize] at hSize <;> simp only [assignments, hType]
  · rw [hByte le_rfl (by omega)]
  · rw [← hSize, hSlice]
  · rw [← hSize, hSlice]
  · rw [← hSize, hSlice]
  · rw [← hSize, hSlice]
  · rw [← hSize, hSlice]
  · exact hElements hSize.symm
  · exact hElements hSize.symm
  · exact hElements hSize.symm

theorem length_assignments_congr (tok : Token) (buf buf' : Buf) :
    (tok.assignments buf).length = (tok.assignments buf').length := by
  unfold assignments
  cases tok.type <;> simp [elements]

/-- The bytes are the same, as far as a field of the type shows them. -/
def ShownAlike (type : DataType) (c c' : UInt8) : Prop := if type = .bool then (c = 0 ↔ c' = 0) else c = c'

theorem ShownAlike.of_eq (type : DataType) {c c' : UInt8} (h : c = c') : ShownAlike type c c' := by
  rw [ShownAlike, h]
  split <;> rfl

theorem ShownAlike.zero_iff {type : DataType} {c c' : UInt8} (h : ShownAlike type c c') : c = 0 ↔ c' = 0 := by
  rw [ShownAlike] at h
  split at h
  · exact h
  · rw [h]

theorem WellTyped.slice_of_assignments_eq {tok : Token} (h : tok.WellTyped) (hBool : tok.type ≠ .bool)
    {buf buf' : Buf} (hEq : tok.assignments buf = tok.assignments buf') :
    slice buf tok.offset tok.numBytes = slice buf' tok.offset tok.numBytes := by
  have hWord {w : Nat} (hSize : tok.numBytes = w)
      (hWords : [(tok.storage, leBytes w (swap w (leNat (slice buf tok.offset w))))] =
        [(tok.storage, leBytes w (swap w (leNat (slice buf' tok.offset w))))]) :
      slice buf tok.offset tok.numBytes = slice buf' tok.offset tok.numBytes := by
    rw [block_of_word, block_of_word] at hWords
    rw [hSize]
    exact List.reverse_injective (List.cons.inj (blocks_inj hWords)).1
  have hVector {w count : Nat} (hSize : tok.numBytes = w * count)
      (hElements : elements w count (swap w) buf tok.offset tok.storage =
        elements w count (swap w) buf' tok.offset tok.storage) :
      slice buf tok.offset tok.numBytes = slice buf' tok.offset tok.numBytes := by
    rw [elements_eq_blocks, elements_eq_blocks] at hElements
    rw [hSize]
    exact slice_of_turned_eq (blocks_inj hElements)
  have hMem := h.mem_outputTypes
  have hSize := h.numBytes_eq
  simp only [outputTypes, List.mem_cons, List.not_mem_nil, or_false] at hMem
  rcases hMem with hType | hType | hType | hType | hType | hType | hType | hType | hType <;>
    simp only [hType, rtdeDatasize] at hSize <;> simp only [assignments, hType] at hEq
  · exact absurd hType hBool
  · rw [hSize]
    exact (Prod.mk.inj (List.cons.inj hEq).1).2
  · exact hWord hSize hEq
  · exact hWord hSize hEq
  · exact hWord hSize hEq
  · exact hWord hSize hEq
  · exact hVector hSize hEq
  · exact hVector hSize hEq
  · exact hVector hSize hEq

theorem bool_assignments_eq_iff {tok : Token} (hBool : tok.type = .bool) (buf buf' : Buf) :
    tok.assignments buf = tok.assignments buf' ↔ (buf tok.offset = 0 ↔ buf' tok.offset = 0) := by
  have hMask (b : UInt8) : b &&& 0xff = b := UInt8.and_neg_one
  simp only [assignments, hBool, hMask]
  by_cases hZero : buf tok.offset = 0 <;> by_cases hZero' : buf' tok.offset = 0 <;> simp [hZero, hZero']

/-- A field assigns the same from two packages if and only if they agree in what it shows of its bytes. -/
theorem WellTyped.assignments_eq_iff {tok : Token} (h : tok.WellTyped) {buf buf' : Buf} :
    tok.assignments buf = tok.assignments buf' ↔
      ∀ j, tok.offset ≤ j → j < tok.offset + tok.numBytes → ShownAlike tok.type (buf j) (buf' j) := by
  cases Classical.em (tok.type = .bool) with
  | inl hBool =>
    have hSize : tok.numBytes = 1 := by rw [h.numBytes_eq, hBool, rtdeDatasize]
    simp only [bool_assignments_eq_iff hBool, ShownAlike, if_pos hBool]
    constructor
    · intro hZero j hlo hhi
      obtain rfl : j = tok.offset := by omega
      exact hZero
    · exact fun hZero => hZero tok.offset le_rfl (by omega)
  | inr hBool =>
    simp only [ShownAlike, if_neg hBool]
    constructor
    · exact fun hEq j hlo hhi => eq_of_slice_eq (h.slice_of_assignments_eq hBool hEq) hlo hhi
    · exact fun hBytes => h.assignments_congr (slice_congr hBytes)

end Token

end LibUrx.Rtde
