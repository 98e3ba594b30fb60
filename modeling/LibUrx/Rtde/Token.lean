import LibUrx.Base.Memory
import LibUrx.Rtde.Packet
import Mathlib.Data.List.DropRight

/-! # Recipe tokens: one field, its storage and its coding

A token is one field of a recipe. The closure that the source builds when the token is created
captures the address of the user's variable; here the address is a field of the token and the
closure is a function of it. Storage is host memory (little-endian), the packet is big-endian.
-/
namespace LibUrx.Rtde
open Bytes Text
set_option autoImplicit false

def isSpace (c : UInt8) : Bool := c == 9 || c == 10 || c == 11 || c == 12 || c == 13 || c == 32

def isEtx (c : UInt8) : Bool := c == 3

def trim (s : List UInt8) : List UInt8 :=
  (((s.rdropWhile isSpace).rdropWhile isEtx).dropWhile isSpace).dropWhile isEtx

def be32toh (n : Nat) : Nat := swap 4 n

def htobe32 (n : Nat) : Nat := swap 4 n

def be64toh (n : Nat) : Nat := swap 8 n

def doubleBe (n : Nat) : Nat := swap 8 n

def doubleH (n : Nat) : Nat := swap 8 n

/-- `strncpy`: the text up to its terminator, padded with zero bytes to `n`. -/
def strncpy (src : List UInt8) (n : Nat) : List UInt8 :=
  (cStr src).take n ++ List.replicate (n - (cStr src).length) 0

inductive TokenKind where
  | input
  | output
  deriving DecidableEq, Repr

structure Token where
  name : List UInt8
  type : DataType
  datasize : Nat
  offset : Nat
  kind : TokenKind
  storage : Nat
  deriving DecidableEq, Repr

namespace Token

def numBytes (tok : Token) : Nat := tok.datasize % 256

def setOffset (tok : Token) (o : Nat) : Token := { tok with offset := o }

def ofInput (name : List UInt8) (idx t : Nat) : Token :=
  let type := if t = 0 then .notFound else typeAt rtdeInputNames idx
  { name, type, datasize := rtdeDatasize type, offset := 0, kind := .input, storage := t }

def ofOutput (name : List UInt8) (idx t : Nat) : Token :=
  let type := typeAt rtdeOutputNames idx
  { name, type, datasize := rtdeDatasize type, offset := 0, kind := .output, storage := t }

def tokenStore (tok : Token) (m : Memory) (buf : Buf) : Buf :=
  match tok.type with
  | .bool | .uint8 => patch buf tok.offset (m.read tok.storage 1)
  | .uint32 | .int32 => patch buf tok.offset (leBytes 4 (htobe32 (leNat (m.read tok.storage 4))))
  | .double => patch buf tok.offset (leBytes 8 (doubleH (leNat (m.read tok.storage 8))))
  | _ => buf

/-- `store` is virtual: only input tokens override the base class, which refuses. -/
def store (tok : Token) (m : Memory) (buf : Buf) : Bool × Buf :=
  match tok.kind with
  | .input => (true, tok.tokenStore m buf)
  | .output => (false, buf)

/-- The element loop of the vector decoders: `count` words of `w` bytes, converted by `conv`. -/
def elements (w count : Nat) (conv : Nat → Nat) (buf : Buf) (off t : Nat) : List (Nat × List UInt8) :=
  (List.range count).map fun c => (t + w * c, leBytes w (conv (leNat (slice buf (off + w * c) w))))

/-- The assignments to storage that the decoding closure makes, in order. -/
def assignments (tok : Token) (buf : Buf) : List (Nat × List UInt8) :=
  match tok.type with
  | .bool => [(tok.storage, [if buf tok.offset &&& 0xff ≠ 0 then 1 else 0])]
  | .uint8 => [(tok.storage, slice buf tok.offset 1)]
  | .uint32 | .int32 => [(tok.storage, leBytes 4 (be32toh (leNat (slice buf tok.offset 4))))]
  | .uint64 => [(tok.storage, leBytes 8 (be64toh (leNat (slice buf tok.offset 8))))]
  | .double => [(tok.storage, leBytes 8 (doubleBe (leNat (slice buf tok.offset 8))))]
  | .vector3d => elements 8 3 doubleBe buf tok.offset tok.storage
  | .vector6d => elements 8 6 doubleBe buf tok.offset tok.storage
  | .vector6int32 | .vector6uint32 => elements 4 6 be32toh buf tok.offset tok.storage
  | .string | .inUse | .notFound => []

def tokenParser (tok : Token) (buf : Buf) (m : Memory) : Buf × Memory :=
  if tok.type = .string then
    -- the source passes destination and source of this copy in this order
    (patch buf 0 (strncpy (m.read tok.storage 32) 32), m)
  else (buf, m.writeAll (tok.assignments buf))

def parse (tok : Token) (buf : Buf) (m : Memory) : Bool × Buf × Memory :=
  match tok.kind with
  | .input => (false, buf, m)
  | .output => (true, tok.tokenParser buf m)

def setResponseType (tok : Token) (respType : List UInt8) : Bool :=
  tok.type == dataNameToType (trim respType) (cStr (trim respType)).length

end Token

/-- A token as the two constructors leave it: its kind and size go with its type. -/
structure Token.WellTyped (tok : Token) : Prop where
  size : tok.datasize = rtdeDatasize tok.type
  input : tok.kind = .input → tok.type ∈ inputTypes
  output : tok.kind = .output → tok.type ∈ outputTypes

namespace Token

theorem WellTyped.mem_outputTypes {tok : Token} (h : tok.WellTyped) : tok.type ∈ outputTypes := by
  cases hKind : tok.kind with
  | input => exact inputTypes_subset_outputTypes (h.input hKind)
  | output => exact h.output hKind

theorem WellTyped.numBytes_eq {tok : Token} (h : tok.WellTyped) : tok.numBytes = rtdeDatasize tok.type := by
  rw [numBytes, h.size, Nat.mod_eq_of_lt (rtdeDatasize_lt _)]

theorem WellTyped.numBytes_pos {tok : Token} (h : tok.WellTyped) : 0 < tok.numBytes := by
  rw [h.numBytes_eq]
  exact rtdeDatasize_pos h.mem_outputTypes

theorem WellTyped.ne_string {tok : Token} (h : tok.WellTyped) : tok.type ≠ .string := by
  intro hType
  have hMem := h.mem_outputTypes
  rw [hType] at hMem
  simp [outputTypes] at hMem

theorem ofInput_wellTyped {name : List UInt8} {idx t : Nat} (hIdx : inputNameToIdx name = some idx)
    (hStorage : t ≠ 0) (o : Nat) : ((ofInput name idx t).setOffset o).WellTyped where
  size := rfl
  input _ := by
    simp only [setOffset, ofInput, if_neg hStorage]
    exact inputNameToIdx_typeAt hIdx
  output h := by cases h

theorem ofOutput_wellTyped {name : List UInt8} {idx : Nat} (hIdx : outputNameToIdx name = some idx)
    (t o : Nat) : ((ofOutput name idx t).setOffset o).WellTyped where
  size := rfl
  input h := by cases h
  output _ := outputNameToIdx_typeAt hIdx

end Token

end LibUrx.Rtde
