import LibUrx.Rtde.Handler

/-! # The members that a robot shares with its recipes

The recipes of a robot hold the addresses of its data members. The members lie in one block of memory,
each at a fixed place; a member without an initialiser has the bytes that happen to be there.
-/
namespace LibUrx
open Bytes Text Rtde
set_option autoImplicit false

def dof : Nat := 6

namespace Member

def outSeqnr : Nat := 8
def timestamp : Nat := 16
def targetQ : Nat := 24
def targetQd : Nat := 72
def targetQdd : Nat := 120
def targetMoment : Nat := 168
def targetTcpPose : Nat := 216
def qRefBuf : Nat := 264
def qRefOutSeqnrBuf : Nat := 312
def inSeqnr : Nat := 316
def cmd : Nat := 320
def setQd : Nat := 328
def tcpPoseRef : Nat := 376

end Member

inductive Command where
  | noCommand
  | stopCommand
  | newControlInputCommand
  | newTcpPoseRefCommand
  deriving DecidableEq, Repr

def Command.code : Command → UInt32
  | .noCommand => 0
  | .stopCommand => 1
  | .newControlInputCommand => 2
  | .newTcpPoseRefCommand => 3

def getWord (m : Memory) (a : Nat) : UInt32 := UInt32.ofNat (leNat (m.read a 4))

def setWord (m : Memory) (a : Nat) (v : UInt32) : Memory := m.write a (leBytes 4 v.toNat)

def getDouble (m : Memory) (a : Nat) : UInt64 := UInt64.ofNat (leNat (m.read a 8))

def getDoubles (m : Memory) (a : Nat) : List UInt64 := (List.range dof).map fun i => getDouble m (a + 8 * i)

/-- The element-wise copy of a vector into an array. -/
def setDoubles (m : Memory) (a : Nat) : List UInt64 → Memory
  | [] => m
  | v :: rest => setDoubles (m.write a (leBytes 8 v.toNat)) (a + 8) rest

theorem getWord_setWord_self (m : Memory) (a : Nat) (v : UInt32) : getWord (setWord m a v) a = v := by
  have hRead := Memory.read_write_self m a (leBytes 4 v.toNat)
  rw [length_leBytes] at hRead
  rw [getWord, setWord, hRead, leNat_leBytes_of_lt v.toNat_lt, UInt32.ofNat_toNat]

theorem getWord_setWord_of_apart {a b : Nat} (h : Apart a 4 b 4) (m : Memory) (v : UInt32) :
    getWord (setWord m a v) b = getWord m b := by
  rw [getWord, getWord, setWord, Memory.read_write_of_apart (by rwa [length_leBytes])]

/-- A field of a robot's recipe: its name and the address of the member. -/
abbrev FieldOf := List UInt8 × Nat

def outputFields : List FieldOf :=
  [(text "output_int_register_0", Member.outSeqnr),
    (text "timestamp", Member.timestamp),
    (text "target_q", Member.targetQ),
    (text "target_qd", Member.targetQd),
    (text "target_qdd", Member.targetQdd),
    (text "target_moment", Member.targetMoment)]

def outputFieldsTcpPose : List FieldOf := outputFields ++
  [(text "target_TCP_pose", Member.targetTcpPose),
    (text "output_int_register_1", Member.qRefOutSeqnrBuf),
    (text "output_double_register_0", Member.qRefBuf),
    (text "output_double_register_1", Member.qRefBuf + 8),
    (text "output_double_register_2", Member.qRefBuf + 16),
    (text "output_double_register_3", Member.qRefBuf + 24),
    (text "output_double_register_4", Member.qRefBuf + 32),
    (text "output_double_register_5", Member.qRefBuf + 40)]

def inputFields : List FieldOf :=
  [(text "input_int_register_0", Member.inSeqnr),
    (text "input_int_register_1", Member.cmd),
    (text "input_double_register_0", Member.setQd),
    (text "input_double_register_1", Member.setQd + 8),
    (text "input_double_register_2", Member.setQd + 16),
    (text "input_double_register_3", Member.setQd + 24),
    (text "input_double_register_4", Member.setQd + 32),
    (text "input_double_register_5", Member.setQd + 40)]

def inputFieldsTcpPose : List FieldOf := inputFields ++
  [(text "input_double_register_8", Member.tcpPoseRef),
    (text "input_double_register_9", Member.tcpPoseRef + 8),
    (text "input_double_register_10", Member.tcpPoseRef + 16),
    (text "input_double_register_11", Member.tcpPoseRef + 24),
    (text "input_double_register_12", Member.tcpPoseRef + 32),
    (text "input_double_register_13", Member.tcpPoseRef + 40)]

def typeOfField (dirOut : Bool) (name : List UInt8) : Option DataType :=
  if dirOut then (outputNameToIdx name).map (typeAt rtdeOutputNames)
  else (inputNameToIdx name).map (typeAt rtdeInputNames)

theorem addField_of_type {r : RtdeRecipe} {name : List UInt8} {storage : Nat} {type : DataType}
    (hType : typeOfField r.dirOut name = some type) (hStorage : storage ≠ 0) :
    ∃ tok : Token, r.addField name storage =
        (true, { r with fields := r.fields ++ [tok], bytes := r.bytes + rtdeDatasize type }) ∧
      tok = { name, type, datasize := rtdeDatasize type, offset := r.bytes,
              kind := if r.dirOut then .output else .input, storage } := by
  refine ⟨_, ?_, rfl⟩
  unfold typeOfField at hType
  cases hDir : r.dirOut with
  | true =>
    rw [hDir] at hType
    obtain ⟨idx, hIdx, rfl⟩ := Option.map_eq_some_iff.mp hType
    have hLt : rtdeDatasize (typeAt rtdeOutputNames idx) < 256 := rtdeDatasize_lt _
    simp [RtdeRecipe.addField, hStorage, hDir, hIdx, Token.ofOutput, Token.setOffset, Token.numBytes,
      Nat.mod_eq_of_lt hLt]
  | false =>
    rw [hDir] at hType
    obtain ⟨idx, hIdx, rfl⟩ := Option.map_eq_some_iff.mp hType
    have hLt : rtdeDatasize (typeAt rtdeInputNames idx) < 256 := rtdeDatasize_lt _
    simp [RtdeRecipe.addField, hStorage, hDir, hIdx, Token.ofInput, Token.setOffset, Token.numBytes,
      Nat.mod_eq_of_lt hLt]

end LibUrx
