import LibUrx.Base.Text

/-! # Variable names, type names and sizes of the RTDE protocol

The tables of `magic.h`: which variables a recipe may name, of which type each is, and how a
type is spelled in the answer to a setup request. Runs of registers that differ only in their
number are generated, in the order of the tables.
-/
namespace LibUrx.Rtde
open Text
set_option autoImplicit false

inductive PackageType where
  | requestProtocolVersion | getUrcontrolVersion | textMessage | dataPackage
  | setupOutputs | setupInputs | start | pause
  deriving DecidableEq, Repr

def PackageType.code : PackageType → UInt8
  | .requestProtocolVersion => 86
  | .getUrcontrolVersion => 118
  | .textMessage => 77
  | .dataPackage => 85
  | .setupOutputs => 79
  | .setupInputs => 73
  | .start => 83
  | .pause => 80

def supportedProtocolVersion : Nat := 2

inductive DataType where
  | bool | uint8 | uint32 | uint64 | int32 | double | vector3d | vector6d
  | vector6int32 | vector6uint32 | string | inUse | notFound
  deriving DecidableEq, Repr

/-- The chain of comparisons in `data_name_to_type`, each limited to `sz` characters, so that a
proper prefix of a name passes for the first name it begins. -/
def dataNameToType (name : List UInt8) (sz : Nat) : DataType :=
  if strncmpEq name (text "BOOL") sz then .bool
  else if strncmpEq name (text "UINT8") sz then .uint8
  else if strncmpEq name (text "UINT32") sz then .uint32
  else if strncmpEq name (text "UINT64") sz then .uint64
  else if strncmpEq name (text "INT32") sz then .int32
  else if strncmpEq name (text "DOUBLE") sz then .double
  else if strncmpEq name (text "VECTOR3D") sz then .vector3d
  else if strncmpEq name (text "VECTOR6D") sz then .vector6d
  else if strncmpEq name (text "VECTOR6INT32") sz then .vector6int32
  else if strncmpEq name (text "VECTOR6UINT32") sz then .vector6uint32
  else if strncmpEq name (text "STRING") sz then .string
  else if strncmpEq name (text "IN_USE") sz then .inUse
  else .notFound

def rtdeDatasize : DataType → Nat
  | .bool => 1
  | .uint8 => 1
  | .uint32 => 4
  | .uint64 => 8
  | .int32 => 4
  | .double => 8
  | .vector3d => 24
  | .vector6d => 48
  | .vector6int32 => 24
  | .vector6uint32 => 24
  | .string => 1
  | .inUse => 0
  | .notFound => 0

structure DataName where
  name : List UInt8
  type : DataType

def entry (name : String) (type : DataType) : DataName := ⟨text name, type⟩

def registers (stem : String) (type : DataType) : List DataName :=
  (List.range 48).map fun i => ⟨text stem ++ text (toString i), type⟩

def rtdeInputNames : List DataName :=
  [entry "speed_slider_mask" .uint32,
    entry "speed_slider_fraction" .double,
    entry "standard_digital_output_mask" .uint8,
    entry "standard_digital_output" .uint8,
    entry "configurable_digital_output_mask" .uint8,
    entry "configurable_digital_output" .uint8,
    entry "tool_digital_output_mask" .uint8,
    entry "tool_digital_output" .uint8,
    entry "standard_analog_output_mask" .uint8,
    entry "standard_analog_output_type" .uint8,
    entry "standard_analog_output_0" .double,
    entry "standard_analog_output_1" .double,
    entry "input_bit_registers0_to_31" .uint32,
    entry "input_bit_registers32_to_63" .uint32,
    entry "input_bit_register_X" .bool] ++
  registers "input_int_register_" .int32 ++
  registers "input_double_register_" .double

def rtdeOutputNames : List DataName :=
  [entry "timestamp" .double,
    entry "target_q" .vector6d,
    entry "target_qd" .vector6d,
    entry "target_qdd" .vector6d,
    entry "target_current" .vector6d,
    entry "target_moment" .vector6d,
    entry "actual_q" .vector6d,
    entry "actual_qd" .vector6d,
    entry "actual_current" .vector6d,
    entry "joint_control_output" .vector6d,
    entry "actual_TCP_pose" .vector6d,
    entry "actual_TCP_speed" .vector6d,
    entry "actual_TCP_force" .vector6d,
    entry "target_TCP_pose" .vector6d,
    entry "target_TCP_speed" .vector6d,
    entry "actual_digital_input_bits" .uint64,
    entry "joint_temperatures" .vector6d,
    entry "actual_execution_time" .double,
    entry "robot_mode" .int32,
    entry "joint_mode" .vector6int32,
    entry "safety_mode" .int32,
    entry "safety_status" .int32,
    entry "actual_tool_accelerometer" .vector3d,
    entry "speed_scaling" .double,
    entry "target_speed_fraction" .double,
    entry "actual_momentum" .double,
    entry "actual_main_voltage" .double,
    entry "actual_robot_voltage" .double,
    entry "actual_robot_current" .double,
    entry "actual_joint_voltage" .vector6d,
    entry "actual_digital_output_bits" .uint64,
    entry "runtime_state" .uint32,
    entry "elbow_position" .vector3d,
    entry "elbow_velocity" .vector3d,
    entry "robot_status_bits" .uint32,
    entry "safety_status_bits" .uint32,
    entry "analog_io_types" .uint32,
    entry "standard_analog_input0" .double,
    entry "standard_analog_input1" .double,
    entry "standard_analog_output0" .double,
    entry "standard_analog_output1" .double,
    entry "io_current" .double,
    entry "euromap67_input_bits" .uint32,
    entry "euromap67_output_bits" .uint32,
    entry "euromap67_24V_voltage" .double,
    entry "euromap67_24V_current" .double,
    entry "tool_mode" .uint32,
    entry "tool_analog_input_types" .uint32,
    entry "tool_analog_input0" .double,
    entry "tool_analog_input1" .double,
    entry "tool_output_voltage" .int32,
    entry "tool_output_current" .double,
    entry "tool_temperature" .double,
    entry "tcp_force_scalar" .double,
    entry "output_bit_registers0_to_31" .uint32,
    entry "output_bit_registers32_to_63" .uint32,
    entry "output_bit_register_X" .bool] ++
  registers "output_int_register_" .int32 ++
  registers "output_double_register_" .double ++
  [entry "input_bit_registers0_to_31" .uint32,
    entry "input_bit_registers32_to_63" .uint32,
    entry "input_bit_register_X" .bool] ++
  registers "input_int_register_" .int32 ++
  registers "input_double_register_" .double ++
  [entry "tool_output_mode" .uint8,
    entry "tool_digital_output0_mode" .uint8,
    entry "tool_digital_output1_mode" .uint8,
    entry "input_bit_registers0_to_31" .uint32,
    entry "input_bit_registers32_to_63" .uint32]

/-- The first entry whose name `strcmp` finds equal; `none` stands for the index -1. -/
def nameToIdx (names : List DataName) (name : List UInt8) : Option Nat :=
  names.findIdx? fun e => cStr name == e.name

def inputNameToIdx : List UInt8 → Option Nat := nameToIdx rtdeInputNames

def outputNameToIdx : List UInt8 → Option Nat := nameToIdx rtdeOutputNames

def typeAt (names : List DataName) (idx : Nat) : DataType := (names[idx]?.map DataName.type).getD .notFound

def inputTypes : List DataType := [.bool, .uint8, .uint32, .int32, .double]

def outputTypes : List DataType :=
  [.bool, .uint8, .uint32, .uint64, .int32, .double, .vector3d, .vector6d, .vector6int32]

theorem nameToIdx_typeAt {names : List DataName} {allowed : List DataType}
    (hNames : ∀ e ∈ names, e.type ∈ allowed) {name : List UInt8} {idx : Nat}
    (h : nameToIdx names name = some idx) : typeAt names idx ∈ allowed := by
  obtain ⟨hIdx, -, -⟩ := List.findIdx?_eq_some_iff_getElem.mp h
  rw [typeAt, List.getElem?_eq_getElem hIdx]
  exact hNames _ (List.getElem_mem hIdx)

set_option maxRecDepth 4096 in
theorem inputNameToIdx_typeAt {name : List UInt8} {idx : Nat} (h : inputNameToIdx name = some idx) :
    typeAt rtdeInputNames idx ∈ inputTypes := by
  have hNames : ∀ e ∈ rtdeInputNames, e.type ∈ inputTypes := by decide
  exact nameToIdx_typeAt hNames h

set_option maxRecDepth 4096 in
theorem outputNameToIdx_typeAt {name : List UInt8} {idx : Nat} (h : outputNameToIdx name = some idx) :
    typeAt rtdeOutputNames idx ∈ outputTypes := by
  have hNames : ∀ e ∈ rtdeOutputNames, e.type ∈ outputTypes := by decide
  exact nameToIdx_typeAt hNames h

theorem inputTypes_subset_outputTypes {type : DataType} (h : type ∈ inputTypes) : type ∈ outputTypes := by
  simp only [inputTypes, outputTypes, List.mem_cons, List.not_mem_nil, or_false] at *
  tauto

theorem rtdeDatasize_pos {type : DataType} (h : type ∈ outputTypes) : 0 < rtdeDatasize type := by
  simp only [outputTypes, List.mem_cons, List.not_mem_nil, or_false] at h
  rcases h with rfl | rfl | rfl | rfl | rfl | rfl | rfl | rfl | rfl <;> decide

theorem rtdeDatasize_lt (type : DataType) : rtdeDatasize type < 256 := by
  cases type <;> decide

end LibUrx.Rtde
