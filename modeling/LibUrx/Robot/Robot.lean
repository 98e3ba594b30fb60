import LibUrx.Robot.Members

/-! # The robot

A robot owns a handler and two recipes, number 0 for output and number 1 for input. Everything that the
source does under the lock is one step here. `none` stands for undefined behaviour of the handler.
-/
namespace LibUrx
open Bytes Text Rtde
set_option autoImplicit false

/-- Add fields until one is refused. -/
def addFields (r : RtdeRecipe) : List FieldOf → Bool × RtdeRecipe
  | [] => (true, r)
  | (name, storage) :: rest =>
    match r.addField name storage with
    | (false, r) => (false, r)
    | (true, r) => addFields r rest

/-- Add fields and look at no result. -/
def addFieldsAnyway (r : RtdeRecipe) : List FieldOf → RtdeRecipe
  | [] => r
  | (name, storage) :: rest => addFieldsAnyway (r.addField name storage).2 rest

/-- `localTsUs` is `none` as long as nothing was assigned to it. -/
structure RobotState where
  localTsUs : Option Int
  urTs : UInt64
  seqnr : Int32
  jqRef : List UInt64
  jq : List UInt64
  jqd : List UInt64
  jqdd : List UInt64
  jt : List UInt64
  tcpPose : List UInt64
  deriving DecidableEq

namespace RobotState

def init : RobotState where
  localTsUs := none
  urTs := 0
  seqnr := 0
  jqRef := List.replicate dof 0
  jq := List.replicate dof 0
  jqd := List.replicate dof 0
  jqdd := List.replicate dof 0
  jt := List.replicate dof 0
  tcpPose := List.replicate dof 0

/-- The copy constructor, which leaves out the local time. -/
def copy (a : RobotState) : RobotState := { a with localTsUs := none }

end RobotState

structure Robot where
  handler : World
  outInitialized : Bool
  inInitialized : Bool
  running : Bool
  updatedState : Bool
  qRefInitialized : Bool
  lastSeqnr : UInt32
  qRefOutSeqnr : UInt32
  urState : RobotState

namespace Robot

def mem (b : Robot) : Memory := b.handler.mem

def outRecipe (b : Robot) : RtdeRecipe := b.handler.recipes 0

def inRecipe (b : Robot) : RtdeRecipe := b.handler.recipes 1

def withMem (b : Robot) (m : Memory) : Robot := { b with handler := { b.handler with mem := m } }

/-- The constructor, on storage and a buffer with any content, and the handler's version request. -/
def init (storage buffer : Buf) (x : Exchange) : Robot where
  handler :=
    let mem := setWord (setWord ⟨storage, []⟩ Member.inSeqnr 1) Member.cmd Command.noCommand.code
    (((World.fresh mem buffer).setRecipe 1 RtdeRecipe.init.dirInput.2).setVersion x).2
  outInitialized := false
  inInitialized := false
  running := false
  updatedState := false
  qRefInitialized := false
  lastSeqnr := 0
  qRefOutSeqnr := 0
  urState := RobotState.init

/-- The two functions that set up the output differ in their fields. -/
def initOutputWith (fields : List FieldOf) (b : Robot) (connected : Bool) (g : Registration) :
    Option (Bool × Robot) :=
  if b.outInitialized then some (true, b)
  else if !connected then some (false, b)
  else if b.outRecipe.fields.length ≠ 0 then some (false, b)
  else
    match addFields b.outRecipe fields with
    | (false, r) => some (false, { b with handler := b.handler.setRecipe 0 r })
    | (true, r) =>
      match (b.handler.setRecipe 0 r).registerRecipe 0 g with
      | none => none
      | some (false, w) => some (false, { b with handler := w.setRecipe 0 (w.recipes 0).clearFields })
      | some (true, w) => some (true, { b with handler := w, outInitialized := true })

def initOutput : Robot → Bool → Registration → Option (Bool × Robot) := initOutputWith outputFields

def initOutputTcpPose : Robot → Bool → Registration → Option (Bool × Robot) := initOutputWith outputFieldsTcpPose

/-- The two functions that set up the input differ in their fields. -/
def initInputWith (fields : List FieldOf) (b : Robot) (g : Registration) : Option (Bool × Robot) :=
  match (b.handler.setRecipe 1 (addFieldsAnyway b.inRecipe fields)).registerRecipe 1 g with
  | none => none
  | some (false, w) => some (false, { b with handler := w })
  | some (true, w) => some (true, { b with handler := w, inInitialized := true })

def initInput : Robot → Registration → Option (Bool × Robot) := initInputWith inputFields

def initInputTcpPose : Robot → Registration → Option (Bool × Robot) := initInputWith inputFieldsTcpPose

/-- The next number and a command, in the members that the input recipe sends. -/
def number (b : Robot) (c : Command) : Robot :=
  { b.withMem (setWord (setWord b.mem Member.inSeqnr (b.lastSeqnr + 1)) Member.cmd c.code) with
    lastSeqnr := b.lastSeqnr + 1 }

def send (b : Robot) (sendCode : Int) : Bool × Robot :=
  let (ok, w) := b.handler.send b.inRecipe.recipeId sendCode
  (ok, { b with handler := w })

/-- A vector is copied to the members of a command, and the command is sent. -/
def sendVector (b : Robot) (a : Nat) (c : Command) (vs : List UInt64) (sendCode : Int) : Bool × Robot :=
  if vs.length ≠ dof then (false, b)
  else if !b.inInitialized then (false, b)
  else
    match ((b.withMem (setDoubles b.mem a vs)).number c).send sendCode with
    | (false, b) => (false, b)
    | (true, b) => (true, b.withMem (setWord b.mem Member.cmd Command.noCommand.code))

def updateW (b : Robot) (newW : List UInt64) (sendCode : Int) : Bool × Robot :=
  b.sendVector Member.setQd .newControlInputCommand newW sendCode

/-- The part of `calculate_q_ref` that runs under the lock; the waiting that follows is not in it. -/
def sendPose (b : Robot) (newPose : List UInt64) (sendCode : Int) : Bool × Robot :=
  b.sendVector Member.tcpPoseRef .newTcpPoseRefCommand newPose sendCode

def stop (b : Robot) (sendCode : Int) (x : Exchange) : Bool × Robot :=
  if !b.running then (false, b)
  else
    let b := ((b.number .stopCommand).send sendCode).2
    (true, { b with running := false, handler := (b.handler.stop x).2 })

/-- The answer to the start request is not looked at. What the call returns in the end says whether a state
arrives in time. -/
def start (b : Robot) (x : Exchange) : Robot :=
  if !b.outInitialized then b
  else { b with running := true, handler := (b.handler.start x).2 }

/-- The first half of `recv`: a frame is taken in, without the lock. -/
def takeFrame (b : Robot) (reply : Option (List UInt8)) (ts : UInt64) : Option (Bool × Robot) :=
  (b.handler.recv reply ts).map fun (ok, w) => (ok, { b with handler := w })

/-- The second half: the members are copied to the state, under the lock. -/
def publish (b : Robot) (now : Int) : Bool × Robot :=
  if !b.outInitialized then (false, b)
  else (true, { b with
    qRefOutSeqnr := getWord b.mem Member.qRefOutSeqnrBuf
    updatedState := true
    urState := {
      localTsUs := some now
      urTs := getDouble b.mem Member.timestamp
      seqnr := (getWord b.mem Member.outSeqnr).toInt32
      jqRef := getDoubles b.mem Member.qRefBuf
      jq := getDoubles b.mem Member.targetQ
      jqd := getDoubles b.mem Member.targetQd
      jqdd := getDoubles b.mem Member.targetQdd
      jt := getDoubles b.mem Member.targetMoment
      tcpPose := getDoubles b.mem Member.targetTcpPose } })

def recv (b : Robot) (reply : Option (List UInt8)) (ts : UInt64) (now : Int) : Option (Bool × Robot) :=
  (b.takeFrame reply ts).map fun (ok, b) => if ok then b.publish now else (false, b)

/-- A synchronous call returns when the state is new, or after its time with a state of its own. -/
def state (b : Robot) (synchronous : Bool) : RobotState × Robot :=
  if synchronous && !b.updatedState then (RobotState.init, b)
  else (b.urState.copy, { b with updatedState := false })

end Robot

/-- The tokens of fields that are added one after the other from offset `o` on. -/
def placed (dirOut : Bool) (o : Nat) : List FieldOf → List Token
  | [] => []
  | (name, storage) :: rest =>
    let type := (typeOfField dirOut name).getD .notFound
    { name, type, datasize := rtdeDatasize type, offset := o, kind := if dirOut then .output else .input, storage } ::
      placed dirOut (o + rtdeDatasize type) rest

def typesOf (dirOut : Bool) (fields : List FieldOf) : List DataType :=
  fields.map fun field => (typeOfField dirOut field.1).getD .notFound

def fieldBytes (dirOut : Bool) (fields : List FieldOf) : Nat :=
  (fields.map fun field => rtdeDatasize ((typeOfField dirOut field.1).getD .notFound)).sum

/-- Every field has a name of the direction's table and a storage. -/
def Known (dirOut : Bool) (fields : List FieldOf) : Prop :=
  ∀ field ∈ fields, (typeOfField dirOut field.1).isSome = true ∧ field.2 ≠ 0

instance (dirOut : Bool) (fields : List FieldOf) : Decidable (Known dirOut fields) :=
  inferInstanceAs (Decidable (∀ field ∈ fields, _))

theorem known_cons {dirOut : Bool} {field : FieldOf} {rest : List FieldOf} (h : Known dirOut (field :: rest)) :
    (∃ type, typeOfField dirOut field.1 = some type ∧ field.2 ≠ 0) ∧ Known dirOut rest := by
  obtain ⟨hType, hStorage⟩ := h field List.mem_cons_self
  exact ⟨⟨_, (Option.eq_some_of_isSome hType), hStorage⟩, List.forall_mem_of_forall_mem_cons h⟩

def Rtde.RtdeRecipe.extended (r : RtdeRecipe) (fields : List FieldOf) : RtdeRecipe :=
  { r with fields := r.fields ++ placed r.dirOut r.bytes fields, bytes := r.bytes + fieldBytes r.dirOut fields }

theorem extended_cons (r : RtdeRecipe) (field : FieldOf) (rest : List FieldOf) :
    (r.extended [field]).extended rest = r.extended (field :: rest) := by
  simp [RtdeRecipe.extended, placed, fieldBytes, Nat.add_assoc]

theorem addField_eq {r : RtdeRecipe} {field : FieldOf} {rest : List FieldOf} (h : Known r.dirOut (field :: rest)) :
    r.addField field.1 field.2 = (true, r.extended [field]) ∧ Known (r.extended [field]).dirOut rest := by
  obtain ⟨⟨type, hType, hStorage⟩, hRest⟩ := known_cons h
  obtain ⟨tok, hAdd, rfl⟩ := addField_of_type hType hStorage
  refine ⟨hAdd.trans ?_, hRest⟩
  simp [RtdeRecipe.extended, placed, fieldBytes, hType]

theorem addFields_eq {r : RtdeRecipe} {fields : List FieldOf} (h : Known r.dirOut fields) :
    addFields r fields = (true, r.extended fields) := by
  induction fields generalizing r with
  | nil => simp [addFields, RtdeRecipe.extended, placed, fieldBytes]
  | cons field rest ih =>
    obtain ⟨hAdd, hRest⟩ := addField_eq h
    rw [addFields, hAdd]
    exact (ih hRest).trans (congrArg _ (extended_cons r field rest))

theorem addFieldsAnyway_eq {r : RtdeRecipe} {fields : List FieldOf} (h : Known r.dirOut fields) :
    addFieldsAnyway r fields = r.extended fields := by
  induction fields generalizing r with
  | nil => simp [addFieldsAnyway, RtdeRecipe.extended, placed, fieldBytes]
  | cons field rest ih =>
    obtain ⟨hAdd, hRest⟩ := addField_eq h
    rw [addFieldsAnyway, hAdd]
    exact (ih hRest).trans (extended_cons r field rest)

theorem length_placed (dirOut : Bool) (o : Nat) (fields : List FieldOf) :
    (placed dirOut o fields).length = fields.length := by
  induction fields generalizing o with
  | nil => rfl
  | cons field rest ih => rw [placed, List.length_cons, ih, List.length_cons]

theorem types_placed (dirOut : Bool) (o : Nat) (fields : List FieldOf) :
    (placed dirOut o fields).map Token.type = typesOf dirOut fields := by
  induction fields generalizing o with
  | nil => rfl
  | cons field rest ih => rw [placed, List.map_cons, ih, typesOf, typesOf, List.map_cons]

set_option maxRecDepth 100000 in
theorem known_outputFieldsTcpPose : Known true outputFieldsTcpPose := by decide +kernel

set_option maxRecDepth 100000 in
theorem known_inputFieldsTcpPose : Known false inputFieldsTcpPose := by decide +kernel

theorem known_outputFields : Known true outputFields := fun field hMem =>
  known_outputFieldsTcpPose field (List.mem_append_left _ hMem)

theorem known_inputFields : Known false inputFields := fun field hMem =>
  known_inputFieldsTcpPose field (List.mem_append_left _ hMem)

end LibUrx
