import LibUrx.Rtde.Settled
import LibUrx.Rtde.Spelling

/-! # What the check of a reply reads

The functions of the check are given here once more, on a block of memory that answers only for the bytes it has.
`none` stands for a read outside of the block.
-/
namespace LibUrx.Rtde
open Bytes Text
set_option autoImplicit false

structure Block where
  bytes : List UInt8
  size : bytes.length = packetBytes

/-- The two pointers of the scan, as offsets. -/
structure Cursor where
  start : Nat
  ptr : Nat

inductive Round where
  | next (c : Cursor)
  | done (ok : Bool)

/-- A difference of pointers as a `size_t`. -/
def sizeT (d : Int) : Nat := (d % 2 ^ 64).toNat

namespace Block

def read (b : Block) (i : Nat) : Option UInt8 := b.bytes[i]?

def hdrSize (b : Block) : Option Nat := do
  let first ← b.read 0
  let second ← b.read 1
  some (ntohs (leNat [first, second]))

def basicHdrValidate (b : Block) (t : PackageType) : Option Bool := do
  let sz ← b.hdrSize
  if sz < 3 ∨ sz > 2000 then some false
  else
    let type ← b.read 2
    some (type == t.code)

/-- `strncmp(name, literal, n) == 0`, where the name is read from the block as far as it is looked at. -/
def strncmpEq (b : Block) : Nat → List UInt8 → Nat → Option Bool
  | _, _, 0 => some true
  | name, literal, n + 1 => do
    let c ← b.read name
    if c ≠ literal.headD 0 then some false
    else if c = 0 then some true
    else b.strncmpEq (name + 1) literal.tail n

/-- The comparisons with the names of some types, one after the other. -/
def compareNames (b : Block) (name sz : Nat) : List DataType → Option DataType
  | [] => some .notFound
  | type :: rest => do
    let same ← b.strncmpEq name (typeName type) sz
    if same then some type else b.compareNames name sz rest

def dataNameToType (b : Block) (name sz : Nat) : Option DataType := b.compareNames name sz typeOrder

/-- The condition of the loop's body looks ahead only where there is no comma. -/
def itemEnds (b : Block) (ptr : Nat) : Option Bool :=
  (b.read ptr).bind fun here => if here == comma then some true else (b.read (ptr + 1)).map (· == 0)

def round (b : Block) (stop : Nat) (c : Cursor) : Option Round :=
  if c.ptr < stop then
    (b.itemEnds c.ptr).bind fun ends =>
      if ends then
        (b.dataNameToType c.start (sizeT ((c.ptr : Int) - c.start))).map fun type =>
          if type == .notFound || type == .inUse then .done false else .next ⟨c.ptr + 1, c.ptr + 2⟩
      else some (.next ⟨c.start, c.ptr + 1⟩)
  else some (.done true)

theorem round_next {b : Block} {stop : Nat} {c c' : Cursor} (h : b.round stop c = some (.next c')) :
    c.ptr < stop ∧ c.ptr < c'.ptr ∧ c'.ptr ≤ c.ptr + 2 ∧ (c.start ≤ c.ptr → c'.start ≤ c'.ptr) := by
  rw [round] at h
  split at h
  · rename_i hLt
    refine ⟨hLt, ?_⟩
    obtain ⟨ends, -, h⟩ := Option.bind_eq_some_iff.mp h
    cases ends with
    | false =>
      obtain rfl := Round.next.inj (Option.some.inj h)
      dsimp only
      omega
    | true =>
      obtain ⟨type, -, h⟩ := Option.map_eq_some_iff.mp h
      split at h
      · cases h
      · obtain rfl := Round.next.inj h
        dsimp only
        omega
  · cases h

/-- The loop. Each round moves the pointer towards the end. -/
def scan (b : Block) (stop : Nat) (c : Cursor) : Option Bool :=
  match h : b.round stop c with
  | none => none
  | some (.done ok) => some ok
  | some (.next c') =>
    have : stop - c'.ptr < stop - c.ptr := by have := round_next h; omega
    b.scan stop c'
termination_by stop - c.ptr

def respHdrValidate (b : Block) : Option Bool :=
  (b.basicHdrValidate .setupOutputs).bind fun out => if out then some true else b.basicHdrValidate .setupInputs

def rtdeControlPackageRespValidate (b : Block) : Option Bool :=
  b.respHdrValidate.bind fun valid =>
    if valid then b.hdrSize.bind fun size => b.scan (4 + size - 4) ⟨4, 4⟩ else some false

def buf (b : Block) : Buf := ofBytes b.bytes

/-- The scan stands at `c` before its round number `n`. -/
inductive Reached (b : Block) (stop : Nat) : Nat → Cursor → Prop where
  | first : Reached b stop 0 ⟨4, 4⟩
  | round {n : Nat} {c c' : Cursor} (before : Reached b stop n c) (step : b.round stop c = some (.next c')) :
      Reached b stop (n + 1) c'

/-- The token does not start behind the pointer, the round reads what is there, and not many rounds have gone by. -/
structure InBounds (b : Block) (stop n : Nat) (c : Cursor) : Prop where
  ordered : c.start ≤ c.ptr
  length : (sizeT ((c.ptr : Int) - c.start) : Int) = (c.ptr : Int) - c.start
  reads : (b.round stop c).isSome = true
  rounds : n ≤ stop

variable {b : Block} {stop : Nat} {c : Cursor}

theorem read_eq {i : Nat} (h : i < packetBytes) : b.read i = some (b.buf i) := by
  have hSize : i < b.bytes.length := b.size.symm ▸ h
  rw [read, buf, ofBytes_of_lt hSize, List.getElem?_eq_getElem hSize]

theorem hdrSize_eq (b : Block) : b.hdrSize = some (Rtde.hdrSize b.buf) := by
  rw [hdrSize, read_eq (by decide), read_eq (by decide)]
  rfl

theorem basicHdrValidate_eq (b : Block) (t : PackageType) :
    b.basicHdrValidate t = some (Rtde.basicHdrValidate b.buf t) := by
  rw [basicHdrValidate, hdrSize_eq, read_eq (by decide)]
  simp only [Option.bind_eq_bind, Option.bind_some, Rtde.basicHdrValidate, hdrType]
  split
  · rename_i hOut
    have hNot : ¬ (3 ≤ Rtde.hdrSize b.buf ∧ Rtde.hdrSize b.buf ≤ 2000) := by omega
    rw [← Bool.decide_and, decide_eq_false hNot, Bool.false_and]
  · rename_i hIn
    have hFits : 3 ≤ Rtde.hdrSize b.buf ∧ Rtde.hdrSize b.buf ≤ 2000 := by omega
    rw [← Bool.decide_and, decide_eq_true hFits, Bool.true_and]

/-- As long as the name ends in the block, comparing it reads inside of the block. -/
theorem strncmpEq_eq (literal : List UInt8) {name n : Nat} (h : name + n ≤ packetBytes) :
    b.strncmpEq name literal n = some (Text.strncmpEq (slice b.buf name n) literal n) := by
  induction n generalizing name literal with
  | zero => rfl
  | succ n ih =>
    have hSlice : slice b.buf name (n + 1) = b.buf name :: slice b.buf (name + 1) n := by
      rw [Nat.add_comm n 1, slice_add]
      rfl
    rw [strncmpEq, read_eq (by omega), hSlice, Text.strncmpEq, List.headD_cons, List.tail_cons]
    simp only [Option.bind_eq_bind, Option.bind_some, ih literal.tail (show name + 1 + n ≤ packetBytes by omega)]
    by_cases hSame : b.buf name = literal.headD 0
    · rw [if_neg (not_not.mpr hSame), beq_iff_eq.mpr hSame, Bool.true_and]
      by_cases hEnds : b.buf name = 0
      · rw [if_pos hEnds, beq_iff_eq.mpr hEnds, Bool.true_or]
      · rw [if_neg hEnds, beq_eq_false_iff_ne.mpr hEnds, Bool.false_or]
    · rw [if_pos hSame, beq_eq_false_iff_ne.mpr hSame, Bool.false_and]

/-- The comparisons agree with those on the bytes of the token alone. -/
theorem dataNameToType_eq {name sz : Nat} (h : name + sz ≤ packetBytes) :
    b.dataNameToType name sz = some (Rtde.dataNameToType (slice b.buf name sz) sz) := by
  have hNames (types : List DataType) : b.compareNames name sz types =
      some ((types.find? fun type => Text.strncmpEq (slice b.buf name sz) (typeName type) sz).getD .notFound) := by
    induction types with
    | nil => rfl
    | cons type rest ih =>
      rw [compareNames, strncmpEq_eq _ h, find?_cons_getD, ih]
      cases Text.strncmpEq (slice b.buf name sz) (typeName type) sz <;> rfl
  rw [dataNameToType, hNames]
  simp only [typeOrder, find?_cons_getD, List.find?_nil, Option.getD_none]
  rfl

theorem round_done (h : stop ≤ c.ptr) : b.round stop c = some (.done true) := by
  rw [round, if_neg (by omega)]

theorem itemEnds_eq {ptr : Nat} (h : ptr + 1 < packetBytes) :
    b.itemEnds ptr = some (b.buf ptr == comma || b.buf (ptr + 1) == 0) := by
  rw [itemEnds, read_eq (by omega), read_eq h, Option.bind_some]
  cases b.buf ptr == comma <;> rfl

theorem sizeT_eq (h : c.start ≤ c.ptr) (hPtr : c.ptr ≤ packetBytes) :
    sizeT ((c.ptr : Int) - c.start) = c.ptr - c.start := by
  have hPacket : packetBytes = 2048 := rfl
  rw [sizeT]
  omega

theorem round_skip (hLt : c.ptr < stop) (hStop : stop < packetBytes) (hHere : b.buf c.ptr ≠ comma)
    (hNext : b.buf (c.ptr + 1) ≠ 0) : b.round stop c = some (.next ⟨c.start, c.ptr + 1⟩) := by
  have hGoes : (b.buf c.ptr == comma || b.buf (c.ptr + 1) == 0) = false := by simp [hHere, hNext]
  rw [round, if_pos hLt, itemEnds_eq (by omega), hGoes]
  rfl

theorem round_item (hOrder : c.start ≤ c.ptr) (hLt : c.ptr < stop) (hStop : stop < packetBytes)
    (hEnds : b.buf c.ptr = comma ∨ b.buf (c.ptr + 1) = 0) : b.round stop c =
      some (if isTypeName (slice b.buf c.start (c.ptr - c.start)) then .next ⟨c.ptr + 1, c.ptr + 2⟩
        else .done false) := by
  have hGoes : (b.buf c.ptr == comma || b.buf (c.ptr + 1) == 0) = true := by simpa using hEnds
  rw [round, if_pos hLt, itemEnds_eq (by omega), hGoes, Option.bind_some, if_pos rfl, sizeT_eq hOrder (by omega),
    dataNameToType_eq (by omega), isTypeName, length_slice]
  cases Rtde.dataNameToType (slice b.buf c.start (c.ptr - c.start)) (c.ptr - c.start) <;> rfl

/-- What a round of the scan can do. -/
theorem round_cases (b : Block) (hStop : stop < packetBytes) (hOrder : c.start ≤ c.ptr) :
    (stop ≤ c.ptr ∧ b.round stop c = some (.done true)) ∨
      (c.ptr < stop ∧ b.buf c.ptr ≠ comma ∧ b.buf (c.ptr + 1) ≠ 0 ∧
        b.round stop c = some (.next ⟨c.start, c.ptr + 1⟩)) ∨
      (c.ptr < stop ∧ (b.buf c.ptr = comma ∨ b.buf (c.ptr + 1) = 0) ∧ b.round stop c =
        some (if isTypeName (slice b.buf c.start (c.ptr - c.start)) then .next ⟨c.ptr + 1, c.ptr + 2⟩
          else .done false)) := by
  cases Nat.lt_or_ge c.ptr stop with
  | inl hLt =>
    cases Classical.em (b.buf c.ptr = comma ∨ b.buf (c.ptr + 1) = 0) with
    | inl hEnds => exact .inr (.inr ⟨hLt, hEnds, round_item hOrder hLt hStop hEnds⟩)
    | inr hGoes =>
      obtain ⟨hHere, hNext⟩ := not_or.mp hGoes
      exact .inr (.inl ⟨hLt, hHere, hNext, round_skip hLt hStop hHere hNext⟩)
  | inr hDone => exact .inl ⟨hDone, round_done hDone⟩

theorem scan_of_done {ok : Bool} (h : b.round stop c = some (.done ok)) : b.scan stop c = some ok := by
  rw [scan]
  split <;> rename_i hRound <;> rw [h] at hRound <;> cases hRound
  rfl

theorem scan_of_next {c' : Cursor} (h : b.round stop c = some (.next c')) : b.scan stop c = b.scan stop c' := by
  rw [scan]
  split <;> rename_i hRound <;> rw [h] at hRound <;> cases hRound
  rfl

/-- Where the token does not start behind the pointer, the scan ends with its result. -/
theorem scan_eq (hStop : stop < packetBytes) {rounds : Nat} (hRounds : stop ≤ c.ptr + rounds)
    (hOrder : c.start ≤ c.ptr) : b.scan stop c = some (scanTypes b.buf stop rounds c.start c.ptr) := by
  induction rounds generalizing c with
  | zero =>
    rw [scan_of_done (round_done hRounds)]
    rfl
  | succ rounds ih =>
    rcases round_cases b hStop hOrder with
      ⟨hDone, hRound⟩ | ⟨hLt, hHere, hNext, hRound⟩ | ⟨hLt, hEnds, hRound⟩
    · rw [scan_of_done hRound, scanTypes_done hDone]
    · rw [scanTypes_skip hLt hHere hNext, scan_of_next hRound]
      apply ih <;> dsimp only <;> omega
    · rw [scanTypes_item hLt hEnds]
      cases hType : isTypeName (slice b.buf c.start (c.ptr - c.start)) with
      | true =>
        rw [hType, if_pos rfl] at hRound
        rw [scan_of_next hRound, Bool.true_and]
        apply ih <;> dsimp only <;> omega
      | false =>
        rw [hType] at hRound
        rw [scan_of_done hRound, Bool.false_and]

theorem round_isSome (hStop : stop < packetBytes) (hOrder : c.start ≤ c.ptr) : (b.round stop c).isSome = true := by
  rcases round_cases b hStop hOrder with ⟨-, hRound⟩ | ⟨-, -, -, hRound⟩ | ⟨-, -, hRound⟩
  all_goals
    rw [hRound]
    rfl

theorem Reached.moves {n : Nat} (hStop : 3 ≤ stop) (h : Reached b stop n c) :
    c.start ≤ c.ptr ∧ n + 4 ≤ c.ptr ∧ c.ptr ≤ stop + 1 := by
  induction h with
  | first =>
    dsimp only
    omega
  | round _ step ih =>
    have hNext := round_next step
    omega

theorem Reached.inBounds {n : Nat} (hStop : 3 ≤ stop) (hBlock : stop < packetBytes) (h : Reached b stop n c) :
    InBounds b stop n c := by
  obtain ⟨hOrder, hMoved, hEnd⟩ := h.moves hStop
  refine ⟨hOrder, ?_, round_isSome hBlock hOrder, by omega⟩
  rw [sizeT_eq hOrder (by omega)]
  omega

theorem respHdrValidate_eq (b : Block) : b.respHdrValidate =
    some (Rtde.basicHdrValidate b.buf .setupOutputs || Rtde.basicHdrValidate b.buf .setupInputs) := by
  rw [respHdrValidate, basicHdrValidate_eq, basicHdrValidate_eq, Option.bind_some]
  cases Rtde.basicHdrValidate b.buf .setupOutputs <;> rfl

/-- For every content of the block, the check ends with its result and has read inside of the block alone; in every
round the token starts no later than the pointer is. -/
theorem scan_safe (b : Block) :
    b.rtdeControlPackageRespValidate = some (Rtde.rtdeControlPackageRespValidate b.buf) ∧
      (HeadValid b.buf → ∀ n c, Reached b (4 + Rtde.hdrSize b.buf - 4) n c →
        InBounds b (4 + Rtde.hdrSize b.buf - 4) n c) := by
  have hSize (hHead : HeadValid b.buf) : 3 ≤ Rtde.hdrSize b.buf ∧ Rtde.hdrSize b.buf < packetBytes := by
    obtain ⟨hLo, hHi, -⟩ := (headValid_iff b.buf).mp hHead
    exact ⟨hLo, Nat.lt_of_le_of_lt hHi (by decide)⟩
  rw [Nat.add_sub_cancel_left]
  constructor
  · rw [rtdeControlPackageRespValidate, respHdrValidate_eq, hdrSize_eq, Rtde.rtdeControlPackageRespValidate]
    rw [Option.bind_some, Option.bind_some, Nat.add_sub_cancel_left]
    cases hValid : (Rtde.basicHdrValidate b.buf .setupOutputs || Rtde.basicHdrValidate b.buf .setupInputs) with
    | true => rw [if_pos rfl, scan_eq (hSize hValid).2 (Nat.le_add_left _ 4) le_rfl, Bool.true_and]
    | false => rw [if_neg Bool.false_ne_true, Bool.false_and]
  · intro hHead n c hReached
    exact hReached.inBounds (hSize hHead).1 (hSize hHead).2

end Block

end LibUrx.Rtde
