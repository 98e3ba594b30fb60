import LibUrx.Robot.Packages
import LibUrx.Rtde.StalePackage

/-! # From a package to a snapshot

A package of the output with poses is decoded into the members, and the members are copied to the state. What
the state then says is what the package says, if all of the package has been read.
-/
namespace LibUrx
open Bytes Rtde
set_option autoImplicit false

def poseTypesOf : List DataType :=
  [.int32, .double] ++ List.replicate 5 .vector6d ++ [.int32] ++ List.replicate 6 .double

set_option maxRecDepth 100000 in
theorem types_outputFieldsTcpPose : typesOf true outputFieldsTcpPose = poseTypesOf := by decide +kernel

namespace RobotState

/-- What a package of the output with poses says about the robot, read front to back behind its head. -/
def ofPackage (package : List UInt8) : Option RobotState :=
  match decodeSeq poseTypesOf ((package.drop 4).take 304) with
  | some ([.int32 seqnr, .double urTs, .vector6d jq, .vector6d jqd, .vector6d jqdd, .vector6d jt, .vector6d tcpPose,
      .int32 _, .double q₀, .double q₁, .double q₂, .double q₃, .double q₄, .double q₅], _) =>
    some {
      localTsUs := none
      urTs := UInt64.ofNat urTs
      seqnr := Int32.ofInt seqnr
      jqRef := [q₀, q₁, q₂, q₃, q₄, q₅].map UInt64.ofNat
      jq := jq.map UInt64.ofNat
      jqd := jqd.map UInt64.ofNat
      jqdd := jqdd.map UInt64.ofNat
      jt := jt.map UInt64.ofNat
      tcpPose := tcpPose.map UInt64.ofNat }
  | _ => none

/-- The members as they are copied to the state, without a local time. -/
def held (m : Memory) : RobotState where
  localTsUs := none
  urTs := getDouble m Member.timestamp
  seqnr := (getWord m Member.outSeqnr).toInt32
  jqRef := getDoubles m Member.qRefBuf
  jq := getDoubles m Member.targetQ
  jqd := getDoubles m Member.targetQd
  jqdd := getDoubles m Member.targetQdd
  jt := getDoubles m Member.targetMoment
  tcpPose := getDoubles m Member.targetTcpPose

end RobotState

theorem publish_eq {b : Robot} (h : b.outInitialized = true) (now : Int) :
    b.publish now = (true, { b with
      qRefOutSeqnr := getWord b.mem Member.qRefOutSeqnrBuf
      updatedState := true
      urState := { RobotState.held b.mem with localTsUs := some now } }) := by
  simp [Robot.publish, h, RobotState.held]

theorem map_hostWords (m : Memory) (a : Nat) : (hostWords 8 dof (m.read a 48)).map UInt64.ofNat = getDoubles m a := by
  have hWords := hostWords_slice 8 m.byte dof a
  rw [show hostWords 8 dof (m.read a 48) = _ from hWords, List.map_map]
  rfl

theorem toInt32_getWord (m : Memory) (a : Nat) :
    (getWord m a).toInt32 = Int32.ofInt (signed32 (leNat (m.read a 4))) := by
  rw [getWord, UInt32.toInt32_ofNat', signed32]
  split
  · exact Int32.ofInt_eq_ofNat.symm
  · rw [Int32.ofInt_sub, Int32.ofInt_eq_ofNat]
    exact (Int32.sub_zero _).symm

set_option maxRecDepth 100000 in
theorem members_outputFieldsTcpPose :
    (placed true 0 outputFieldsTcpPose).map (fun tok => (tok.type, tok.storage, tok.numBytes)) =
      [(.int32, Member.outSeqnr, 4), (.double, Member.timestamp, 8), (.vector6d, Member.targetQ, 48),
        (.vector6d, Member.targetQd, 48), (.vector6d, Member.targetQdd, 48), (.vector6d, Member.targetMoment, 48),
        (.vector6d, Member.targetTcpPose, 48), (.int32, Member.qRefOutSeqnrBuf, 4)] ++
        (List.range dof).map fun i => (.double, Member.qRefBuf + 8 * i, 8) := by
  decide +kernel

set_option maxRecDepth 100000 in
theorem disjointTargets_outputFieldsTcpPose : (RtdeRecipe.init.extended outputFieldsTcpPose).DisjointTargets := by
  decide +kernel

set_option maxRecDepth 100000 in
theorem bytes_outputFieldsTcpPose : (RtdeRecipe.init.extended outputFieldsTcpPose).bytes = 304 := by decide +kernel

namespace RobotState

/-- Decoding a package into the members makes them say what the package says. -/
theorem ofPackage_of_parsed {r : RtdeRecipe} (h : (RtdeRecipe.init.extended outputFieldsTcpPose).Alike r)
    (hFormed : r.Formed) {load : Buf} {package : List UInt8}
    (hLoad : slice load 0 304 = (package.drop 4).take 304) (ts : UInt64) (m : Memory) :
    ofPackage package = some (held (r.parsedMemory load ts m)) := by
  have hFields : r.fields = placed true 0 outputFieldsTcpPose := h.fields
  have hLayout : r.Layout := RtdeRecipe.layout_congr h.bytes h.fields
    (RtdeRecipe.Layout.extended (RtdeRecipe.layout_of_nil rfl rfl) known_outputFieldsTcpPose)
  have hApart : r.DisjointTargets := by
    rw [RtdeRecipe.DisjointTargets, RtdeRecipe.targets, h.fields, h.tsNs]
    exact disjointTargets_outputFieldsTcpPose
  have hBytes : r.expectedBytes = 304 := h.bytes.trans bytes_outputFieldsTcpPose
  obtain ⟨vs, hDecode, hHost⟩ := RtdeRecipe.parsedMemory_fields hLayout hFormed hApart load ts m
  have hTypes : r.fields.map Token.type = poseTypesOf := by
    rw [hFields, types_placed, types_outputFieldsTcpPose]
  obtain ⟨mem, hMem⟩ : ∃ mem, r.parsedMemory load ts m = mem := ⟨_, rfl⟩
  rw [hTypes, hBytes, hLoad] at hDecode
  have hValues : (r.fields.map fun tok => (tok.type, tok.storage, tok.numBytes)).map
      (fun p => hostValue p.1 (mem.read p.2.1 p.2.2)) = vs.map some := by
    rw [List.map_map, ← hMem]
    exact hHost
  rw [hFields, members_outputFieldsTcpPose] at hValues
  have hDecoded : vs = [.int32 (signed32 (leNat (mem.read Member.outSeqnr 4))),
      .double (leNat (mem.read Member.timestamp 8)), .vector6d (hostWords 8 dof (mem.read Member.targetQ 48)),
      .vector6d (hostWords 8 dof (mem.read Member.targetQd 48)),
      .vector6d (hostWords 8 dof (mem.read Member.targetQdd 48)),
      .vector6d (hostWords 8 dof (mem.read Member.targetMoment 48)),
      .vector6d (hostWords 8 dof (mem.read Member.targetTcpPose 48)),
      .int32 (signed32 (leNat (mem.read Member.qRefOutSeqnrBuf 4)))] ++
        (List.range dof).map fun i => .double (leNat (mem.read (Member.qRefBuf + 8 * i) 8)) :=
    List.map_injective_iff.mpr (Option.some_injective _) hValues.symm
  subst hDecoded
  rw [hMem, ofPackage, hDecode]
  simp only [held, toInt32_getWord, ← map_hostWords]
  rfl

end RobotState

/-- A package of this size is taken for its own head only, never for one that was left in the buffer. -/
theorem accepts_of_read {r : RtdeRecipe} (hBytes : r.expectedBytes = 304) {rbuf : Buf} {bytes : List UInt8}
    (h : World.Accepts r (doRecv rbuf packetBytes (some bytes)).2) :
    World.Accepts r (ofBytes (bytes.take packetBytes)) := by
  have hKnown {i : Nat} (hLe : i ≤ (bytes.take packetBytes).length) (hLt : i < 4) :=
    doRecv_known rbuf hLe (show i < packetBytes by unfold packetBytes; omega)
  cases Nat.lt_or_ge (bytes.take packetBytes).length 2 with
  | inl hFew =>
    have hSize := h.size
    have hFirst := hKnown (Nat.zero_le _) (by decide)
    have hLow := ((doRecv rbuf packetBytes (some bytes)).2 1).toNat_lt
    cases Nat.eq_zero_or_pos (bytes.take packetBytes).length with
    | inl hNone =>
      rw [hFirst, ofBytes_of_le (by omega), UInt8.toNat_zero] at hSize
      omega
    | inr hOne =>
      rw [hKnown (i := 1) hOne (by decide), ofBytes_of_le (i := 1) (by omega), UInt8.toNat_zero] at hSize
      omega
  | inr hTwo =>
    obtain ⟨hType, hId⟩ := h.nonzero
    rcases ReplyOp.head_of_two_le bytes hTwo with hZero | hZero | ⟨-, hHead⟩
    · exact absurd (hZero rbuf) hType
    · exact absurd (hZero rbuf) hId
    · exact h.congr (hHead rbuf)

/-- What has been read of a package stands in the buffer, behind its head. -/
theorem slice_payload_read {rbuf : Buf} {bytes : List UInt8} (h : 308 ≤ (bytes.take packetBytes).length) :
    slice (payload (doRecv rbuf packetBytes (some bytes)).2) 0 304 =
      ((bytes.take packetBytes).drop 4).take 304 := by
  have hRead : slice (doRecv rbuf packetBytes (some bytes)).2 0 308 = slice (ofBytes (bytes.take packetBytes)) 0 308 :=
    slice_congr fun i _ hLt => doRecv_known rbuf (by omega) (by unfold packetBytes; omega)
  have hFront : (bytes.take packetBytes).take 308 = slice (ofBytes (bytes.take packetBytes)) 0 308 := by
    rw [← slice_take_drop _ 0 (bytes.take packetBytes).length 0 308 (by omega), ofBytes, slice_patch_self]
    rfl
  calc slice (payload (doRecv rbuf packetBytes (some bytes)).2) 0 304
      = slice (doRecv rbuf packetBytes (some bytes)).2 (0 + 4) 304 := slice_payload _ _
    _ = ((slice (doRecv rbuf packetBytes (some bytes)).2 0 308).drop 4).take 304 :=
        (slice_take_drop _ 0 308 4 304 (by decide)).symm
    _ = (((bytes.take packetBytes).take 308).drop 4).take 304 := by rw [hRead, hFront]
    _ = ((bytes.take packetBytes).drop 4).take 304 := by
        rw [List.drop_take, List.take_take]
        rfl

end LibUrx
