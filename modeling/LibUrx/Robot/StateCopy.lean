import LibUrx.Robot.Snapshot

/-! # Copies of a robot's state

A state is copied by its constructor or element by element. The constructor leaves one member out, and a
snapshot goes through both.
-/
namespace LibUrx
open Bytes Rtde Runs
set_option autoImplicit false

namespace RobotState

/-- The first `n` elements are assigned, one by one. An index behind one of the ends has no defined behaviour. -/
def copyElements (src : List UInt64) : Nat → List UInt64 → Option (List UInt64)
  | 0, dst => some dst
  | n + 1, dst => (copyElements src n dst).bind fun dst =>
    if n < dst.length then src[n]?.map (dst.set n) else none

/-- The assignment and `copy_from` name the same members. -/
def copyMembers (b a : RobotState) : Option RobotState := do
  let jqRef ← copyElements a.jqRef dof b.jqRef
  let jq ← copyElements a.jq dof b.jq
  let jqd ← copyElements a.jqd dof b.jqd
  let jqdd ← copyElements a.jqdd dof b.jqdd
  let jt ← copyElements a.jt dof b.jt
  let tcpPose ← copyElements a.tcpPose dof b.tcpPose
  return { localTsUs := a.localTsUs, urTs := a.urTs, seqnr := a.seqnr, jqRef, jq, jqd, jqdd, jt, tcpPose }

def assign : RobotState → RobotState → Option RobotState := copyMembers

def copyFrom : RobotState → RobotState → Option RobotState := copyMembers

def vectors (a : RobotState) : List (List UInt64) := [a.jqRef, a.jq, a.jqd, a.jqdd, a.jt, a.tcpPose]

/-- Equal in every data member. Where nothing was assigned to a member, there is no value to be equal to. -/
structure EqualTo (c a : RobotState) : Prop where
  members : c = a
  assigned : a.localTsUs ≠ none

/-- Each of the three ways gives a state that is equal to `a`. -/
structure Agree (a b : RobotState) : Prop where
  copy : a.copy.EqualTo a
  assign : ∃ c, b.assign a = some c ∧ c.EqualTo a
  copyFrom : ∃ c, b.copyFrom a = some c ∧ c.EqualTo a

/-- Both vectors have the elements that are copied, and the same ones behind them. -/
def Aligned (dst src : List UInt64) : Prop := dof ≤ dst.length ∧ dof ≤ src.length ∧ dst.drop dof = src.drop dof

theorem set_next {src dst : List UInt64} {n : Nat} {v : UInt64} (hDst : n < dst.length) (hSrc : src[n]? = some v) :
    (src.take n ++ dst.drop n).set n v = src.take (n + 1) ++ dst.drop (n + 1) := by
  obtain ⟨hLt, hGet⟩ := List.getElem?_eq_some_iff.mp hSrc
  have hLength : (src.take n).length = n := by rw [List.length_take, min_eq_left hLt.le]
  rw [List.set_append_right _ _ (by omega), hLength, Nat.sub_self, List.drop_eq_getElem_cons hDst, List.set_cons_zero,
    List.take_succ_eq_append_getElem hLt, hGet, List.append_assoc]
  rfl

theorem copyElements_eq_some {src dst out : List UInt64} {n : Nat} :
    copyElements src n dst = some out ↔ n ≤ dst.length ∧ n ≤ src.length ∧ out = src.take n ++ dst.drop n := by
  induction n generalizing out with
  | zero =>
    rw [copyElements, Option.some.injEq]
    simp [eq_comm]
  | succ n ih =>
    have hLength (hDst : n ≤ dst.length) (hSrc : n ≤ src.length) : (src.take n ++ dst.drop n).length = dst.length := by
      rw [List.length_append, List.length_take, List.length_drop]
      omega
    rw [copyElements, Option.bind_eq_some_iff]
    constructor
    · rintro ⟨mid, hMid, hSet⟩
      obtain ⟨hDst, hSrc, rfl⟩ := ih.mp hMid
      split at hSet
      · rename_i hInside
        rw [hLength hDst hSrc] at hInside
        obtain ⟨v, hGet, rfl⟩ := Option.map_eq_some_iff.mp hSet
        exact ⟨hInside, (List.getElem?_eq_some_iff.mp hGet).1, set_next hInside hGet⟩
      · cases hSet
    · rintro ⟨hDst, hSrc, rfl⟩
      refine ⟨_, ih.mpr ⟨Nat.le_of_succ_le hDst, Nat.le_of_succ_le hSrc, rfl⟩, ?_⟩
      have hGet : src[n]? = some src[n] := List.getElem?_eq_getElem hSrc
      rw [if_pos (by rw [hLength (by omega) (by omega)]; exact hDst), hGet, Option.map_some, set_next hDst hGet]

theorem copyElements_self_iff {src dst : List UInt64} : copyElements src dof dst = some src ↔ Aligned dst src := by
  rw [copyElements_eq_some]
  apply and_congr_right
  intro hDst
  apply and_congr_right
  intro hSrc
  constructor
  · intro hSame
    have hDrop := congrArg (List.drop dof) hSame
    rw [List.drop_left' (by rw [List.length_take, min_eq_left hSrc])] at hDrop
    exact hDrop.symm
  · intro hDrop
    rw [hDrop, List.take_append_drop]

theorem copyMembers_eq_some {a b c : RobotState} : copyMembers b a = some c ↔
    copyElements a.jqRef dof b.jqRef = some c.jqRef ∧ copyElements a.jq dof b.jq = some c.jq ∧
      copyElements a.jqd dof b.jqd = some c.jqd ∧ copyElements a.jqdd dof b.jqdd = some c.jqdd ∧
      copyElements a.jt dof b.jt = some c.jt ∧ copyElements a.tcpPose dof b.tcpPose = some c.tcpPose ∧
      c.localTsUs = a.localTsUs ∧ c.urTs = a.urTs ∧ c.seqnr = a.seqnr := by
  unfold copyMembers
  constructor
  · intro h
    obtain ⟨jqRef, hJqRef, h⟩ := Option.bind_eq_some_iff.mp h
    obtain ⟨jq, hJq, h⟩ := Option.bind_eq_some_iff.mp h
    obtain ⟨jqd, hJqd, h⟩ := Option.bind_eq_some_iff.mp h
    obtain ⟨jqdd, hJqdd, h⟩ := Option.bind_eq_some_iff.mp h
    obtain ⟨jt, hJt, h⟩ := Option.bind_eq_some_iff.mp h
    obtain ⟨tcpPose, hTcpPose, h⟩ := Option.bind_eq_some_iff.mp h
    obtain rfl := Option.some.inj h
    exact ⟨hJqRef, hJq, hJqd, hJqdd, hJt, hTcpPose, rfl, rfl, rfl⟩
  · rintro ⟨hJqRef, hJq, hJqd, hJqdd, hJt, hTcpPose, hTime, hTs, hSeqnr⟩
    rw [hJqRef, hJq, hJqd, hJqdd, hJt, hTcpPose, ← hTime, ← hTs, ← hSeqnr]
    rfl

theorem copyMembers_self_iff {a b : RobotState} :
    copyMembers b a = some a ↔ ∀ p ∈ b.vectors.zip a.vectors, Aligned p.1 p.2 := by
  rw [copyMembers_eq_some]
  simp [copyElements_self_iff, vectors]

theorem copyMembers_equal_iff {a b : RobotState} : (∃ c, copyMembers b a = some c ∧ c.EqualTo a) ↔
    a.localTsUs ≠ none ∧ ∀ p ∈ b.vectors.zip a.vectors, Aligned p.1 p.2 := by
  rw [← copyMembers_self_iff]
  constructor
  · rintro ⟨c, hCopy, rfl, hTime⟩
    exact ⟨hTime, hCopy⟩
  · rintro ⟨hTime, hCopy⟩
    exact ⟨a, hCopy, rfl, hTime⟩

theorem not_equalTo_copy (a : RobotState) : ¬ a.copy.EqualTo a := by
  rintro ⟨hSame, hTime⟩
  exact hTime (congrArg RobotState.localTsUs hSame).symm

end RobotState

namespace Robot

/-- The snapshot has the time that was recorded with the state. -/
def SnapshotHasTime (r : Robot) (synchronous : Bool) : Prop :=
  ∃ t, r.urState.localTsUs = some t ∧ (r.state synchronous).1.localTsUs = some t

theorem state_time (r : Robot) (synchronous : Bool) : (r.state synchronous).1.localTsUs = none := by
  unfold Robot.state
  split <;> rfl

end Robot

namespace System

/-- The state changes when a frame is published, and then it is what the members hold. -/
theorem urState_step {s t : System} {a : Action} (h : s.robot.Sound) (hStep : s.Step a t) :
    t.robot.urState = s.robot.urState ∨
      ∃ now, t.robot.urState = { RobotState.held s.robot.mem with localTsUs := some now } := by
  cases robotMoves_of_step hStep with
  | output known _ done =>
    rcases Robot.initOutputWith_cases known h.outDir done with ⟨hRobot, -⟩ |
      ⟨-, -, -, packet, r, -, ⟨-, buffer, hRobot⟩ | ⟨-, resp, -, -, hRobot⟩⟩
    · exact Or.inl (by rw [hRobot])
    · exact Or.inl (by rw [hRobot])
    · exact Or.inl (by rw [hRobot])
  | input known _ done =>
    obtain ⟨packet, r, -, ⟨-, buffer, hRobot⟩ | ⟨resp, filed, -, -, -, -, -, hRobot⟩⟩ :=
      Robot.initInputWith_cases known h.onlyInput h.inDir done
    · exact Or.inl (by rw [hRobot])
    · exact Or.inl (by rw [hRobot])
  | vector _ done =>
    rcases Robot.sendVector_cases done with ⟨hRobot, -⟩ | ⟨-, -, w, -, hRobot⟩
    · exact Or.inl (by rw [hRobot])
    · exact Or.inl (by rw [hRobot]; rfl)
  | wait _ done => exact Or.inl (by rw [done])
  | takeFrame done =>
    obtain ⟨buffer, mem, -, hRobot⟩ := Robot.takeFrame_eq_some done
    exact Or.inl (by rw [hRobot])
  | publish now done =>
    rw [done]
    cases hReady : s.robot.outInitialized with
    | false => exact Or.inl (by simp [Robot.publish, hReady])
    | true => exact Or.inr ⟨now, by rw [publish_eq hReady]⟩
  | state synchronous done =>
    rw [done, Robot.state]
    split <;> exact Or.inl rfl
  | start x done =>
    rw [done, Robot.start]
    split <;> exact Or.inl rfl
  | stop sendCode x done =>
    rw [done, Robot.stop]
    split <;> exact Or.inl rfl

/-- Every vector of the state has as many elements as there are joints. -/
def SixEach (a : RobotState) : Prop := ∀ v ∈ a.vectors, v.length = dof

theorem sixEach_run {storage buffer : Buf} {x : Exchange} {actions : List Action} {s : System}
    (hRun : Path Step (new storage buffer x) actions s) : SixEach s.robot.urState := by
  have hStep (s : System) (a : Action) (t : System) (h : s.robot.Sound ∧ SixEach s.robot.urState)
      (hStep : s.Step a t) : t.robot.Sound ∧ SixEach t.robot.urState := by
    refine ⟨sound_step h.1 hStep, ?_⟩
    cases urState_step h.1 hStep with
    | inl hSame => exact hSame ▸ h.2
    | inr hHeld =>
      obtain ⟨now, hHeld⟩ := hHeld
      rw [hHeld]
      simp [SixEach, RobotState.vectors, RobotState.held, getDoubles]
  have hNew : SixEach RobotState.init := by
    unfold SixEach
    decide
  have hStart : (new storage buffer x).robot.Sound ∧ SixEach (new storage buffer x).robot.urState :=
    ⟨Robot.sound_init storage buffer x, hNew⟩
  exact (hRun.invariant hStep hStart).2

/-- What `state` returns is what its two copies make of the state of the robot. -/
theorem state_eq_assigned {storage buffer : Buf} {x : Exchange} {actions : List Action} {s : System}
    (hRun : Path Step (new storage buffer x) actions s) {synchronous : Bool}
    (hTimely : synchronous = true → s.robot.updatedState = true) :
    RobotState.init.assign s.robot.urState.copy = some (s.robot.state synchronous).1 := by
  have hSix := sixEach_run hRun
  have hSnapshot : (s.robot.state synchronous).1 = s.robot.urState.copy := by
    rw [Robot.state, if_neg]
    rw [Bool.and_eq_true, Bool.not_eq_true']
    rintro ⟨hSync, hOld⟩
    rw [hTimely hSync] at hOld
    cases hOld
  rw [hSnapshot]
  refine RobotState.copyMembers_self_iff.mpr ?_
  simp only [SixEach, RobotState.vectors, List.forall_mem_cons] at hSix
  obtain ⟨hJqRef, hJq, hJqd, hJqdd, hJt, hTcpPose, -⟩ := hSix
  have hAligned {v : List UInt64} (hLength : v.length = dof) : RobotState.Aligned (List.replicate dof 0) v := by
    refine ⟨le_rfl, hLength.ge, ?_⟩
    rw [List.drop_of_length_le hLength.le]
    rfl
  simp only [RobotState.vectors, RobotState.init, RobotState.copy, List.zip_cons_cons, List.zip_nil_left,
    List.forall_mem_cons]
  exact ⟨hAligned hJqRef, hAligned hJq, hAligned hJqd, hAligned hJqdd, hAligned hJt, hAligned hTcpPose, by simp⟩

end System

namespace RobotState

/-- The constructor never copies the time, so the three ways never agree, and no snapshot has it. All else is
copied by the constructor, and the other two ways copy everything as far as the lengths allow. -/
theorem copies_disagree (a b : RobotState) (r : Robot) (synchronous : Bool) :
    ¬ Agree a b ∧ ¬ r.SnapshotHasTime synchronous ∧ { a.copy with localTsUs := a.localTsUs } = a ∧
      ((∃ c, b.assign a = some c ∧ c.EqualTo a) ↔
        a.localTsUs ≠ none ∧ ∀ p ∈ b.vectors.zip a.vectors, Aligned p.1 p.2) ∧
      ((∃ c, b.copyFrom a = some c ∧ c.EqualTo a) ↔
        a.localTsUs ≠ none ∧ ∀ p ∈ b.vectors.zip a.vectors, Aligned p.1 p.2) := by
  refine ⟨fun h => not_equalTo_copy a h.copy, ?_, rfl, copyMembers_equal_iff, copyMembers_equal_iff⟩
  rintro ⟨t, -, hTime⟩
  rw [r.state_time] at hTime
  cases hTime

/-- A state as a frame leaves it behind that was published at 11. -/
def published : RobotState := { RobotState.init with localTsUs := some 11 }

theorem constructor_leaves_time_out : ¬ ∀ a b : RobotState, Agree a b := by
  intro h
  exact not_equalTo_copy published (h published RobotState.init).copy

end RobotState

end LibUrx
