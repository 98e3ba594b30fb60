import LibUrx.Robot.InputSide
import Mathlib.Data.List.Nodup

/-! # Pose commands on the wire

A pose travels in fields that only one of the two set-ups of the input adds, while both of them raise the same
flag.
-/
namespace LibUrx
open Bytes Text Rtde Runs
set_option autoImplicit false

def setUpBytes (pose : Bool) : Nat := if pose then 104 else 56

theorem setUpEntries_subset (pose : Bool) : setUpEntries pose ⊆ setUpEntries true := by
  cases pose with
  | true => exact List.Subset.refl _
  | false =>
    rw [setUpEntries, setUpEntries, if_neg Bool.false_ne_true, List.append_nil]
    exact List.subset_append_left _ _

set_option maxRecDepth 100000 in
theorem nodup_names : ((setUpEntries true).map Prod.fst).Nodup := by decide +kernel

theorem entry_unique {e e' : Entry} (h : e ∈ setUpEntries true) (h' : e' ∈ setUpEntries true) (hName : e.1 = e'.1) :
    e = e' := List.inj_on_of_nodup_map nodup_names h h' hName

theorem sum_entries (pose : Bool) : ((setUpEntries pose).map fun e => e.2.2).sum = setUpBytes pose := by
  cases pose <;> rfl

theorem sum_setUps (setUps : List Bool) :
    ((setUps.flatMap setUpEntries).map fun e => e.2.2).sum = (setUps.map setUpBytes).sum := by
  induction setUps with
  | nil => rfl
  | cons pose rest ih =>
    rw [List.flatMap_cons, List.map_append, List.sum_append, sum_entries, ih, List.map_cons, List.sum_cons]

theorem totalBytes_eq (fields : List Token) :
    totalBytes fields = ((fields.map Token.entry).map fun e => e.2.2).sum := by
  induction fields with
  | nil => rfl
  | cons tok rest ih =>
    rw [totalBytes_cons, ih, List.map_cons, List.map_cons, List.sum_cons]
    rfl

namespace Rtde.RtdeRecipe

/-- The recipe has a field of this name, and the frame has these bytes there. -/
def Carries (r : RtdeRecipe) (frame name bytes : List UInt8) : Prop :=
  (∃ tok ∈ r.fields, tok.name = name) ∧
    ∀ tok ∈ r.fields, tok.name = name → (frame.drop (4 + tok.offset)).take tok.numBytes = bytes

theorem Combines.bytes {r : RtdeRecipe} {setUps : List Bool} (h : r.Combines setUps) :
    r.bytes = (setUps.map setUpBytes).sum := by
  have hTotal : r.bytes = totalBytes r.fields := h.layout.expected
  rw [hTotal, totalBytes_eq, h.entries, sum_setUps]

theorem field_of_frame {r : RtdeRecipe} (hLayout : r.Layout) (hFormed : r.Formed) (hDir : r.dirOut = false)
    (hSmall : 4 + r.bytes < 65536) (dp : Buf) (m : Memory) {tok : Token} (hMem : tok ∈ r.fields) :
    ((frameOf (r.store dp m).2).drop (4 + tok.offset)).take tok.numBytes =
      (m.read tok.storage tok.numBytes).reverse := by
  obtain ⟨before, after, hFields⟩ := List.append_of_mem hMem
  have hBefore : totalBytes before = (wireBytes m before).length := (length_wireBytes m before).symm
  have hSplit : wireBytes m r.fields =
      wireBytes m before ++ ((m.read tok.storage tok.numBytes).reverse ++ wireBytes m after) := by
    rw [hFields, wireBytes, List.flatMap_append, ← wireBytes, ← wireBytes, wireBytes_cons]
  rw [frameOf_store hLayout hFormed hDir hSmall, hLayout.offset before tok after hFields, ← List.drop_drop]
  change ((wireBytes m r.fields).drop (totalBytes before)).take tok.numBytes = _
  rw [hSplit, List.drop_left' hBefore.symm, List.take_left' (by simp)]

theorem Combines.carries {r : RtdeRecipe} {setUps : List Bool} (h : r.Combines setUps) (hSmall : 4 + r.bytes < 65536)
    {e : Entry} (hEntry : e ∈ setUps.flatMap setUpEntries) (dp : Buf) (m : Memory) :
    r.Carries (frameOf (r.store dp m).2) e.1 (m.read e.2.1 e.2.2).reverse := by
  have hKnown {e : Entry} (hMem : e ∈ setUps.flatMap setUpEntries) : e ∈ setUpEntries true := by
    obtain ⟨pose, -, hPose⟩ := List.mem_flatMap.mp hMem
    exact setUpEntries_subset pose hPose
  constructor
  · have hMem := h.entries ▸ hEntry
    obtain ⟨tok, hTok, rfl⟩ := List.mem_map.mp hMem
    exact ⟨tok, hTok, rfl⟩
  · intro tok hTok hName
    have hMem : tok.entry ∈ setUps.flatMap setUpEntries := h.entries ▸ List.mem_map_of_mem hTok
    obtain rfl := entry_unique (hKnown hMem) (hKnown hEntry) hName
    exact field_of_frame h.layout h.formed h.dirIn hSmall dp m hTok

end Rtde.RtdeRecipe

theorem read_setDoubles (m : Memory) (a : Nat) {vs : List UInt64} {i : Nat} {v : UInt64} (h : vs[i]? = some v) :
    (setDoubles m a vs).read (a + 8 * i) 8 = leBytes 8 v.toNat := by
  induction vs generalizing m a i with
  | nil => cases h
  | cons w rest ih =>
    cases i with
    | zero =>
      obtain rfl := Option.some.inj h
      have hRead := Memory.read_write_self m a (leBytes 8 w.toNat)
      rw [length_leBytes] at hRead
      change (setDoubles (m.write a (leBytes 8 w.toNat)) (a + 8) rest).read a 8 = _
      rw [read_setDoubles_of_le le_rfl, hRead]
    | succ i =>
      have hShift : a + 8 * (i + 1) = a + 8 + 8 * i := by omega
      rw [setDoubles, hShift]
      exact ih _ _ h

theorem Rtde.RtdeRecipe.Combines.leads {r : RtdeRecipe} {setUps : List Bool} (h : r.Combines setUps)
    (hSome : setUps ≠ []) (hSmall : 4 + r.bytes < 65536) : Robot.Leads r := by
  obtain ⟨pose, rest, rfl⟩ := List.exists_cons_of_ne_nil hSome
  obtain ⟨tok, tail, hFields, hEntry, -⟩ := List.map_eq_cons_iff.mp h.entries
  have hStorage : tok.storage = Member.inSeqnr := congrArg (fun e => e.2.1) hEntry
  have hBytes : tok.numBytes = 4 := congrArg (fun e => e.2.2) hEntry
  exact ⟨h.layout, ⟨tok, tail, hFields, hStorage, hBytes⟩, hSmall⟩

namespace Robot

/-- `k` commands have been handed over. The packages so far bear the numbers from 1 to `k`, and those of the
set-ups the number of the last command before them, or the 1 of the constructor. -/
structure Counted (b : Robot) (k : Nat) : Prop where
  last : b.lastSeqnr = UInt32.ofNat k
  word : getWord b.mem Member.inSeqnr = UInt32.ofNat (max 1 k)
  bounded : ∀ n ∈ b.seqnrs, ∃ i, 1 ≤ i ∧ i ≤ max 1 k ∧ n = UInt32.ofNat i
  complete : ∀ i, 1 ≤ i → i ≤ k → UInt32.ofNat i ∈ b.seqnrs
  first : b.inInitialized = true → 1 ∈ b.seqnrs

theorem counted_init (storage buffer : Buf) (x : Exchange) : (init storage buffer x).Counted 0 := by
  have hNone : (init storage buffer x).seqnrs = [] := by rw [seqnrs, packages_init, List.map_nil]
  refine ⟨rfl, ?_, ?_, fun i hPos hLe => absurd hLe (by omega), fun hIn => absurd hIn Bool.false_ne_true⟩
  · rw [mem_init, getWord_setWord_of_apart (by decide), getWord_setWord_self]
    rfl
  · rw [hNone]
    intro n hMem
    cases hMem

theorem Counted.of_same {b b' : Robot} {k : Nat} (h : b.Counted k) (hLast : b'.lastSeqnr = b.lastSeqnr)
    (hMem : b'.mem = b.mem) (hPackages : b'.packages = b.packages) (hIn : b'.inInitialized = b.inInitialized) :
    b'.Counted k := by
  have hSame : b'.seqnrs = b.seqnrs := by rw [seqnrs, hPackages, seqnrs]
  refine ⟨hLast.trans h.last, hMem ▸ h.word, hSame ▸ h.bounded, hSame ▸ h.complete, ?_⟩
  rw [hIn, hSame]
  exact h.first

/-- A set-up repeats the number that is there. -/
theorem Counted.repeated {b b' : Robot} {k : Nat} (h : b.Counted k) (hLast : b'.lastSeqnr = b.lastSeqnr)
    (hMem : b'.mem = b.mem) (hSeqnrs : b'.seqnrs = b.seqnrs ++ [getWord b.mem Member.inSeqnr]) : b'.Counted k := by
  rw [h.word] at hSeqnrs
  refine ⟨hLast.trans h.last, hMem ▸ h.word, ?_, ?_, fun _ => ?_⟩
  · rw [hSeqnrs]
    intro n hIn
    cases List.mem_append.mp hIn with
    | inl hOld => exact h.bounded n hOld
    | inr hNew => exact ⟨max 1 k, le_max_left _ _, le_rfl, List.mem_singleton.mp hNew⟩
  · rw [hSeqnrs]
    exact fun i hPos hLe => List.mem_append_left _ (h.complete i hPos hLe)
  · rw [hSeqnrs]
    cases Nat.eq_zero_or_pos k with
    | inl hZero =>
      subst hZero
      exact List.mem_append_right _ List.mem_cons_self
    | inr hPos => exact List.mem_append_left _ (h.complete 1 le_rfl hPos)

theorem Counted.sent {b b' : Robot} {k : Nat} (h : b.Counted k) (hLast : b'.lastSeqnr = b.lastSeqnr + 1)
    (hWord : getWord b'.mem Member.inSeqnr = b.lastSeqnr + 1) (hSeqnrs : b'.seqnrs = b.seqnrs ++ [b.lastSeqnr + 1]) :
    b'.Counted (k + 1) := by
  have hNext : b.lastSeqnr + 1 = UInt32.ofNat (k + 1) := by
    rw [h.last]
    exact (UInt32.ofNat_add k 1).symm
  have hMax : max 1 (k + 1) = k + 1 := max_eq_right (Nat.le_add_left 1 k)
  rw [hNext] at hLast hWord hSeqnrs
  refine ⟨hLast, hMax ▸ hWord, ?_, ?_, fun _ => ?_⟩
  · rw [hSeqnrs, hMax]
    intro n hIn
    cases List.mem_append.mp hIn with
    | inl hOld =>
      obtain ⟨i, hPos, hLe, hEq⟩ := h.bounded n hOld
      exact ⟨i, hPos, hLe.trans (max_le (Nat.le_add_left 1 k) (Nat.le_succ k)), hEq⟩
    | inr hNew => exact ⟨k + 1, Nat.le_add_left 1 k, le_rfl, List.mem_singleton.mp hNew⟩
  · rw [hSeqnrs]
    intro i hPos hLe
    cases Nat.lt_or_ge k i with
    | inl hLt =>
      obtain rfl : i = k + 1 := by omega
      exact List.mem_append_right _ List.mem_cons_self
    | inr hOld => exact List.mem_append_left _ (h.complete i hPos hOld)
  · rw [hSeqnrs]
    cases Nat.eq_zero_or_pos k with
    | inl hZero =>
      subst hZero
      exact List.mem_append_right _ List.mem_cons_self
    | inr hPos => exact List.mem_append_left _ (h.complete 1 le_rfl hPos)

/-- What a package has room for behind its head. -/
def FitsBlock (setUps : List Bool) : Prop := 4 + (setUps.map setUpBytes).sum ≤ packetBytes

instance (setUps : List Bool) : Decidable (FitsBlock setUps) := inferInstanceAs (Decidable (_ ≤ _))

theorem bytes_of_fitsBlock {r : RtdeRecipe} {setUps : List Bool} (h : r.Combines setUps) (hFits : FitsBlock setUps) :
    4 + r.bytes < 65536 := by
  have hBytes := h.bytes
  unfold FitsBlock packetBytes at hFits
  omega

theorem Counted.sendVector {b b' : Robot} {k : Nat} {setUps : List Bool} (h : b.Counted k)
    (hAssembled : b.Assembled setUps) (hFits : FitsBlock setUps) {a : Nat} {c : Command} {vs : List UInt64}
    {sendCode : Int} {ok : Bool} (hSend : b.sendVector a c vs sendCode = (ok, b')) :
    b'.Counted (k + if b.inInitialized && vs.length == dof then 1 else 0) := by
  cases hAssembled.sendVector_cases hSend with
  | inl hRefused =>
    obtain ⟨rfl, -, hWhy⟩ := hRefused
    rw [if_neg]
    · exact h
    · rw [Bool.and_eq_true, beq_iff_eq]
      rintro ⟨hIn, hLength⟩
      cases hWhy with
      | inl hNot => exact hNot hLength
      | inr hNot =>
        rw [hIn] at hNot
        cases hNot
  | inr hSent =>
    obtain ⟨hLength, hIn, -, rfl⟩ := hSent
    have hLeads := hAssembled.recipe.leads (hAssembled.begun hIn) (bytes_of_fitsBlock hAssembled.recipe hFits)
    have hWord : getWord (b.commanded a c vs).mem Member.inSeqnr = b.lastSeqnr + 1 := by
      change getWord (setWord (setWord _ Member.inSeqnr (b.lastSeqnr + 1)) Member.cmd _) Member.inSeqnr = _
      rw [getWord_setWord_of_apart (by decide), getWord_setWord_self]
    have hSeqnrs := seqnrs_sentBy (b := b.commanded a c vs) (hAssembled.formed 1) hAssembled.inDir hLeads
    rw [hWord] at hSeqnrs
    have hHands : (b.inInitialized && vs.length == dof) = true := by rw [hIn, hLength]; rfl
    rw [if_pos hHands]
    apply h.sent rfl
    · cases ok with
      | false => exact hWord
      | true =>
        change getWord (setWord (b.commanded a c vs).mem Member.cmd Command.noCommand.code) Member.inSeqnr = _
        rw [getWord_setWord_of_apart (by decide), hWord]
    · cases ok with
      | false | true => exact hSeqnrs

theorem Counted.initInputWith {b b' : Robot} {k : Nat} {setUps : List Bool} (h : b.Counted k)
    (hAssembled : b.Assembled setUps) {fields : List FieldOf} {ok pose : Bool} (hFits : FitsBlock (setUps ++ [pose]))
    {g : Registration} (hKnown : Known false fields)
    (hEntries : ∀ o, (placed false o fields).map Token.entry = setUpEntries pose)
    (hInit : Robot.initInputWith fields b g = some (ok, b')) : b'.Counted k := by
  obtain ⟨asking, hAsking, hAsked, hCases⟩ := hAssembled.asks_combined hKnown hEntries hInit
  cases hCases with
  | inl hRefused =>
    obtain ⟨-, -, rfl⟩ := hRefused
    exact h.of_same hAsking.lastSeqnr hAsking.mem hAsking.packages hAsking.inInitialized
  | inr hTaken =>
    obtain ⟨-, rfl⟩ := hTaken
    have hSmall := bytes_of_fitsBlock hAsked hFits
    have hBefore : asking.seqnrs = b.seqnrs := congrArg (List.map seqnrOf) hAsking.packages
    have hSent := seqnrs_sentBy hAsked.formed hAsked.dirIn (hAsked.leads (List.concat_ne_nil _ _) hSmall)
    rw [hBefore, hAsking.mem] at hSent
    exact h.repeated hAsking.lastSeqnr hAsking.mem hSent

end Robot

namespace System

/-- The calls that set up and command a robot, with the waiting that is part of one of them. -/
def setsUpOrCommands (a : Action) : Bool :=
  match a with
  | .initOutput _ _ | .initOutputTcpPose _ _ | .initInput _ | .initInputTcpPose _ | .updateW _ _
  | .calculateQRef _ _ => true
  | _ => isWait a

/-- The commands that a run hands over. -/
def handed (s : System) : List Action → Nat
  | [] => 0
  | a :: rest => (if s.robot.inInitialized && s.robot.handsOver a then 1 else 0) +
    match s.next a with
    | none => 0
    | some t => handed t rest

theorem handed_cons {s t : System} {a : Action} (hStep : s.Step a t) (rest : List Action) :
    s.handed (a :: rest) = (if s.robot.inInitialized && s.robot.handsOver a then 1 else 0) + t.handed rest := by
  have hSome : s.next a = some t := hStep
  rw [handed, hSome]

theorem fitsBlock_of_append {done later : List Bool} (h : Robot.FitsBlock (done ++ later)) : Robot.FitsBlock done := by
  unfold Robot.FitsBlock at h ⊢
  rw [List.map_append, List.sum_append] at h
  omega

theorem counted_step {s t : System} {a : Action} {k : Nat} {setUps : List Bool} (h : s.robot.Counted k)
    (hAssembled : s.robot.Assembled setUps) (hFits : Robot.FitsBlock (setUps ++ setUp a))
    (hOne : setsUpOrCommands a = true) (hStep : s.Step a t) :
    t.robot.Counted (k + if s.robot.inInitialized && s.robot.handsOver a then 1 else 0) := by
  have hQuiet (hHands : s.robot.handsOver a = false) (hNext : t.robot.Counted k) :
      t.robot.Counted (k + if s.robot.inInitialized && s.robot.handsOver a then 1 else 0) := by
    rw [hHands, Bool.and_false]
    exact hNext
  cases robotMoves_of_step hStep with
  | output known registers done =>
    have hSame := Robot.sameInput_initOutputWith hAssembled.toSound known done
    apply hQuiet (Robot.handsOver_of_registers (Or.inl registers))
    exact h.of_same hSame.lastSeqnr (Robot.mem_initOutputWith hAssembled.toSound known done) hSame.packages
      hSame.inInitialized
  | input _ registers =>
    obtain ⟨fields, pose, ok, g, hKnown, hEntries, hSetUp, hInit⟩ := initInput_of_step registers hStep
    rw [hSetUp] at hFits
    apply hQuiet (Robot.handsOver_of_registers (Or.inr registers))
    exact h.initInputWith hAssembled hFits hKnown hEntries hInit
  | vector sends done =>
    have hNext := h.sendVector hAssembled (fitsBlock_of_append hFits) done
    cases sends with
    | inl hAction | inr hAction =>
      rw [hAction]
      exact hNext
  | wait waits done =>
    apply hQuiet (Robot.handsOver_of_wait waits)
    exact h.of_same (by rw [done]) (by rw [done]; rfl) (by rw [done]; rfl) (by rw [done])
  | takeFrame | publish | state | start | stop => cases hOne

theorem counted_run {s t : System} {actions : List Action} {k : Nat} {done : List Bool} (h : s.robot.Counted k)
    (hAssembled : s.robot.Assembled done)
    (hRun : Path (Restrict (fun _ a => setsUpOrCommands a = true) Step) s actions t)
    (hFits : Robot.FitsBlock (done ++ setUps actions)) : t.robot.Counted (k + s.handed actions) := by
  induction hRun generalizing k done with
  | nil => exact h
  | @cons s u t a rest head _ ih =>
    rw [setUps, List.flatMap_cons, ← List.append_assoc] at hFits
    have hNext := counted_step h hAssembled (fitsBlock_of_append hFits) head.1 head.2
    have hEnd := ih hNext (assembled_step hAssembled head.2) hFits
    rw [handed_cons head.2, ← Nat.add_assoc]
    exact hEnd

end System

namespace Robot

/-- The package that takes a robot from `b` to `b'` is built in its block and has the command for a pose, a number
that no package before it had, and the pose. -/
structure PoseSent (b b' : Robot) (pose : List UInt64) : Prop where
  inside : 4 + b.inRecipe.expectedBytes ≤ packetBytes
  sent : ∃ frame, b'.packages = b.packages ++ [frame] ∧
    b.inRecipe.Carries frame (text "input_int_register_1") (beBytes 4 Command.newTcpPoseRefCommand.code.toNat) ∧
    (∃ n : UInt32, b.inRecipe.Carries frame (text "input_int_register_0") (beBytes 4 n.toNat) ∧ n ∉ b.seqnrs) ∧
    ∀ p ∈ poseRegisters.zip pose, b.inRecipe.Carries frame p.1 (beBytes 8 p.2.toNat)

theorem beBytes_inj {n n' : UInt32} (h : beBytes 4 n.toNat = beBytes 4 n'.toNat) : n = n' := by
  have hNat := congrArg leNat (List.reverse_injective h)
  rw [leNat_leBytes_of_lt n.toNat_lt, leNat_leBytes_of_lt n'.toNat_lt] at hNat
  exact UInt32.toNat_inj.mp hNat

/-- The memory that a pose command is sent from. -/
theorem read_commanded_pose (b : Robot) (pose : List UInt64) :
    (b.commanded Member.tcpPoseRef .newTcpPoseRefCommand pose).mem.read Member.inSeqnr 4 =
        leBytes 4 (b.lastSeqnr + 1).toNat ∧
      (b.commanded Member.tcpPoseRef .newTcpPoseRefCommand pose).mem.read Member.cmd 4 =
        leBytes 4 Command.newTcpPoseRefCommand.code.toNat ∧
      ∀ i v, pose[i]? = some v →
        (b.commanded Member.tcpPoseRef .newTcpPoseRefCommand pose).mem.read (Member.tcpPoseRef + 8 * i) 8 =
          leBytes 8 v.toNat := by
  have hMem : (b.commanded Member.tcpPoseRef .newTcpPoseRefCommand pose).mem =
      setWord (setWord (setDoubles b.mem Member.tcpPoseRef pose) Member.inSeqnr (b.lastSeqnr + 1)) Member.cmd
        Command.newTcpPoseRefCommand.code := rfl
  rw [hMem]
  refine ⟨?_, read_setWord_self _ _ _, fun i v hGet => ?_⟩
  · rw [read_setWord_of_apart (by decide), read_setWord_self]
  · rw [read_setWord_of_apart (Or.inl (by unfold Member.cmd Member.tcpPoseRef; omega)),
      read_setWord_of_apart (Or.inl (by unfold Member.inSeqnr Member.tcpPoseRef; omega)), read_setDoubles _ _ hGet]

theorem commandEntries_mem {setUps : List Bool} (hSome : setUps ≠ []) :
    (text "input_int_register_0", Member.inSeqnr, 4) ∈ setUps.flatMap setUpEntries ∧
      (text "input_int_register_1", Member.cmd, 4) ∈ setUps.flatMap setUpEntries := by
  obtain ⟨pose, rest, rfl⟩ := List.exists_cons_of_ne_nil hSome
  rw [List.flatMap_cons, setUpEntries]
  constructor
  · simp [commandEntries]
  · simp [commandEntries]

theorem poseEntries_mem {setUps : List Bool} (hPose : true ∈ setUps) {i : Nat} {name : List UInt8}
    (hName : poseRegisters[i]? = some name) : (name, Member.tcpPoseRef + 8 * i, 8) ∈ setUps.flatMap setUpEntries := by
  refine List.mem_flatMap.mpr ⟨true, hPose, List.mem_append_right _ ?_⟩
  rw [if_pos rfl]
  exact List.mem_map.mpr ⟨(name, i), List.mem_zipIdx_iff_getElem?.mpr hName, rfl⟩

set_option maxRecDepth 100000 in
theorem poseRegister_not_mem : text "input_double_register_8" ∉ (setUpEntries false).map Prod.fst := by decide +kernel

/-- Without a set-up with the pose there is no field for one. -/
theorem pose_of_field {r : RtdeRecipe} {setUps : List Bool} (h : r.Combines setUps) {tok : Token}
    (hMem : tok ∈ r.fields) (hName : tok.name = text "input_double_register_8") : true ∈ setUps := by
  have hEntry : tok.entry ∈ setUps.flatMap setUpEntries := h.entries ▸ List.mem_map_of_mem hMem
  obtain ⟨pose, hSetUp, hPose⟩ := List.mem_flatMap.mp hEntry
  cases pose with
  | true => exact hSetUp
  | false => exact absurd (List.mem_map.mpr ⟨tok.entry, hPose, hName⟩) poseRegister_not_mem

theorem Counted.fresh_iff {b : Robot} {k : Nat} (h : b.Counted k) (hIn : b.inInitialized = true) :
    b.lastSeqnr + 1 ∉ b.seqnrs ↔ 1 ≤ k ∧ k < 2 ^ 32 := by
  have hNext : b.lastSeqnr + 1 = UInt32.ofNat (k + 1) := by
    rw [h.last]
    exact (UInt32.ofNat_add k 1).symm
  have hSame {i j : Nat} : UInt32.ofNat i = UInt32.ofNat j ↔ i % 2 ^ 32 = j % 2 ^ 32 := by
    rw [← UInt32.toNat_inj, UInt32.toNat_ofNat', UInt32.toNat_ofNat']
  rw [hNext]
  constructor
  · intro hFresh
    constructor
    · apply Nat.pos_of_ne_zero
      rintro rfl
      exact hFresh (h.first hIn)
    · apply Nat.lt_of_not_le
      intro hLarge
      have hOld := h.complete (k + 1 - 2 ^ 32) (by omega) (by omega)
      rw [hSame.mpr (show (k + 1 - 2 ^ 32) % 2 ^ 32 = (k + 1) % 2 ^ 32 by omega)] at hOld
      exact hFresh hOld
  · rintro ⟨hPos, hSmall⟩ hOld
    obtain ⟨i, hLo, hHi, hEq⟩ := h.bounded _ hOld
    have hMod := hSame.mp hEq
    rw [max_eq_right hPos] at hHi
    omega

/-- An input recipe that fits its block puts one package on the wire, with every entry at its place. -/
theorem packages_of_fitsBlock {b : Robot} {setUps : List Bool} (h : b.inRecipe.Combines setUps)
    (hFits : FitsBlock setUps) : ∃ frame, ({ b with handler := b.handler.sentBy 1 } : Robot).packages =
      b.packages ++ [frame] ∧ ∀ e ∈ setUps.flatMap setUpEntries,
        b.inRecipe.Carries frame e.1 (b.mem.read e.2.1 e.2.2).reverse := by
  have hSmall := bytes_of_fitsBlock h hFits
  exact ⟨_, packages_sentBy h.dirIn hSmall, fun e hMem => h.carries hSmall hMem _ _⟩

/-- A pose command has gone out well if and only if the recipe has fields for a pose, the package fits, and the
number is new. -/
theorem Assembled.carried_iff {b b' : Robot} {setUps : List Bool} (h : b.Assembled setUps) {k : Nat}
    (hCounted : FitsBlock setUps → b.Counted k) {pose : List UInt64} (hLength : pose.length = dof) {sendCode : Int}
    (hSent : b.sendPose pose sendCode = (true, b')) :
    PoseSent b b' pose ↔ true ∈ setUps ∧ FitsBlock setUps ∧ 1 ≤ k ∧ k < 2 ^ 32 := by
  obtain ⟨-, hIn, -, rfl⟩ : pose.length = dof ∧ b.inInitialized = true ∧ _ := by
    cases h.sendVector_cases hSent with
    | inl hRefused => cases hRefused.2.1
    | inr hDone => exact hDone
  have hBytes : b.inRecipe.expectedBytes = (setUps.map setUpBytes).sum := h.recipe.bytes
  have hFits : 4 + b.inRecipe.expectedBytes ≤ packetBytes ↔ FitsBlock setUps := by rw [hBytes, FitsBlock]
  obtain ⟨hSeqnr, hCmd, hValues⟩ := b.read_commanded_pose pose
  have hHanded (hSmall : FitsBlock setUps) :=
    packages_of_fitsBlock (b := b.commanded Member.tcpPoseRef .newTcpPoseRefCommand pose) h.recipe hSmall
  obtain ⟨hFirst, hSecond⟩ := commandEntries_mem (h.begun hIn)
  constructor
  · rintro ⟨hInside, other, hOther, -, ⟨n, hNumber, hFresh⟩, hPose⟩
    have hSmall := hFits.mp hInside
    obtain ⟨frame, hPackages, hCarries⟩ := hHanded hSmall
    obtain rfl : other = frame := by
      have hSame := hOther.symm.trans hPackages
      exact List.singleton_inj.mp (List.append_cancel_left hSame)
    have hNext : n = b.lastSeqnr + 1 := by
      obtain ⟨⟨tok, hTok, hName⟩, hAll⟩ := hCarries _ hFirst
      have hBoth := (hNumber.2 tok hTok hName).symm.trans (hAll tok hTok hName)
      rw [hSeqnr] at hBoth
      exact beBytes_inj hBoth
    rw [hNext] at hFresh
    obtain ⟨v, rest, rfl⟩ := List.exists_cons_of_ne_nil (List.ne_nil_of_length_pos (by rw [hLength]; decide))
    obtain ⟨⟨tok, hTok, hName⟩, -⟩ := hPose (text "input_double_register_8", v) List.mem_cons_self
    exact ⟨pose_of_field h.recipe hTok hName, hSmall, ((hCounted hSmall).fresh_iff hIn).mp hFresh⟩
  · rintro ⟨hPose, hSmall, hRange⟩
    obtain ⟨frame, hPackages, hCarries⟩ := hHanded hSmall
    refine ⟨hFits.mpr hSmall, frame, hPackages, ?_, ⟨b.lastSeqnr + 1, ?_, ?_⟩, ?_⟩
    · have hField := hCarries _ hSecond
      rwa [hCmd] at hField
    · have hField := hCarries _ hFirst
      rwa [hSeqnr] at hField
    · exact ((hCounted hSmall).fresh_iff hIn).mpr hRange
    · rintro ⟨name, v⟩ hMem
      obtain ⟨i, hGet⟩ := List.mem_iff_getElem?.mp hMem
      obtain ⟨hName, hValue⟩ := List.getElem?_zip_eq_some.mp hGet
      have hField := hCarries _ (poseEntries_mem hPose hName)
      rwa [hValues i v hValue] at hField

end Robot

namespace System

/-- After any order of the six calls, a pose command that returns true has gone out with its pose and a new number
if and only if one of the set-ups was the one with the pose, all of them fit one package, and from one to
2^32 - 1 commands have gone before. -/
theorem pose_sent_iff {storage buffer : Buf} {x : Exchange} {actions : List Action} {s : System}
    (hRun : Path (Restrict (fun _ a => setsUpOrCommands a = true) Step) (new storage buffer x) actions s)
    {pose : List UInt64} {sendCode : Int} {b : Robot} (hLength : pose.length = dof)
    (hSent : s.robot.sendPose pose sendCode = (true, b)) :
    s.robot.PoseSent b pose ↔ true ∈ setUps actions ∧ Robot.FitsBlock (setUps actions) ∧
      1 ≤ (new storage buffer x).handed actions ∧ (new storage buffer x).handed actions < 2 ^ 32 := by
  refine (assembled_new hRun.of_restrict).carried_iff (fun hFits => ?_) hLength hSent
  have hCounted := counted_run (Robot.counted_init storage buffer x) (Robot.assembled_init storage buffer x) hRun hFits
  rwa [Nat.zero_add] at hCounted

def posesAnswered : Registration := answeredWith .setupInputs (typesOf false inputFieldsTcpPose)

set_option maxRecDepth 100000 in
theorem exists_initInputTcpPose :
    ∃ b, (Robot.init (fun _ => 0) (fun _ => 0) ⟨-1, none⟩).initInputTcpPose posesAnswered = some (true, b) := by
  have hInit : ((Robot.init (fun _ => 0) (fun _ => 0) ⟨-1, none⟩).initInputTcpPose posesAnswered).map Prod.fst = some true := by
    decide +kernel
  obtain ⟨⟨ok, b⟩, hSome, rfl⟩ := Option.map_eq_some_iff.mp hInit
  exact ⟨b, hSome⟩

/-- A robot whose input has been set up, after one speed command. -/
def afterSpeeds (b : Robot) : System :=
  { new (fun _ => 0) (fun _ => 0) ⟨-1, none⟩ with robot := (b.updateW [1, 2, 3, 4, 5, 6] 60).2 }

theorem sendPose_afterSpeeds {b : Robot} (h : b.Numbered 0) :
    ∃ b', (afterSpeeds b).robot.sendPose [1, 2, 3, 4, 5, 6] 108 = (true, b') := by
  have hNext := h.sendVector (Prod.eta (b.updateW [1, 2, 3, 4, 5, 6] 60)).symm
  have hLength : ([1, 2, 3, 4, 5, 6] : List UInt64).length = dof := rfl
  obtain ⟨mem, hSent⟩ := Robot.sendVector_filed hNext.onlyInput hNext.filed hNext.inInitialized hLength
    Member.tcpPoseRef .newTcpPoseRefCommand 108
  exact ⟨_, hSent⟩

theorem pose_sent_after_speeds : ∃ b s b', s = afterSpeeds b ∧
    Path (Restrict (fun _ a => setsUpOrCommands a = true) Step) (new (fun _ => 0) (fun _ => 0) ⟨-1, none⟩)
      [.initInputTcpPose posesAnswered, .updateW [1, 2, 3, 4, 5, 6] 60] s ∧
    s.robot.sendPose [1, 2, 3, 4, 5, 6] 108 = (true, b') ∧ s.robot.PoseSent b' [1, 2, 3, 4, 5, 6] := by
  obtain ⟨b, hInit⟩ := exists_initInputTcpPose
  have hNumbered := Robot.numbered_initInput (Or.inr hInit)
  obtain ⟨b', hSent⟩ := sendPose_afterSpeeds hNumbered
  have hFirst : Step (new (fun _ => 0) (fun _ => 0) ⟨-1, none⟩) (.initInputTcpPose posesAnswered)
      { new (fun _ => 0) (fun _ => 0) ⟨-1, none⟩ with robot := b } := by
    simp [Step, next, new, hInit]
  have hSecond : Step { new (fun _ => 0) (fun _ => 0) ⟨-1, none⟩ with robot := b } (.updateW [1, 2, 3, 4, 5, 6] 60)
      (afterSpeeds b) := rfl
  have hRun : Path (Restrict (fun _ a => setsUpOrCommands a = true) Step) (new (fun _ => 0) (fun _ => 0) ⟨-1, none⟩)
      [.initInputTcpPose posesAnswered, .updateW [1, 2, 3, 4, 5, 6] 60] (afterSpeeds b) :=
    .cons ⟨rfl, hFirst⟩ (.cons ⟨rfl, hSecond⟩ (.nil _))
  have hHanded : (new (fun _ => 0) (fun _ => 0) ⟨-1, none⟩).handed
      [.initInputTcpPose posesAnswered, .updateW [1, 2, 3, 4, 5, 6] 60] = 1 := by
    rw [handed_cons hFirst, handed_cons hSecond]
    change 0 + ((if b.inInitialized && true then 1 else 0) + 0) = 1
    rw [hNumbered.inInitialized]
    rfl
  refine ⟨b, _, b', rfl, hRun, hSent, (pose_sent_iff hRun rfl hSent).mpr ⟨List.mem_cons_self, ?_, ?_⟩⟩
  · change Robot.FitsBlock [true]
    decide
  · rw [hHanded]
    decide

/-- With the input set up without the pose, the command goes out and the pose does not. -/
theorem pose_is_left_out : ¬ ∀ (storage buffer : Buf) (x : Exchange) (actions : List Action) (s : System)
    (pose : List UInt64) (sendCode : Int) (b : Robot),
    Path (Restrict (fun _ a => setsUpOrCommands a = true) Step) (new storage buffer x) actions s → pose.length = dof →
      s.robot.sendPose pose sendCode = (true, b) → s.robot.PoseSent b pose := by
  intro h
  obtain ⟨b, hInit⟩ := Robot.exists_initInput
  have hNumbered := Robot.numbered_initInput (Or.inl hInit)
  obtain ⟨b', hSent⟩ := sendPose_afterSpeeds hNumbered
  have hFirst : Step (new (fun _ => 0) (fun _ => 0) ⟨-1, none⟩) (.initInput Robot.inputAnswered)
      { new (fun _ => 0) (fun _ => 0) ⟨-1, none⟩ with robot := b } := by
    simp [Step, next, new, hInit]
  have hSecond : Step { new (fun _ => 0) (fun _ => 0) ⟨-1, none⟩ with robot := b } (.updateW [1, 2, 3, 4, 5, 6] 60)
      (afterSpeeds b) := rfl
  have hRun : Path (Restrict (fun _ a => setsUpOrCommands a = true) Step) (new (fun _ => 0) (fun _ => 0) ⟨-1, none⟩)
      [.initInput Robot.inputAnswered, .updateW [1, 2, 3, 4, 5, 6] 60] (afterSpeeds b) :=
    .cons ⟨rfl, hFirst⟩ (.cons ⟨rfl, hSecond⟩ (.nil _))
  obtain ⟨-, frame, -, -, -, hPose⟩ := h _ _ _ _ _ _ _ _ hRun rfl hSent
  obtain ⟨⟨tok, hTok, hName⟩, -⟩ := hPose (text "input_double_register_8", 1) List.mem_cons_self
  have hSetUp := Robot.pose_of_field (assembled_new hRun.of_restrict).recipe hTok hName
  cases List.mem_singleton.mp hSetUp

end System

end LibUrx
