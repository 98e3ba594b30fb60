import LibUrx.Robot.Packages
import LibUrx.Rtde.Written

/-! # Members that nobody has written

The members without an initialiser are sent when the input is set up and copied when a frame is received.
-/
namespace LibUrx
open Bytes Text Rtde Runs
set_option autoImplicit false

namespace Rtde

theorem totalBytes_le {fields : List Token} (h : ∀ tok ∈ fields, tok.numBytes ≤ 8) :
    totalBytes fields ≤ 8 * fields.length := by
  induction fields with
  | nil => exact le_rfl
  | cons tok rest ih =>
    have hHead := h tok List.mem_cons_self
    have hRest := ih (List.forall_mem_of_forall_mem_cons h)
    rw [totalBytes_cons, List.length_cons]
    omega

theorem Token.WellTyped.numBytes_le {tok : Token} (h : tok.WellTyped) (hKind : tok.kind = .input) : tok.numBytes ≤ 8 := by
  have hMem := h.input hKind
  rw [h.numBytes_eq]
  simp only [inputTypes, List.mem_cons, List.not_mem_nil, or_false] at hMem
  rcases hMem with hType | hType | hType | hType | hType <;> rw [hType] <;> decide

theorem RtdeRecipe.small_of_accepted {r : RtdeRecipe} (hLayout : r.Layout) (hFormed : r.Formed) (hDir : r.dirOut = false)
    {resp : Buf} (hTaken : (r.registerResponse resp).1 = true) : 4 + r.bytes < 65536 := by
  obtain ⟨-, -, hLength, -⟩ := (r.registerResponse_true_iff resp).mp hTaken
  have hItems := length_getlinesFrom_le comma [] (respVariables resp)
  have hText : (respVariables resp).length ≤ packetBytes - 4 := by
    rw [respVariables, cStr]
    exact (List.takeWhile_prefix _).length_le.trans (length_slice _ _ _).le
  have hTotal := totalBytes_le fun tok hMem => (hFormed.wellTyped tok hMem).numBytes_le (by
    rw [hFormed.kind tok hMem, hDir]
    rfl)
  have hBytes : r.bytes = totalBytes r.fields := hLayout.expected
  unfold packetBytes at hText
  change (getlinesFrom comma [] (respVariables resp)).length = r.fields.length at hLength
  omega

end Rtde

theorem written_setWord (m : Memory) (a : Nat) (v : UInt32) (i : Nat) :
    (setWord m a v).written i = true ↔ (a ≤ i ∧ i < a + 4) ∨ m.written i = true := by
  rw [setWord, Memory.written_write, length_leBytes]

namespace Robot

def copied : List (Nat × Nat) :=
  [(Member.timestamp, 8), (Member.outSeqnr, 4), (Member.qRefOutSeqnrBuf, 4), (Member.qRefBuf, 48), (Member.targetQ, 48),
    (Member.targetQd, 48), (Member.targetQdd, 48), (Member.targetMoment, 48), (Member.targetTcpPose, 48)]

def CopiesWritten (b : Robot) : Prop := ∀ m ∈ copied, b.mem.allWritten m.1 m.2 = true

/-- Every value of a package of the input recipe has been written. -/
def InputWritten (b : Robot) : Prop := ∀ tok ∈ b.inRecipe.fields, b.mem.allWritten tok.storage tok.numBytes = true

instance (b : Robot) : Decidable b.InputWritten := inferInstanceAs (Decidable (∀ tok ∈ b.inRecipe.fields, _))

def Accepts (b : Robot) (fields : List FieldOf) (g : Registration) : Prop :=
  ∃ packet r resp, (b.inRecipe.extended fields).getMsg = some (packet, r) ∧
    b.handler.answer g.exchange = some resp ∧ (r.registerResponse resp).1 = true

end Robot

namespace System

def Received (s : System) : Prop := ∃ seqnr, Event.delivered seqnr ∈ s.history

/-- `recv` reads the members that it copies. `state` reads every field of what `loc_state` returns, unless it
times out; what it returns is looked at once something has been received. -/
def ReadsWritten (s : System) : Action → Prop
  | .publish now => (s.robot.publish now).1 = true → s.robot.CopiesWritten
  | .state synchronous =>
    (synchronous = true ∧ s.robot.updatedState = false ∧ ¬ s.Received) ∨ (s.robot.state synchronous).1.localTsUs ≠ none
  | _ => True

/-- A step that reads nothing unwritten. What is assigned between a package and the end of its step is at most
`cmd`, which has been written from the start. -/
def Clean (s : System) (a : Action) : Prop :=
  (∀ t, s.Step a t → t.robot.packages = s.robot.packages ∨ t.robot.InputWritten) ∧ s.ReadsWritten a

/-- No accepted registration of the input recipe, no publication of a frame without poses, no state once a frame
has been published, and none that does not wait. -/
def Harmless (s : System) : Action → Prop
  | .initInput g => ¬ s.robot.Accepts inputFields g
  | .initInputTcpPose g => ¬ s.robot.Accepts inputFieldsTcpPose g
  | .publish _ => s.robot.outInitialized = true → Member.qRefBuf ∈ s.robot.outRecipe.fields.map Token.storage
  | .state synchronous => synchronous = true ∧ ¬ s.Received
  | _ => True

def InRanges (ranges : List (Nat × Nat)) (i : Nat) : Prop := ∃ range ∈ ranges, range.1 ≤ i ∧ i < range.1 + range.2

instance (ranges : List (Nat × Nat)) (i : Nat) : Decidable (InRanges ranges i) :=
  inferInstanceAs (Decidable (∃ range ∈ ranges, _))

end System

namespace Robot

def outRanges (b : Robot) : List (Nat × Nat) := b.outRecipe.fields.map fun tok => (tok.storage, tok.numBytes)

def plainRanges : List (Nat × Nat) :=
  [(Member.outSeqnr, 4), (Member.timestamp, 8), (Member.targetQ, 48), (Member.targetQd, 48), (Member.targetQdd, 48),
    (Member.targetMoment, 48)]

def poseRanges : List (Nat × Nat) := plainRanges ++
  [(Member.targetTcpPose, 48), (Member.qRefOutSeqnrBuf, 4), (Member.qRefBuf, 8), (Member.qRefBuf + 8, 8),
    (Member.qRefBuf + 16, 8), (Member.qRefBuf + 24, 8), (Member.qRefBuf + 32, 8), (Member.qRefBuf + 40, 8)]

theorem ranges_placed (dirOut : Bool) (o : Nat) (fields : List FieldOf) :
    (placed dirOut o fields).map (fun tok => (tok.storage, tok.numBytes)) = fields.map fun field =>
      (field.2, rtdeDatasize ((typeOfField dirOut field.1).getD .notFound) % 256) := by
  induction fields generalizing o with
  | nil => rfl
  | cons field rest ih =>
    rw [placed, List.map_cons, ih, List.map_cons]
    rfl

set_option maxRecDepth 100000 in
theorem ranges_outputFields (o : Nat) :
    (placed true o outputFields).map (fun tok => (tok.storage, tok.numBytes)) = plainRanges := by
  rw [ranges_placed]
  decide +kernel

set_option maxRecDepth 100000 in
theorem ranges_outputFieldsTcpPose (o : Nat) :
    (placed true o outputFieldsTcpPose).map (fun tok => (tok.storage, tok.numBytes)) = poseRanges := by
  rw [ranges_placed]
  decide +kernel

set_option maxRecDepth 100000 in
theorem inRanges_of_copied : ∀ m ∈ copied, ∀ i ∈ List.range m.2, System.InRanges poseRanges (m.1 + i) := by
  decide +kernel

end Robot

namespace System

/-- A system that has read nothing unwritten so far. -/
structure Untouched (s : System) : Prop where
  sound : s.robot.Sound
  inInitialized : s.robot.inInitialized = false
  unfiled : s.robot.handler.recipesIn = []
  layout : s.robot.inRecipe.Layout
  tsNs : s.robot.outRecipe.tsNs = none
  ranges : s.robot.outInitialized = false ∧ s.robot.outRanges = [] ∨
    s.robot.outInitialized = true ∧ (s.robot.outRanges = Robot.plainRanges ∨ s.robot.outRanges = Robot.poseRanges)
  setQd : s.robot.mem.written Member.setQd = false
  qRefBuf : s.robot.outRanges = Robot.poseRanges ∨ s.robot.mem.written Member.qRefBuf = false
  frames : 0 < s.frames → s.robot.outInitialized = true ∧
    ∀ i, InRanges s.robot.outRanges i → s.robot.mem.written i = true
  received : s.robot.updatedState = true → s.Received

structure Keeps (m m' : Memory) : Prop where
  grows : ∀ i, m.written i = true → m'.written i = true
  setQd : m'.written Member.setQd = m.written Member.setQd
  qRefBuf : m'.written Member.qRefBuf = m.written Member.qRefBuf

theorem Keeps.refl (m : Memory) : Keeps m m := ⟨fun _ h => h, rfl, rfl⟩

theorem Keeps.setWord {m m' : Memory} (h : Keeps m m') {a : Nat} (hAway : Member.inSeqnr ≤ a) (hEnd : a + 4 ≤ Member.setQd)
    (v : UInt32) : Keeps m (setWord m' a v) := by
  have hOther {i : Nat} (hNot : ¬ (a ≤ i ∧ i < a + 4)) : (LibUrx.setWord m' a v).written i = m'.written i := by
    rw [Bool.eq_iff_iff, written_setWord, or_iff_right hNot]
  refine ⟨fun i hWritten => (written_setWord m' a v i).mpr (Or.inr (h.grows i hWritten)), ?_, ?_⟩
  · rw [hOther (by omega), h.setQd]
  · have hBefore : Member.qRefBuf < Member.inSeqnr := by decide
    rw [hOther (by omega), h.qRefBuf]

theorem Untouched.of_parts {s t : System} (h : s.Untouched) (hSound : t.robot.Sound)
    (hIn : t.robot.inInitialized = s.robot.inInitialized)
    (hFiled : t.robot.handler.recipesIn = s.robot.handler.recipesIn) (hLayout : t.robot.inRecipe.Layout)
    (hOut : t.robot.outRecipe = s.robot.outRecipe) (hInit : t.robot.outInitialized = s.robot.outInitialized)
    (hMem : Keeps s.robot.mem t.robot.mem) (hFrames : 0 < t.frames → 0 < s.frames)
    (hReceived : t.robot.updatedState = true → t.Received) : t.Untouched := by
  have hRanges : t.robot.outRanges = s.robot.outRanges := by rw [Robot.outRanges, hOut, Robot.outRanges]
  refine ⟨hSound, hIn.trans h.inInitialized, hFiled.trans h.unfiled, hLayout, hOut ▸ h.tsNs, ?_, hMem.setQd.trans h.setQd,
    ?_, fun hSome => ?_, hReceived⟩
  · rw [hInit, hRanges]
    exact h.ranges
  · rw [hRanges, hMem.qRefBuf]
    exact h.qRefBuf
  · obtain ⟨hReady, hWritten⟩ := h.frames (hFrames hSome)
    rw [hInit, hRanges]
    exact ⟨hReady, fun i hRange => hMem.grows i (hWritten i hRange)⟩

theorem Untouched.of_handler {s t : System} (h : s.Untouched) (hHandler : t.robot.handler = s.robot.handler)
    (hIn : t.robot.inInitialized = s.robot.inInitialized) (hInit : t.robot.outInitialized = s.robot.outInitialized)
    (hFrames : 0 < t.frames → 0 < s.frames) (hReceived : t.robot.updatedState = true → t.Received) : t.Untouched := by
  have hMem : t.robot.mem = s.robot.mem := congrArg World.mem hHandler
  have hRecipes (i : Nat) : t.robot.handler.recipes i = s.robot.handler.recipes i := by rw [hHandler]
  refine h.of_parts ?_ hIn (by rw [hHandler]) ?_ (hRecipes 0) hInit (hMem ▸ Keeps.refl _) hFrames hReceived
  · exact h.sound.of_parts (by rw [hHandler]) (by rw [hHandler]) (by rw [hHandler]) hInit
  · rw [Robot.inRecipe, hRecipes]
    exact h.layout

theorem untouched_new (storage buffer : Buf) (x : Exchange) : (new storage buffer x).Untouched := by
  have hOut : (new storage buffer x).robot.outRecipe = RtdeRecipe.init := Robot.outRecipe_init storage buffer x
  have hIn : (new storage buffer x).robot.inRecipe = RtdeRecipe.init.dirInput.2 := Robot.inRecipe_init storage buffer x
  have hMem : (new storage buffer x).robot.mem =
      setWord (setWord ⟨storage, []⟩ Member.inSeqnr 1) Member.cmd Command.noCommand.code := Robot.mem_init storage buffer x
  have hRanges : (new storage buffer x).robot.outRanges = [] := by rw [Robot.outRanges, hOut]; rfl
  have hKept : Keeps ⟨storage, []⟩ (new storage buffer x).robot.mem := by
    rw [hMem]
    exact ((Keeps.refl _).setWord (by decide) (by decide) _).setWord (by decide) (by decide) _
  refine ⟨Robot.sound_init storage buffer x, rfl, ?_, ?_, ?_, Or.inl ⟨rfl, hRanges⟩, hKept.setQd, Or.inr hKept.qRefBuf,
    fun hSome => absurd hSome (Nat.lt_irrefl 0), fun hNew => absurd hNew Bool.false_ne_true⟩
  · change (Robot.init storage buffer x).handler.recipesIn = []
    rw [Robot.handler_init]
    rfl
  · rw [hIn]
    exact RtdeRecipe.layout_of_nil rfl rfl
  · rw [hOut]
    rfl

theorem Untouched.initOutputWith {s : System} (h : s.Untouched) {fields : List FieldOf} {connected ok : Bool}
    {g : Registration} {b : Robot} (hKnown : Known true fields)
    (hRanges : ∀ o, (placed true o fields).map (fun tok => (tok.storage, tok.numBytes)) = Robot.plainRanges ∨
      (placed true o fields).map (fun tok => (tok.storage, tok.numBytes)) = Robot.poseRanges)
    (hInit : Robot.initOutputWith fields s.robot connected g = some (ok, b)) :
    b.packages = s.robot.packages ∧ Untouched { s with robot := b } := by
  have hSame := Robot.sameInput_initOutputWith h.sound hKnown hInit
  have hSound := h.sound.initOutputWith hKnown hInit
  refine ⟨hSame.packages, ?_⟩
  rcases Robot.initOutputWith_cases hKnown h.sound.outDir hInit with
    ⟨rfl, -⟩ | ⟨hNew, -, hFresh, packet, r, hMsg, hCases⟩
  · exact h
  · have hAlike := RtdeRecipe.alike_getMsg hMsg
    have hNoFrames : ¬ 0 < s.frames := fun hSome => by
      rw [(h.frames hSome).1] at hNew
      cases hNew
    have hWasEmpty : s.robot.outRanges = [] := by rw [Robot.outRanges, hFresh]; rfl
    have hUnwritten : s.robot.mem.written Member.qRefBuf = false :=
      h.qRefBuf.resolve_left (by rw [hWasEmpty]; decide)
    have hTs : r.tsNs = none := hAlike.tsNs.trans h.tsNs
    rcases hCases with ⟨-, buffer, rfl⟩ | ⟨-, resp, -, -, rfl⟩
    · have hRecipe := World.asked_self s.robot.handler 0 r.clearFields packet buffer
      refine ⟨hSound, h.inInitialized, h.unfiled, h.layout, (congrArg RtdeRecipe.tsNs hRecipe).trans hTs,
        Or.inl ⟨hNew, ?_⟩, h.setQd, Or.inr hUnwritten, fun hSome => absurd hSome hNoFrames, h.received⟩
      exact congrArg (fun r => r.fields.map fun tok => (tok.storage, tok.numBytes)) hRecipe
    · have hRecipe := World.asked_self s.robot.handler 0 (r.accepted resp) packet resp
      refine ⟨hSound, h.inInitialized, h.unfiled, h.layout, (congrArg RtdeRecipe.tsNs hRecipe).trans hTs,
        Or.inr ⟨rfl, ?_⟩, h.setQd, Or.inr hUnwritten, fun hSome => absurd hSome hNoFrames, h.received⟩
      have hFields : r.fields = placed true s.robot.outRecipe.bytes fields := by
        rw [hAlike.fields, RtdeRecipe.extended, hFresh, h.sound.outDir, List.nil_append]
      have hNow : Robot.outRanges { s.robot with
          handler := { s.robot.handler.asked 0 (r.accepted resp) packet resp with out := some 0 }
          outInitialized := true } =
          (placed true s.robot.outRecipe.bytes fields).map fun tok => (tok.storage, tok.numBytes) := by
        rw [← hFields]
        exact congrArg (fun r => r.fields.map fun tok => (tok.storage, tok.numBytes)) hRecipe
      change Robot.outRanges _ = _ ∨ Robot.outRanges _ = _
      rw [hNow]
      exact hRanges s.robot.outRecipe.bytes

/-- Setting up the input changes nothing that matters if the answer is refused. If it is accepted, the vector for
speeds goes out as it is. -/
theorem Untouched.initInputWith {s : System} (h : s.Untouched) {fields : List FieldOf} {ok : Bool} {g : Registration}
    {b : Robot} (hKnown : Known false fields)
    (hSpeeds : ∀ o, (Member.setQd, 8) ∈ (placed false o fields).map fun tok => (tok.storage, tok.numBytes))
    (hInit : Robot.initInputWith fields s.robot g = some (ok, b)) :
    ((b.packages = s.robot.packages ∨ b.InputWritten) ↔ ¬ s.robot.Accepts fields g) ∧
      (¬ s.robot.Accepts fields g → Untouched { s with robot := b }) := by
  have hSound := h.sound.initInputWith hKnown hInit
  cases Classical.em (s.robot.Accepts fields g) with
  | inl hAccepts =>
    refine ⟨iff_of_false ?_ (not_not.mpr hAccepts), fun hNot => absurd hAccepts hNot⟩
    obtain ⟨packet, r, resp, hMsg, hResp, hTaken⟩ := hAccepts
    obtain ⟨filed, -, -, hResult⟩ :=
      Robot.initInputWith_accepted hKnown h.sound.onlyInput h.sound.inDir hMsg hResp hTaken
    obtain ⟨-, rfl⟩ := Prod.mk.inj (Option.some.inj (hInit.symm.trans hResult))
    have hAlike := RtdeRecipe.alike_getMsg hMsg
    have hRequest := ((h.sound.asks 1).extended.getMsg hMsg).1
    have hDir : r.dirOut = false := hAlike.dirOut.trans h.sound.inDir
    have hLayout : r.Layout :=
      RtdeRecipe.layout_congr hAlike.bytes hAlike.fields (h.layout.extended (h.sound.inDir ▸ hKnown))
    have hFormed : r.Formed := hAlike.formed ((h.sound.formed 1).extended (h.sound.inDir ▸ hKnown))
    let asking : Robot := { s.robot with
      handler := { s.robot.handler.asked 1 (r.accepted resp) packet resp with recipesIn := filed } }
    have hRecipe : asking.inRecipe = r.accepted resp :=
      World.asked_self s.robot.handler 1 (r.accepted resp) packet resp
    rintro (hNothing | hWritten)
    · have hSmall := RtdeRecipe.small_of_accepted hLayout hFormed hDir hTaken
      have hSent := Robot.packages_sentBy (b := asking) (hRecipe ▸ hDir) (hRecipe ▸ hSmall)
      have hBefore : asking.packages = s.robot.packages :=
        s.robot.packages_asked 1 (r.accepted resp) resp hRequest
      rw [hBefore] at hSent
      have hLonger := congrArg List.length (hSent.symm.trans hNothing)
      simp at hLonger
    · obtain ⟨tok, hMem, hRange⟩ := List.mem_map.mp (hSpeeds s.robot.inRecipe.bytes)
      obtain ⟨hStorage, hBytes⟩ := Prod.mk.inj hRange
      have hField : tok ∈ asking.inRecipe.fields := by
        rw [hRecipe]
        change tok ∈ r.fields
        rw [hAlike.fields, RtdeRecipe.extended, h.sound.inDir]
        exact List.mem_append_right _ hMem
      have hAll : s.robot.mem.allWritten tok.storage tok.numBytes = true := hWritten tok hField
      rw [hStorage, hBytes, Memory.allWritten_iff] at hAll
      have hFirst := hAll Member.setQd le_rfl (by decide)
      rw [h.setQd] at hFirst
      cases hFirst
  | inr hRefuses =>
    obtain ⟨packet, r, hMsg, ⟨-, buffer, rfl⟩ | ⟨resp, -, hResp, hTaken, -⟩⟩ :=
      Robot.initInputWith_cases hKnown h.sound.onlyInput h.sound.inDir hInit
    · have hAlike := RtdeRecipe.alike_getMsg hMsg
      have hRequest := ((h.sound.asks 1).extended.getMsg hMsg).1
      have hRecipe := World.asked_self s.robot.handler 1 r packet buffer
      have hLayout : r.Layout :=
        RtdeRecipe.layout_congr hAlike.bytes hAlike.fields (h.layout.extended (h.sound.inDir ▸ hKnown))
      refine ⟨iff_of_true (Or.inl (s.robot.packages_asked 1 r buffer hRequest)) hRefuses, fun _ => ?_⟩
      exact h.of_parts hSound rfl rfl (hRecipe ▸ hLayout) rfl rfl (Keeps.refl _) id h.received
    · exact absurd ⟨packet, r, resp, hMsg, hResp, hTaken⟩ hRefuses

theorem inRanges_outRanges (b : Robot) (i : Nat) : InRanges b.outRanges i ↔ ∃ tok ∈ b.outRecipe.fields, tok.Covers i := by
  simp [InRanges, Robot.outRanges, Token.Covers]

theorem Untouched.takeFrame {s : System} (h : s.Untouched) {reply : Option (List UInt8)} {ts : UInt64} {ok : Bool}
    {b : Robot} (hTake : s.robot.takeFrame reply ts = some (ok, b)) (hSound : b.Sound) :
    b.packages = s.robot.packages ∧
      Untouched { s with robot := b, frames := if ok then s.frames + 1 else s.frames } := by
  obtain ⟨buffer, mem, hRecv, rfl⟩ := Robot.takeFrame_eq_some hTake
  refine ⟨rfl, ?_⟩
  have hOut (i : Nat) (hSource : s.robot.handler.out = some i) :
      i = 0 ∧ s.robot.outInitialized = true := by
    rw [h.sound.out] at hSource
    split at hSource
    · rename_i hReady
      exact ⟨(Option.some.inj hSource).symm, hReady⟩
    · cases hSource
  rcases World.recv_cases (fun i hSource => by
      obtain ⟨rfl, -⟩ := hOut i hSource
      exact ⟨h.sound.formed 0, h.sound.outDir⟩) hRecv with ⟨rfl, hMem⟩ | ⟨rfl, i, load, hSource, hMem⟩
  · have hSame : mem = s.robot.mem := hMem
    subst hSame
    exact h.of_parts hSound rfl rfl h.layout rfl rfl (Keeps.refl _) id h.received
  · obtain ⟨rfl, hReady⟩ := hOut i hSource
    have hWritten (i : Nat) : mem.written i = true ↔ InRanges s.robot.outRanges i ∨ s.robot.mem.written i = true := by
      have hCells := RtdeRecipe.written_parsedMemory (h.sound.formed 0) h.tsNs load ts s.robot.handler.mem i
      rw [← hMem] at hCells
      rw [inRanges_outRanges]
      exact hCells
    have hOutside {i : Nat} (hNot : ¬ InRanges s.robot.outRanges i) : mem.written i = s.robot.mem.written i := by
      rw [Bool.eq_iff_iff, hWritten, or_iff_right hNot]
    have hRanges : s.robot.outRanges = Robot.plainRanges ∨ s.robot.outRanges = Robot.poseRanges := by
      rcases h.ranges with ⟨hNot, -⟩ | ⟨-, hRanges⟩
      · rw [hReady] at hNot
        cases hNot
      · exact hRanges
    refine ⟨hSound, h.inInitialized, h.unfiled, h.layout, h.tsNs, h.ranges, ?_, ?_, fun _ => ⟨hReady, ?_⟩, h.received⟩
    · change mem.written Member.setQd = false
      rw [hOutside, h.setQd]
      cases hRanges with
      | inl hPlain =>
        rw [hPlain]
        decide
      | inr hPose =>
        rw [hPose]
        decide
    · change s.robot.outRanges = _ ∨ mem.written Member.qRefBuf = false
      cases hRanges with
      | inl hPlain =>
        apply Or.inr
        rw [hOutside (by rw [hPlain]; decide)]
        exact h.qRefBuf.resolve_left (by rw [hPlain]; decide)
      | inr hPose => exact Or.inl hPose
    · exact fun i hRange => (hWritten i).mpr (Or.inl hRange)

/-- What is copied from a frame has been written exactly if the output was set up with poses. -/
theorem Untouched.copies_iff {s : System} (h : s.Untouched) (hFrame : 0 < s.frames) :
    s.robot.CopiesWritten ↔ Member.qRefBuf ∈ s.robot.outRecipe.fields.map Token.storage := by
  obtain ⟨hReady, hWritten⟩ := h.frames hFrame
  have hStorages : s.robot.outRecipe.fields.map Token.storage = s.robot.outRanges.map Prod.fst := by
    rw [Robot.outRanges, List.map_map]
    rfl
  have hRanges : s.robot.outRanges = Robot.plainRanges ∨ s.robot.outRanges = Robot.poseRanges := by
    rcases h.ranges with ⟨hNot, -⟩ | ⟨-, hRanges⟩
    · rw [hReady] at hNot
      cases hNot
    · exact hRanges
  rw [hStorages]
  cases hRanges with
  | inl hPlain =>
    rw [hPlain]
    refine iff_of_false (fun hCopies => ?_) (by decide)
    have hAll := hCopies (Member.qRefBuf, 48) (by decide)
    rw [Memory.allWritten_iff] at hAll
    have hFirst := hAll Member.qRefBuf le_rfl (by decide)
    rw [h.qRefBuf.resolve_left (by rw [hPlain]; decide)] at hFirst
    cases hFirst
  | inr hPose =>
    rw [hPose] at hWritten ⊢
    refine iff_of_true (fun m hMem => ?_) (by decide)
    rw [Memory.allWritten_iff]
    intro i hLo hHi
    have hRange := Robot.inRanges_of_copied m hMem (i - m.1) (List.mem_range.mpr (by omega))
    rw [Nat.add_sub_cancel' hLo] at hRange
    exact hWritten i hRange

set_option maxRecDepth 100000 in
theorem speeds_inputFields (o : Nat) :
    (Member.setQd, 8) ∈ (placed false o inputFields).map fun tok => (tok.storage, tok.numBytes) := by
  rw [Robot.ranges_placed]
  decide +kernel

theorem speeds_inputFieldsTcpPose (o : Nat) :
    (Member.setQd, 8) ∈ (placed false o inputFieldsTcpPose).map fun tok => (tok.storage, tok.numBytes) := by
  have hPlain := speeds_inputFields o
  rw [Robot.ranges_placed] at hPlain ⊢
  rw [inputFieldsTcpPose, List.map_append]
  exact List.mem_append_left _ hPlain

theorem clean_iff {s t : System} {a : Action} (hStep : s.Step a t) :
    s.Clean a ↔ (t.robot.packages = s.robot.packages ∨ t.robot.InputWritten) ∧ s.ReadsWritten a :=
  and_congr_left fun _ => forall_next_iff hStep

theorem keeps_number (b : Robot) (c : Command) : Keeps b.mem (b.number c).mem :=
  ((Keeps.refl _).setWord (by decide) (by decide) _).setWord (by decide) (by decide) _

theorem Untouched.stop {s : System} (h : s.Untouched) (sendCode : Int) (x : Exchange) :
    (s.robot.stop sendCode x).2.packages = s.robot.packages ∧
      Untouched { s with robot := (s.robot.stop sendCode x).2 } := by
  have hSound := h.sound.stop sendCode x
  unfold Robot.stop at hSound ⊢
  split
  · exact ⟨rfl, h⟩
  · rename_i hRunning
    have hSent : ((s.robot.number .stopCommand).send sendCode).2 = s.robot.number .stopCommand := by
      have hHandler := World.send_of_empty (w := (s.robot.number .stopCommand).handler) h.unfiled
        (s.robot.number .stopCommand).inRecipe.recipeId sendCode
      rw [Robot.send, hHandler]
    rw [if_neg hRunning, hSent] at hSound
    dsimp only at hSound ⊢
    rw [hSent]
    have hSame := Robot.sameInput_handlerStop (s.robot.number .stopCommand) x
    refine ⟨hSame.packages, h.of_parts hSound rfl ?_ ?_ ?_ rfl ?_ id h.received⟩
    · exact hSame.filed
    · exact RtdeRecipe.layout_congr hSame.recipe.bytes hSame.recipe.fields h.layout
    · change ((s.robot.number .stopCommand).handler.stop x).2.recipes 0 = _
      rw [World.stop_world]
      rfl
    · change Keeps _ ((s.robot.number .stopCommand).handler.stop x).2.mem
      rw [World.stop_world]
      exact keeps_number s.robot .stopCommand

theorem Untouched.sendVector {s : System} (h : s.Untouched) {a : Nat} {c : Command} {vs : List UInt64} {sendCode : Int}
    {ok : Bool} {b : Robot} (hSend : s.robot.sendVector a c vs sendCode = (ok, b)) : ok = false ∧ b = s.robot := by
  rcases Robot.sendVector_cases hSend with ⟨rfl, rfl, -⟩ | ⟨-, hIn, -⟩
  · exact ⟨rfl, rfl⟩
  · rw [h.inInitialized] at hIn
    cases hIn

theorem Untouched.publish {s t : System} (h : s.Untouched) {now : Int} (hStep : s.Step (.publish now) t) :
    (s.Clean (.publish now) ↔ s.Harmless (.publish now)) ∧ t.Untouched := by
  have hStep' := hStep
  simp only [Step, next] at hStep'
  split at hStep'
  · cases hStep'
  · rename_i hSome
    obtain rfl := Option.some.inj hStep'
    cases hReady : s.robot.outInitialized with
    | false =>
      have hNone : s.robot.publish now = (false, s.robot) := by simp [Robot.publish, hReady]
      rw [clean_iff hStep]
      simp only [hNone, ReadsWritten, Harmless, hReady, Bool.false_eq_true, if_false, false_implies, true_or, and_self,
        true_and]
      exact h.of_handler rfl rfl rfl (fun _ => Nat.pos_of_ne_zero hSome) h.received
    | true =>
      have hOk : (s.robot.publish now).1 = true := by simp [Robot.publish, hReady]
      have hHandler : (s.robot.publish now).2.handler = s.robot.handler := by simp [Robot.publish, hReady]
      have hPackages : (s.robot.publish now).2.packages = s.robot.packages := by
        rw [Robot.packages, hHandler, Robot.packages]
      have hReads : s.ReadsWritten (.publish now) ↔ s.robot.CopiesWritten := forall_prop_of_true hOk
      have hPoses : s.Harmless (.publish now) ↔ Member.qRefBuf ∈ s.robot.outRecipe.fields.map Token.storage :=
        forall_prop_of_true hReady
      refine ⟨?_, h.of_handler hHandler ?_ ?_ (fun _ => Nat.pos_of_ne_zero hSome) fun _ => ?_⟩
      · rw [clean_iff hStep, hReads, hPoses, h.copies_iff (Nat.pos_of_ne_zero hSome)]
        exact and_iff_right (Or.inl hPackages)
      · simp [Robot.publish, hReady]
      · simp [Robot.publish, hReady]
      · simp only [hOk, if_true]
        exact ⟨_, List.mem_append_right _ List.mem_cons_self⟩

theorem Untouched.state {s t : System} (h : s.Untouched) {synchronous : Bool} (hStep : s.Step (.state synchronous) t) :
    (s.Clean (.state synchronous) ↔ s.Harmless (.state synchronous)) ∧ t.Untouched := by
  have hNone : (s.robot.state synchronous).1.localTsUs = none := by
    unfold Robot.state
    split <;> rfl
  obtain ⟨hHandler, hIn, hInit, hLess⟩ : (s.robot.state synchronous).2.handler = s.robot.handler ∧
      (s.robot.state synchronous).2.inInitialized = s.robot.inInitialized ∧
      (s.robot.state synchronous).2.outInitialized = s.robot.outInitialized ∧
      ((s.robot.state synchronous).2.updatedState = true → s.robot.updatedState = true) := by
    unfold Robot.state
    split <;> simp
  have hPackages : (s.robot.state synchronous).2.packages = s.robot.packages := by
    rw [Robot.packages, hHandler, Robot.packages]
  have hUpdated (hNot : ¬ s.Received) : s.robot.updatedState = false :=
    Bool.eq_false_iff.mpr fun hNew => hNot (h.received hNew)
  obtain rfl := Option.some.inj hStep
  refine ⟨?_, h.of_handler hHandler hIn hInit id fun hNew => h.received (hLess hNew)⟩
  rw [clean_iff hStep, and_iff_right (Or.inl hPackages)]
  constructor
  · rintro (⟨hSync, -, hNot⟩ | hDefined)
    · exact ⟨hSync, hNot⟩
    · exact absurd hNone hDefined
  · rintro ⟨hSync, hNot⟩
    exact Or.inl ⟨hSync, hUpdated hNot, hNot⟩

theorem Untouched.start {s : System} (h : s.Untouched) (x : Exchange) :
    Untouched { s with robot := s.robot.start x } := by
  have hSame := Robot.sameInput_start s.robot x
  have hSound := h.sound.start x
  refine h.of_parts hSound hSame.inInitialized hSame.filed ?_ ?_ ?_ ?_ id ?_
  · exact RtdeRecipe.layout_congr hSame.recipe.bytes hSame.recipe.fields h.layout
  · unfold Robot.start
    split
    · rfl
    · rw [World.start_world]
      rfl
  · unfold Robot.start
    split <;> rfl
  · unfold Robot.start
    split
    · exact Keeps.refl _
    · rw [World.start_world]
      exact Keeps.refl _
  · unfold Robot.start
    split <;> exact h.received

theorem Untouched.step {s t : System} {a : Action} (h : s.Untouched) (hStep : s.Step a t) :
    (s.Clean a ↔ s.Harmless a) ∧ (s.Harmless a → t.Untouched) := by
  have hSound := sound_step h.sound hStep
  have hQuiet (hPackages : t.robot.packages = s.robot.packages) (hReads : s.ReadsWritten a) (hHarmless : s.Harmless a)
      (hNext : t.Untouched) : (s.Clean a ↔ s.Harmless a) ∧ (s.Harmless a → t.Untouched) :=
    ⟨iff_of_true ((clean_iff hStep).mpr ⟨Or.inl hPackages, hReads⟩) hHarmless, fun _ => hNext⟩
  have hWaits (hWait : isWait a = true) (hReads : s.ReadsWritten a) (hHarmless : s.Harmless a) :
      (s.Clean a ↔ s.Harmless a) ∧ (s.Harmless a → t.Untouched) := by
    obtain ⟨flag, hRobot, hFrames, hHistory⟩ := robot_of_wait hWait hStep
    have hSame : t.robot.updatedState = true → t.Received := by
      rw [hRobot, Received, hHistory]
      exact h.received
    apply hQuiet (by rw [hRobot]; rfl) hReads hHarmless
    exact h.of_handler (by rw [hRobot]) (by rw [hRobot]) (by rw [hRobot]) (by rw [hFrames]; exact id) hSame
  have hStep' := hStep
  unfold Step at hStep'
  cases a with
  | initOutput connected g =>
    obtain ⟨⟨ok, b⟩, hInit, rfl⟩ := Option.map_eq_some_iff.mp hStep'
    obtain ⟨hPackages, hNext⟩ :=
      h.initOutputWith known_outputFields (fun o => Or.inl (Robot.ranges_outputFields o)) hInit
    exact hQuiet hPackages trivial trivial hNext
  | initOutputTcpPose connected g =>
    obtain ⟨⟨ok, b⟩, hInit, rfl⟩ := Option.map_eq_some_iff.mp hStep'
    obtain ⟨hPackages, hNext⟩ :=
      h.initOutputWith known_outputFieldsTcpPose (fun o => Or.inr (Robot.ranges_outputFieldsTcpPose o)) hInit
    exact hQuiet hPackages trivial trivial hNext
  | initInput g =>
    obtain ⟨⟨ok, b⟩, hInit, rfl⟩ := Option.map_eq_some_iff.mp hStep'
    obtain ⟨hIff, hNext⟩ := h.initInputWith known_inputFields speeds_inputFields hInit
    exact ⟨(clean_iff hStep).trans ((and_iff_left trivial).trans hIff), hNext⟩
  | initInputTcpPose g =>
    obtain ⟨⟨ok, b⟩, hInit, rfl⟩ := Option.map_eq_some_iff.mp hStep'
    obtain ⟨hIff, hNext⟩ := h.initInputWith known_inputFieldsTcpPose speeds_inputFieldsTcpPose hInit
    exact ⟨(clean_iff hStep).trans ((and_iff_left trivial).trans hIff), hNext⟩
  | updateW newW sendCode =>
    obtain rfl := Option.some.inj hStep'
    obtain ⟨-, hRobot⟩ := h.sendVector (Prod.eta (s.robot.updateW newW sendCode)).symm
    have hSame : { s with robot := (s.robot.updateW newW sendCode).2 } = s := by rw [hRobot]
    rw [hSame] at hQuiet
    rw [hSame]
    exact hQuiet rfl trivial trivial h
  | calculateQRef newPose sendCode =>
    simp only [next] at hStep'
    split at hStep'
    · rename_i hSend
      obtain rfl := Option.some.inj hStep'
      obtain ⟨-, rfl⟩ := h.sendVector hSend
      exact hQuiet rfl trivial trivial h
    · rename_i hSend
      obtain ⟨hOk, -⟩ := h.sendVector hSend
      cases hOk
  | look k | matched k | expired k | raise k => exact hWaits rfl trivial trivial
  | takeFrame reply ts =>
    obtain ⟨⟨ok, b⟩, hTake, rfl⟩ := Option.map_eq_some_iff.mp hStep'
    obtain ⟨hPackages, hNext⟩ := h.takeFrame hTake hSound
    exact hQuiet hPackages trivial trivial hNext
  | publish now => exact ⟨(h.publish hStep).1, fun _ => (h.publish hStep).2⟩
  | state synchronous => exact ⟨(h.state hStep).1, fun _ => (h.state hStep).2⟩
  | start x =>
    obtain rfl := Option.some.inj hStep'
    exact hQuiet (Robot.sameInput_start s.robot x).packages trivial trivial (h.start x)
  | stop sendCode x =>
    obtain rfl := Option.some.inj hStep'
    obtain ⟨hPackages, hNext⟩ := h.stop sendCode x
    exact hQuiet hPackages trivial trivial hNext

end System

end LibUrx
