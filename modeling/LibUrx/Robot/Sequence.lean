import LibUrx.Robot.Packages

/-! # The sequence numbers of commands

The number of the package that a registration sends and the numbers of commands come from two counters.
-/
namespace LibUrx
open Bytes Rtde Runs
set_option autoImplicit false

/-- What a script acts on that polls after each package and passes over the number it saw last. -/
def polled (oldSeqnr : UInt32) : List UInt32 → List UInt32
  | [] => []
  | seqnr :: rest => if seqnr = oldSeqnr then polled oldSeqnr rest else seqnr :: polled seqnr rest

namespace Robot

def seqnrs (b : Robot) : List UInt32 := b.packages.map seqnrOf

/-- The input recipe starts with the sequence number. -/
structure Leads (r : RtdeRecipe) : Prop where
  layout : r.Layout
  first : ∃ tok rest, r.fields = tok :: rest ∧ tok.storage = Member.inSeqnr ∧ tok.numBytes = 4
  small : 4 + r.bytes < 65536

theorem Leads.alike {r r' : RtdeRecipe} (h : Leads r) (hAlike : r.Alike r') : Leads r' where
  layout := RtdeRecipe.layout_congr hAlike.bytes hAlike.fields h.layout
  first := hAlike.fields ▸ h.first
  small := hAlike.bytes ▸ h.small

/-- A robot whose input is set up and that has handed over `k` commands since. -/
structure Numbered (b : Robot) (k : Nat) : Prop extends Sound b where
  inInitialized : b.inInitialized = true
  filed : b.handler.recipesIn ≠ []
  leads : Leads b.inRecipe
  last : b.lastSeqnr = UInt32.ofNat k
  seqnrs : b.seqnrs = 1 :: (List.range k).map fun i => UInt32.ofNat (i + 1)

theorem Numbered.of_same {b b' : Robot} {k : Nat} (h : b.Numbered k) (hSound : b'.Sound) (hSame : b.SameInput b') :
    b'.Numbered k where
  toSound := hSound
  inInitialized := hSame.inInitialized.trans h.inInitialized
  filed := by rw [hSame.filed]; exact h.filed
  leads := h.leads.alike hSame.recipe
  last := hSame.lastSeqnr.trans h.last
  seqnrs := by rw [Robot.seqnrs, hSame.packages]; exact h.seqnrs

theorem seqnrs_sentBy {b : Robot} (hFormed : b.inRecipe.Formed) (hDir : b.inRecipe.dirOut = false)
    (hLeads : Leads b.inRecipe) :
    seqnrs { b with handler := b.handler.sentBy 1 } = b.seqnrs ++ [getWord b.mem Member.inSeqnr] := by
  obtain ⟨tok, rest, hFields, hStorage, hWord⟩ := hLeads.first
  have hSeqnr := RtdeRecipe.seqnrOf_store hLeads.layout hFormed hDir hFields hWord hLeads.small b.inRecipe.dp b.mem
  rw [hStorage] at hSeqnr
  rw [seqnrs, packages_sentBy hDir hLeads.small, List.map_append]
  exact congrArg (fun n => b.seqnrs ++ [n]) hSeqnr

theorem Numbered.command {b : Robot} {k : Nat} (h : b.Numbered k) (m : Memory) (c : Command) :
    Numbered { (b.withMem m).number c with handler := ((b.withMem m).number c).handler.sentBy 1 } (k + 1) := by
  have hNumbered : ((b.withMem m).number c).Sound := h.toSound.of_parts rfl rfl rfl rfl
  have hWord : getWord ((b.withMem m).number c).mem Member.inSeqnr = UInt32.ofNat (k + 1) := by
    change getWord (setWord (setWord m Member.inSeqnr (b.lastSeqnr + 1)) Member.cmd _) Member.inSeqnr = _
    rw [getWord_setWord_of_apart (by decide), getWord_setWord_self, h.last]
    exact (UInt32.ofNat_add k 1).symm
  refine ⟨hNumbered.sentBy h.onlyInput, h.inInitialized, h.filed, h.leads.alike ⟨rfl, rfl, rfl, rfl⟩, ?_, ?_⟩
  · change b.lastSeqnr + 1 = _
    rw [h.last]
    exact (UInt32.ofNat_add k 1).symm
  · rw [seqnrs_sentBy (hNumbered.formed 1) hNumbered.inDir h.leads, hWord, List.range_succ, List.map_append]
    exact congrArg (· ++ _) h.seqnrs

/-- Whether a call hands a command over, once the input is set up. -/
def handsOver (b : Robot) : Action → Bool
  | .updateW vs _ | .calculateQRef vs _ => vs.length == dof
  | .stop _ _ => b.running
  | _ => false

theorem handsOver_of_registers {b : Robot} {a : Action}
    (h : System.registersOutput a = true ∨ System.registersInput a = true) : b.handsOver a = false := by
  cases a with
  | updateW | calculateQRef | stop => simp [System.registersOutput, System.registersInput] at h
  | _ => rfl

theorem handsOver_of_wait {b : Robot} {a : Action} (h : System.isWait a = true) : b.handsOver a = false := by
  cases a with
  | updateW | calculateQRef | stop => cases h
  | _ => rfl

/-- What hands a package over is a command or a stop. -/
theorem handed_of_step {s t : System} {a : Action} (hHands : s.robot.handsOver a = true) (hStep : s.Step a t) :
    (∃ m c vs sendCode ok, s.robot.handsOver a = (vs.length == dof) ∧
      s.robot.sendVector m c vs sendCode = (ok, t.robot)) ∨
    ∃ sendCode x, a = .stop sendCode x ∧ t.robot = (s.robot.stop sendCode x).2 := by
  cases a with
  | updateW newW sendCode =>
    obtain ⟨m, c, ok, -, hSend⟩ := System.vector_of_step (Or.inl rfl) hStep
    exact Or.inl ⟨m, c, newW, sendCode, ok, rfl, hSend⟩
  | calculateQRef newPose sendCode =>
    obtain ⟨m, c, ok, -, hSend⟩ := System.vector_of_step (Or.inr rfl) hStep
    exact Or.inl ⟨m, c, newPose, sendCode, ok, rfl, hSend⟩
  | stop sendCode x =>
    obtain rfl := Option.some.inj hStep
    exact Or.inr ⟨sendCode, x, rfl, rfl⟩
  | _ => cases hHands

theorem Numbered.sendVector {b b' : Robot} {k : Nat} (h : b.Numbered k) {a : Nat} {c : Command} {vs : List UInt64}
    {sendCode : Int} {ok : Bool} (hSend : b.sendVector a c vs sendCode = (ok, b')) :
    b'.Numbered (k + if vs.length == dof then 1 else 0) := by
  split
  · rename_i hLength
    obtain ⟨mem, hFiled⟩ := sendVector_filed h.onlyInput h.filed h.inInitialized (by simpa using hLength) a c sendCode
    obtain ⟨-, rfl⟩ := Prod.mk.inj (hSend.symm.trans hFiled)
    exact (h.command (setDoubles b.mem a vs) c).of_same (h.toSound.sendVector hSend)
      ⟨rfl, rfl, RtdeRecipe.Alike.refl _, rfl, rfl⟩
  · rename_i hLength
    rcases sendVector_cases hSend with ⟨rfl, -⟩ | ⟨hSix, -⟩
    · exact h
    · simp [hSix] at hLength

theorem Numbered.stop {b : Robot} {k : Nat} (h : b.Numbered k) (sendCode : Int) (x : Exchange) :
    (b.stop sendCode x).2.Numbered (k + if b.running then 1 else 0) := by
  have hSound := h.toSound.stop sendCode x
  unfold Robot.stop at hSound ⊢
  cases hRunning : b.running with
  | false => exact h
  | true =>
    have hSent : ((b.number .stopCommand).send sendCode).2 =
        { b.number .stopCommand with handler := (b.number .stopCommand).handler.sentBy 1 } := by
      have hHandler : (b.number .stopCommand).handler.send (b.number .stopCommand).inRecipe.recipeId sendCode =
          (decide (0 < sendCode), (b.number .stopCommand).handler.sentBy 1) :=
        World.OnlyInput.send (w := (b.number .stopCommand).handler) h.onlyInput h.filed sendCode
      rw [send, hHandler]
    rw [hRunning] at hSound
    simp only [Bool.not_true, Bool.false_eq_true, if_false, if_true] at hSound ⊢
    rw [hSent] at hSound ⊢
    exact (h.command b.mem .stopCommand).of_same hSound (sameInput_handlerStop _ x)

/-- A step that hands nothing over leaves the input side as it is. -/
theorem sameInput_step {s t : System} {a : Action} (h : s.robot.Sound) (hNoInput : System.registersInput a = false)
    (hQuiet : s.robot.handsOver a = false) (hStep : s.Step a t) : s.robot.SameInput t.robot := by
  cases System.robotMoves_of_step hStep with
  | output known _ done => exact sameInput_initOutputWith h known done
  | input _ registers =>
    rw [hNoInput] at registers
    cases registers
  | vector sends done =>
    cases sendVector_cases done with
    | inl hSame =>
      rw [hSame.1]
      exact SameInput.refl _
    | inr hSent => cases sends with
      | inl hAction | inr hAction =>
        subst hAction
        simp [handsOver, hSent.1] at hQuiet
  | wait _ done =>
    rw [done]
    exact ⟨rfl, rfl, RtdeRecipe.Alike.refl _, rfl, rfl⟩
  | takeFrame done =>
    obtain ⟨buffer, mem, -, hRobot⟩ := takeFrame_eq_some done
    rw [hRobot]
    exact ⟨rfl, rfl, RtdeRecipe.Alike.refl _, rfl, rfl⟩
  | publish now done =>
    rw [done, publish]
    split
    · exact SameInput.refl _
    · exact ⟨rfl, rfl, RtdeRecipe.Alike.refl _, rfl, rfl⟩
  | state synchronous done =>
    rw [done, state]
    split
    · exact SameInput.refl _
    · exact ⟨rfl, rfl, RtdeRecipe.Alike.refl _, rfl, rfl⟩
  | start x done =>
    rw [done]
    exact sameInput_start _ x
  | stop sendCode x done =>
    have hRunning : s.robot.running = false := hQuiet
    rw [done, Robot.stop, hRunning]
    exact SameInput.refl _

theorem Numbered.step {s t : System} {k : Nat} {a : Action} (h : s.robot.Numbered k)
    (hNoInput : System.registersInput a = false) (hStep : s.Step a t) :
    t.robot.Numbered (k + if s.robot.handsOver a then 1 else 0) := by
  by_cases hHands : s.robot.handsOver a = true
  · cases handed_of_step hHands hStep with
    | inl hCommand =>
      obtain ⟨m, c, vs, sendCode, ok, hSame, hSend⟩ := hCommand
      rw [hSame]
      exact h.sendVector hSend
    | inr hStop =>
      obtain ⟨sendCode, x, rfl, hRobot⟩ := hStop
      rw [hRobot]
      exact h.stop sendCode x
  · rw [if_neg hHands]
    have hQuiet : s.robot.handsOver a = false := by simpa using hHands
    exact h.of_same (System.sound_step h.toSound hStep) (sameInput_step h.toSound hNoInput hQuiet hStep)

/-- The numbers on the wire count up from 1 behind the number of the registration, which is 1 too. -/
theorem Numbered.run {s t : System} {k : Nat} {actions : List Action} (h : s.robot.Numbered k)
    (hRun : Path (Restrict (fun _ a => System.registersInput a = false) System.Step) s actions t) :
    ∃ k', k ≤ k' ∧ t.robot.Numbered k' ∧
      (k' = k ↔ Path (Restrict (fun s a => s.robot.handsOver a = false) System.Step) s actions t) := by
  induction hRun generalizing k with
  | nil s => exact ⟨k, le_rfl, h, iff_of_true rfl (.nil s)⟩
  | @cons s u t a rest head _ ih =>
    obtain ⟨k', hLe, hEnd, hIff⟩ := ih (h.step head.1 head.2)
    cases hHands : s.robot.handsOver a with
    | true =>
      rw [hHands, if_pos rfl] at hLe
      refine ⟨k', by omega, hEnd, iff_of_false (by omega) fun hIdle => ?_⟩
      cases hIdle with
      | cons first _ =>
        have hQuiet : s.robot.handsOver a = false := first.1
        rw [hHands] at hQuiet
        cases hQuiet
    | false =>
      simp only [hHands, Bool.false_eq_true, if_false, Nat.add_zero] at hLe hIff
      refine ⟨k', hLe, hEnd, hIff.trans ⟨fun hRest => .cons ⟨hHands, head.2⟩ hRest, fun hIdle => ?_⟩⟩
      cases hIdle with
      | cons first second =>
        obtain rfl := Option.some.inj (first.2.symm.trans head.2)
        exact second

set_option maxRecDepth 100000 in
theorem leads_inputFieldsTcpPose : totalBytes (placed false 0 inputFieldsTcpPose) = 104 ∧
    (placed false 0 inputFieldsTcpPose).head?.map (fun tok => (tok.storage, tok.numBytes)) =
      some (Member.inSeqnr, 4) := by
  decide +kernel

set_option maxRecDepth 100000 in
theorem leads_inputFields : totalBytes (placed false 0 inputFields) = 56 ∧
    (placed false 0 inputFields).head?.map (fun tok => (tok.storage, tok.numBytes)) = some (Member.inSeqnr, 4) := by
  decide +kernel

theorem leads_of_placed {r : RtdeRecipe} {fields : List FieldOf} {n : Nat} (hKnown : Known false fields)
    (hAlike : (RtdeRecipe.init.dirInput.2.extended fields).Alike r) (hTotal : totalBytes (placed false 0 fields) = n)
    (hSmall : n < 1000)
    (hFirst : (placed false 0 fields).head?.map (fun tok => (tok.storage, tok.numBytes)) = some (Member.inSeqnr, 4)) :
    Leads r := by
  have hFields : (RtdeRecipe.init.dirInput.2.extended fields).fields = placed false 0 fields := rfl
  have hLayout : (RtdeRecipe.init.dirInput.2.extended fields).Layout :=
    (RtdeRecipe.layout_of_nil rfl rfl : RtdeRecipe.init.dirInput.2.Layout).extended hKnown
  refine Leads.alike ⟨hLayout, ?_, ?_⟩ hAlike
  · obtain ⟨tok, hHead, hPair⟩ := Option.map_eq_some_iff.mp hFirst
    obtain ⟨rest, hCons⟩ := List.head?_eq_some_iff.mp hHead
    obtain ⟨hStorage, hBytes⟩ := Prod.mk.inj hPair
    exact ⟨tok, rest, hFields.trans hCons, hStorage, hBytes⟩
  · have hBytes : (RtdeRecipe.init.dirInput.2.extended fields).bytes = n := by
      rw [← hTotal, ← hFields]
      exact hLayout.expected
    omega

/-- A registration that succeeds on a new robot sends the number 1, which the constructor has put there. -/
theorem numbered_initInputWith {storage buffer : Buf} {x : Exchange} {fields : List FieldOf} {n : Nat} {g : Registration}
    {b : Robot} (hKnown : Known false fields) (hTotal : totalBytes (placed false 0 fields) = n) (hSmall : n < 1000)
    (hFirst : (placed false 0 fields).head?.map (fun tok => (tok.storage, tok.numBytes)) = some (Member.inSeqnr, 4))
    (hInit : initInputWith fields (init storage buffer x) g = some (true, b)) : b.Numbered 0 := by
  have hNew := sound_init storage buffer x
  have hSound := hNew.initInputWith hKnown hInit
  obtain ⟨asking, hAsking, ⟨hNot, -⟩ | ⟨hFiled, rfl⟩⟩ := hNew.asks_initInputWith hKnown hInit
  · cases hNot
  · have hAlike := hAsking.recipe
    rw [inRecipe_init] at hAlike
    have hLeads : Leads asking.inRecipe := leads_of_placed hKnown hAlike hTotal hSmall hFirst
    have hFormed : asking.inRecipe.Formed :=
      hAlike.formed ((RtdeRecipe.formed_of_nil rfl : RtdeRecipe.init.dirInput.2.Formed).extended hKnown)
    have hNone : asking.seqnrs = [] := congrArg (List.map seqnrOf) (hAsking.packages.trans (packages_init storage buffer x))
    have hOne : getWord asking.mem Member.inSeqnr = 1 := by
      rw [hAsking.mem, mem_init, getWord_setWord_of_apart (by decide), getWord_setWord_self]
    have hSent := seqnrs_sentBy hFormed hAlike.dirOut hLeads
    rw [hNone, hOne] at hSent
    exact ⟨hSound, rfl, hFiled, hLeads.alike ⟨rfl, rfl, rfl, rfl⟩, hAsking.lastSeqnr, hSent⟩

theorem numbered_initInput {storage buffer : Buf} {x : Exchange} {g : Registration} {b : Robot}
    (h : (init storage buffer x).initInput g = some (true, b) ∨ (init storage buffer x).initInputTcpPose g = some (true, b)) :
    b.Numbered 0 := by
  cases h with
  | inl hPlain =>
    exact numbered_initInputWith known_inputFields leads_inputFields.1 (by decide) leads_inputFields.2 hPlain
  | inr hPose =>
    exact numbered_initInputWith known_inputFieldsTcpPose leads_inputFieldsTcpPose.1 (by decide)
      leads_inputFieldsTcpPose.2 hPose

theorem Numbered.fresh_iff {b : Robot} {k : Nat} (h : b.Numbered k) :
    (b.seqnrs.IsChain (· ≠ ·) ∧ polled 0 b.seqnrs = b.seqnrs) ↔ k = 0 := by
  rw [h.seqnrs]
  cases k with
  | zero => exact iff_of_true ⟨List.isChain_singleton 1, rfl⟩ rfl
  | succ k =>
    refine iff_of_false (fun hFresh => ?_) (Nat.succ_ne_zero k)
    rw [List.range_succ_eq_map, List.map_cons] at hFresh
    exact (List.isChain_cons_cons.mp hFresh.1).1 rfl

/-- Consecutive packages have different numbers, and no package is passed over, if and only if the run hands no
command over at all. -/
theorem fresh_iff_no_command {storage buffer : Buf} {x : Exchange} {g : Registration} {b : Robot}
    (hInit : (init storage buffer x).initInput g = some (true, b) ∨ (init storage buffer x).initInputTcpPose g = some (true, b))
    {actions : List Action} {s : System}
    (hRun : Path (Restrict (fun _ a => System.registersInput a = false) System.Step) ⟨b, [], 0, []⟩ actions s) :
    (s.robot.seqnrs.IsChain (· ≠ ·) ∧ polled 0 s.robot.seqnrs = s.robot.seqnrs) ↔
      Path (Restrict (fun s a => s.robot.handsOver a = false) System.Step) ⟨b, [], 0, []⟩ actions s := by
  obtain ⟨k, -, hEnd, hIff⟩ := Numbered.run (s := ⟨b, [], 0, []⟩) (numbered_initInput hInit) hRun
  exact hEnd.fresh_iff.trans hIff

def inputAnswered : Registration := answeredWith .setupInputs (typesOf false inputFields)

set_option maxRecDepth 100000 in
theorem exists_initInput : ∃ b, (init (fun _ => 0) (fun _ => 0) ⟨-1, none⟩).initInput inputAnswered = some (true, b) := by
  have hInit : ((init (fun _ => 0) (fun _ => 0) ⟨-1, none⟩).initInput inputAnswered).map Prod.fst = some true := by decide +kernel
  obtain ⟨⟨ok, b⟩, hSome, rfl⟩ := Option.map_eq_some_iff.mp hInit
  exact ⟨b, hSome⟩

/-- A speed command of three elements is refused, and a package of the output is received. -/
def quietActions : List Action :=
  [.initOutput true (answeredWith .setupOutputs (typesOf true outputFields)), .updateW [1, 2, 3] 60,
    .takeFrame (some ([0, 208, 85, 1] ++ List.replicate 204 0)) 7, .publish 8]

set_option maxRecDepth 100000 in
theorem fresh_iff_no_command_init : ∃ b s, (init (fun _ => 0) (fun _ => 0) ⟨-1, none⟩).initInput inputAnswered = some (true, b) ∧
    Path System.Step ⟨b, [], 0, []⟩ quietActions s ∧ s.robot.updatedState = true ∧
    s.robot.seqnrs.IsChain (· ≠ ·) ∧ polled 0 s.robot.seqnrs = s.robot.seqnrs := by
  have hRuns : ((init (fun _ => 0) (fun _ => 0) ⟨-1, none⟩).initInput inputAnswered).bind (fun p =>
      (runWhile (fun s a => decide (s.robot.handsOver a = false ∧ System.registersInput a = false)) System.next
        ⟨p.2, [], 0, []⟩ quietActions).map fun s => (p.1, s.robot.updatedState)) = some (true, true) := by decide +kernel
  obtain ⟨⟨ok, b⟩, hInit, hSome⟩ := Option.bind_eq_some_iff.mp hRuns
  obtain ⟨s, hRun, hEnd⟩ := Option.map_eq_some_iff.mp hSome
  obtain ⟨rfl, hState⟩ := Prod.mk.inj hEnd
  have hPath := path_of_runWhile hRun
  have hQuiet : Path (Restrict (fun s a => s.robot.handsOver a = false) System.Step) ⟨b, [], 0, []⟩ quietActions s :=
    hPath.mono fun _ _ _ h => ⟨(of_decide_eq_true h.1).1, h.2⟩
  have hNoInput : Path (Restrict (fun _ a => System.registersInput a = false) System.Step) ⟨b, [], 0, []⟩ quietActions s :=
    hPath.mono fun _ _ _ h => ⟨(of_decide_eq_true h.1).2, h.2⟩
  exact ⟨b, s, hInit, hPath.of_restrict, hState, (fresh_iff_no_command (Or.inl hInit) hNoInput).mpr hQuiet⟩

/-- The first `update_w` sends the number that the registration has sent. -/
theorem first_command_repeats : ¬ ∀ (storage buffer : Buf) (x : Exchange) (g : Registration) (b : Robot)
    (actions : List Action) (s : System), (init storage buffer x).initInput g = some (true, b) →
    Path (Restrict (fun _ a => System.registersInput a = false) System.Step) ⟨b, [], 0, []⟩ actions s →
    actions.length < 2 ^ 32 → s.robot.seqnrs.IsChain (· ≠ ·) ∧ polled 0 s.robot.seqnrs = s.robot.seqnrs := by
  intro h
  obtain ⟨b, hInit⟩ := exists_initInput
  have hNumbered := numbered_initInput (Or.inl hInit)
  have hStep : System.Step ⟨b, [], 0, []⟩ (.updateW (List.replicate 6 0) 1)
      ⟨(b.updateW (List.replicate 6 0) 1).2, [], 0, []⟩ := rfl
  have hOne := (Numbered.step (s := ⟨b, [], 0, []⟩) hNumbered rfl hStep).fresh_iff
  have hFresh := h _ _ _ _ b [_] _ hInit (.cons ⟨rfl, hStep⟩ (.nil _)) (by decide)
  cases hOne.mp hFresh

end Robot

end LibUrx
