import LibUrx.Robot.RobotRun

/-! # When joint references count as valid

The flag is raised behind the first wait of `calculate_q_ref`, whether or not the wait has seen what it was
waiting for.
-/
namespace LibUrx
open Bytes Rtde Runs
set_option autoImplicit false

namespace Robot

/-- Neither the flag nor the number that waits compare with has changed. -/
structure Quiet (b b' : Robot) : Prop where
  qRefInitialized : b'.qRefInitialized = b.qRefInitialized
  qRefOutSeqnr : b'.qRefOutSeqnr = b.qRefOutSeqnr

theorem Quiet.refl (b : Robot) : b.Quiet b := ⟨rfl, rfl⟩

theorem quiet_initOutputWith {fields : List FieldOf} {b b' : Robot} {connected ok : Bool} {g : Registration}
    (h : initOutputWith fields b connected g = some (ok, b')) : b.Quiet b' := by
  unfold initOutputWith at h
  split at h
  · cases h
    exact Quiet.refl _
  · split at h
    · cases h
      exact Quiet.refl _
    · split at h
      · cases h
        exact Quiet.refl _
      · split at h
        · cases h
          exact ⟨rfl, rfl⟩
        · split at h
          · cases h
          · cases h
            exact ⟨rfl, rfl⟩
          · cases h
            exact ⟨rfl, rfl⟩

theorem quiet_initInputWith {fields : List FieldOf} {b b' : Robot} {ok : Bool} {g : Registration}
    (h : initInputWith fields b g = some (ok, b')) : b.Quiet b' := by
  unfold initInputWith at h
  split at h <;> cases h
  · exact ⟨rfl, rfl⟩
  · exact ⟨rfl, rfl⟩

theorem quiet_sendVector {b b' : Robot} {a : Nat} {c : Command} {vs : List UInt64} {sendCode : Int} {ok : Bool}
    (h : b.sendVector a c vs sendCode = (ok, b')) : b.Quiet b' := by
  rcases sendVector_cases h with ⟨rfl, -⟩ | ⟨-, -, w, -, rfl⟩
  · exact Quiet.refl _
  · exact ⟨rfl, rfl⟩

/-- A pose that was sent has the next number, and `in_seqnr` still holds it. -/
theorem sendPose_seqnr {b b' : Robot} {newPose : List UInt64} {sendCode : Int}
    (h : b.sendPose newPose sendCode = (true, b')) : getWord b'.mem Member.inSeqnr = b.lastSeqnr + 1 := by
  rcases sendVector_cases h with ⟨-, hNot, -⟩ | ⟨-, -, w, hSend, rfl⟩
  · cases hNot
  · have hMem : w.mem = (b.commanded Member.tcpPoseRef .newTcpPoseRefCommand newPose).mem := by
      have hKept := World.send_mem (b.commanded Member.tcpPoseRef .newTcpPoseRefCommand newPose).handler
        b.inRecipe.recipeId sendCode
      rwa [hSend] at hKept
    change getWord (setWord w.mem Member.cmd Command.noCommand.code) Member.inSeqnr = b.lastSeqnr + 1
    rw [getWord_setWord_of_apart (by decide), hMem]
    change getWord (setWord (setWord _ Member.inSeqnr (b.lastSeqnr + 1)) Member.cmd _) Member.inSeqnr = b.lastSeqnr + 1
    rw [getWord_setWord_of_apart (by decide), getWord_setWord_self]

end Robot

namespace System

/-- A step of a run, as far as the flag, the waits and the history go. -/
inductive Moves (s t : System) (a : Action) : Prop where
  | quiet (robot : s.robot.Quiet t.robot) (calls : t.calls = s.calls) (history : t.history = s.history)
  | posed (newPose : List UInt64) (sendCode : Int) (action : a = .calculateQRef newPose sendCode)
      (robot : s.robot.Quiet t.robot) (calls : t.calls = s.calls ++ [⟨s.robot.lastSeqnr + 1, .sent⟩])
      (history : t.history = s.history ++ [.posed (s.robot.lastSeqnr + 1)])
  | delivered (flag : t.robot.qRefInitialized = s.robot.qRefInitialized) (calls : t.calls = s.calls)
      (history : t.history = s.history ++ [.delivered t.robot.qRefOutSeqnr])
  | call (k : Nat) (seqnr : UInt32) (before after : Phase) (found : s.calls[k]? = some ⟨seqnr, before⟩)
      (robot : s.robot.Quiet t.robot) (calls : t.calls = s.calls.set k ⟨seqnr, after⟩)
      (history : t.history = s.history)
      (waited : after = .waited → s.robot.qRefOutSeqnr = seqnr ∨ a = .expired k ∧ before = .waiting true 1)
  | raised (k : Nat) (seqnr : UInt32) (found : s.calls[k]? = some ⟨seqnr, .waited⟩) (history : t.history = s.history)

theorem quiet_of_robotMoves {b b' : Robot} {a : Action} (h : RobotMoves b b' a) :
    b.Quiet b' ∨ isWait a = true ∨ ∃ now, a = .publish now := by
  cases h with
  | output _ _ done => exact Or.inl (Robot.quiet_initOutputWith done)
  | input _ _ done => exact Or.inl (Robot.quiet_initInputWith done)
  | vector _ done => exact Or.inl (Robot.quiet_sendVector done)
  | wait waits => exact Or.inr (Or.inl waits)
  | takeFrame done =>
    obtain ⟨buffer, mem, -, rfl⟩ := Robot.takeFrame_eq_some done
    exact Or.inl ⟨rfl, rfl⟩
  | publish now => exact Or.inr (Or.inr ⟨now, rfl⟩)
  | state synchronous done =>
    rw [done, Robot.state]
    split
    · exact Or.inl (Robot.Quiet.refl _)
    · exact Or.inl ⟨rfl, rfl⟩
  | start x done =>
    rw [done, Robot.start]
    split
    · exact Or.inl (Robot.Quiet.refl _)
    · exact Or.inl ⟨rfl, rfl⟩
  | stop sendCode x done =>
    rw [done, Robot.stop]
    split
    · exact Or.inl (Robot.Quiet.refl _)
    · exact Or.inl ⟨rfl, rfl⟩

theorem moves_of_step {s t : System} {a : Action} (h : s.Step a t) : Moves s t a := by
  have hRobot := quiet_of_robotMoves (robotMoves_of_step h)
  have hQuiet (hWait : isWait a = false) (hPublish : ∀ now, a ≠ .publish now) : s.robot.Quiet t.robot := by
    rcases hRobot with hQuiet | hIs | ⟨now, hIs⟩
    · exact hQuiet
    · rw [hWait] at hIs
      cases hIs
    · exact absurd hIs (hPublish now)
  unfold Step at h
  cases a with
  | initOutput _ _ | initOutputTcpPose _ _ | initInput _ | initInputTcpPose _ | takeFrame _ _ =>
    obtain ⟨⟨ok, b⟩, -, rfl⟩ := Option.map_eq_some_iff.mp h
    exact .quiet (hQuiet rfl (by simp)) rfl rfl
  | updateW _ _ | state _ | start _ | stop _ _ =>
    obtain rfl := Option.some.inj h
    exact .quiet (hQuiet rfl (by simp)) rfl rfl
  | calculateQRef newPose sendCode =>
    simp only [next] at h
    split at h
    · obtain rfl := Option.some.inj h
      exact .quiet (hQuiet rfl (by simp)) rfl rfl
    · rename_i hSend
      rw [Robot.sendPose_seqnr hSend] at h
      obtain rfl := Option.some.inj h
      exact .posed newPose sendCode rfl (hQuiet rfl (by simp)) rfl rfl
  | look k =>
    simp only [next] at h
    split at h
    · rename_i hCall
      obtain rfl := Option.some.inj h
      exact .call k _ _ _ hCall (Robot.Quiet.refl _) rfl rfl (by simp)
    · cases h
  | matched k =>
    simp only [next] at h
    split at h
    · rename_i hCall
      split at h
      · rename_i hSame
        obtain rfl := Option.some.inj h
        exact .call k _ _ _ hCall (Robot.Quiet.refl _) rfl rfl fun _ => Or.inl hSame
      · cases h
    · cases h
  | expired k =>
    simp only [next] at h
    split at h
    · rename_i first left hCall
      split at h
      · cases h
      · obtain rfl := Option.some.inj h
        refine .call k _ _ _ hCall (Robot.Quiet.refl _) rfl rfl fun hWaited => Or.inr ⟨rfl, ?_⟩
        cases first <;> cases left <;> simp [afterWait] at hWaited ⊢
    · cases h
  | raise k =>
    simp only [next] at h
    split at h
    · rename_i hCall
      obtain rfl := Option.some.inj h
      exact .raised k _ hCall rfl
    · cases h
  | publish now =>
    simp only [next, Robot.publish] at h
    split at h
    · cases h
    · split at h
      · obtain rfl := Option.some.inj h
        exact .quiet (Robot.Quiet.refl _) rfl rfl
      · obtain rfl := Option.some.inj h
        exact .delivered rfl rfl rfl

/-- A pose command was sent under a number, and later `recv` published that number. -/
def AnsweredIn (history : List Event) (seqnr : UInt32) : Prop :=
  [Event.posed seqnr, Event.delivered seqnr].Sublist history

theorem AnsweredIn.append {history : List Event} {seqnr : UInt32} (h : AnsweredIn history seqnr) (more : List Event) :
    AnsweredIn (history ++ more) seqnr := h.trans (List.sublist_append_left _ _)

theorem answeredIn_delivered {history : List Event} {seqnr : UInt32} (h : Event.posed seqnr ∈ history) :
    AnsweredIn (history ++ [.delivered seqnr]) seqnr :=
  (List.singleton_sublist.mpr h).append (List.Sublist.refl [Event.delivered seqnr])

/-- A first wait is about to run out of attempts. -/
def lastAttempt : Option QRefCall → Bool
  | some ⟨_, .waiting true 1⟩ => true
  | _ => false

/-- As long as the flag is down, no first wait runs out of attempts, and no pose is sent under a number that
`recv` has published already. -/
def heeds (s : System) : Action → Bool
  | .calculateQRef _ _ => s.robot.qRefInitialized || s.robot.qRefOutSeqnr != s.robot.lastSeqnr + 1
  | .expired k => s.robot.qRefInitialized || !lastAttempt s.calls[k]?
  | _ => true

/-- The flag is down, and every call that has seen its number has it published behind its command. -/
structure Expecting (s : System) : Prop where
  down : s.robot.qRefInitialized = false
  posed : ∀ c ∈ s.calls, Event.posed c.seqnr ∈ s.history
  current : ∀ c ∈ s.calls, s.robot.qRefOutSeqnr = c.seqnr → AnsweredIn s.history c.seqnr
  waited : ∀ c ∈ s.calls, c.phase = .waited → AnsweredIn s.history c.seqnr

theorem expecting_new (storage buffer : Buf) (x : Exchange) : (new storage buffer x).Expecting where
  down := rfl
  posed _ hMem := absurd hMem List.not_mem_nil
  current _ hMem := absurd hMem List.not_mem_nil
  waited _ hMem := absurd hMem List.not_mem_nil

theorem Expecting.step {s t : System} {a : Action} (h : s.Expecting) (hHeeds : s.heeds a = true)
    (hMoves : Moves s t a) : (∃ seqnr, AnsweredIn t.history seqnr) ∨ t.Expecting := by
  cases hMoves with
  | quiet hRobot hCalls hHistory =>
    refine Or.inr ⟨hRobot.qRefInitialized.trans h.down, ?_, ?_, ?_⟩ <;> rw [hCalls, hHistory]
    · exact h.posed
    · rw [hRobot.qRefOutSeqnr]
      exact h.current
    · exact h.waited
  | posed newPose sendCode hAction hRobot hCalls hHistory =>
    subst hAction
    have hOther : s.robot.qRefOutSeqnr ≠ s.robot.lastSeqnr + 1 := by simpa [heeds, h.down] using hHeeds
    refine Or.inr ⟨hRobot.qRefInitialized.trans h.down, ?_, ?_, ?_⟩ <;> rw [hCalls, hHistory] <;> intro c hMem <;>
      rcases List.mem_append.mp hMem with hOld | hNew
    · exact List.mem_append_left _ (h.posed c hOld)
    · rw [List.mem_singleton.mp hNew]
      exact List.mem_append_right _ List.mem_cons_self
    · rw [hRobot.qRefOutSeqnr]
      exact fun hSame => (h.current c hOld hSame).append _
    · rw [hRobot.qRefOutSeqnr, List.mem_singleton.mp hNew]
      exact fun hSame => absurd hSame hOther
    · exact fun hWaited => (h.waited c hOld hWaited).append _
    · rw [List.mem_singleton.mp hNew]
      simp
  | delivered hFlag hCalls hHistory =>
    refine Or.inr ⟨hFlag.trans h.down, ?_, ?_, ?_⟩ <;> rw [hCalls, hHistory]
    · exact fun c hMem => List.mem_append_left _ (h.posed c hMem)
    · intro c hMem hSame
      rw [hSame]
      exact answeredIn_delivered (h.posed c hMem)
    · exact fun c hMem hWaited => (h.waited c hMem hWaited).append _
  | call k seqnr before after hFound hRobot hCalls hHistory hWaits =>
    have hCall : ⟨seqnr, before⟩ ∈ s.calls := List.mem_of_getElem? hFound
    have hOld {c : QRefCall} (hMem : c ∈ s.calls.set k ⟨seqnr, after⟩) : c ∈ s.calls ∨ c = ⟨seqnr, after⟩ :=
      List.mem_or_eq_of_mem_set hMem
    refine Or.inr ⟨hRobot.qRefInitialized.trans h.down, ?_, ?_, ?_⟩ <;> rw [hCalls, hHistory] <;> intro c hMem <;>
      rcases hOld hMem with hSame | rfl
    · exact h.posed c hSame
    · exact h.posed ⟨seqnr, before⟩ hCall
    · rw [hRobot.qRefOutSeqnr]
      exact h.current c hSame
    · rw [hRobot.qRefOutSeqnr]
      exact h.current ⟨seqnr, before⟩ hCall
    · exact h.waited c hSame
    · intro hWaited
      rcases hWaits hWaited with hMatch | ⟨rfl, rfl⟩
      · exact h.current ⟨seqnr, before⟩ hCall hMatch
      · simp [heeds, h.down, hFound, lastAttempt] at hHeeds
  | raised k seqnr hFound hHistory =>
    refine Or.inl ⟨seqnr, ?_⟩
    rw [hHistory]
    exact h.waited _ (List.mem_of_getElem? hFound) rfl

theorem AnsweredIn.step {s t : System} {a : Action} {seqnr : UInt32} (h : AnsweredIn s.history seqnr)
    (hMoves : Moves s t a) : AnsweredIn t.history seqnr := by
  cases hMoves with
  | quiet _ _ hHistory | call _ _ _ _ _ _ _ hHistory _ | raised _ _ _ hHistory => rwa [hHistory]
  | posed _ _ _ _ _ hHistory | delivered _ _ hHistory =>
    rw [hHistory]
    exact h.append _

/-- In a run that heeds both conditions the flag is up only if `recv` has published the number of a pose
command after the command was sent. -/
theorem answered_of_qRefInitialized {storage buffer : Buf} {x : Exchange} {actions : List Action} {s : System}
    (h : Path (Restrict (fun s a => s.heeds a = true) Step) (new storage buffer x) actions s)
    (hFlag : s.robot.qRefInitialized = true) : ∃ seqnr, AnsweredIn s.history seqnr := by
  have hValid : (∃ seqnr, AnsweredIn s.history seqnr) ∨ s.Expecting := by
    refine h.invariant (p := fun s => (∃ seqnr, AnsweredIn s.history seqnr) ∨ s.Expecting) ?_
      (Or.inr (expecting_new storage buffer x))
    rintro s a t (⟨seqnr, hAnswered⟩ | hExpecting) ⟨hHeeds, hStep⟩
    · exact Or.inl ⟨seqnr, hAnswered.step (moves_of_step hStep)⟩
    · exact hExpecting.step hHeeds (moves_of_step hStep)
  cases hValid with
  | inl hAnswered => exact hAnswered
  | inr hExpecting =>
    rw [hExpecting.down] at hFlag
    cases hFlag

/-- A package of the output with poses: recipe id 1, `output_int_register_1` is 1 and every other value zero. -/
def firstAnswer : List UInt8 := [1, 52, 85, 1] ++ List.replicate 252 0 ++ [0, 0, 0, 1] ++ List.replicate 48 0

def answeredActions : List Action :=
  [.initOutputTcpPose true (answeredWith .setupOutputs (typesOf true outputFieldsTcpPose)),
    .initInputTcpPose (answeredWith .setupInputs (typesOf false inputFieldsTcpPose)),
    .calculateQRef (List.replicate 6 0) 1, .look 0, .takeFrame (some firstAnswer) 0, .publish 0, .matched 0, .raise 0]

set_option maxRecDepth 100000 in
theorem answered_of_qRefInitialized_pose : ∃ s,
    Path (Restrict (fun s a => s.heeds a = true) Step) (new (fun _ => 0) (fun _ => 0) ⟨-1, none⟩) answeredActions s ∧
      ∃ seqnr, AnsweredIn s.history seqnr := by
  have hRuns : (runWhile heeds next (new (fun _ => 0) (fun _ => 0) ⟨-1, none⟩) answeredActions).map
      (fun s => s.robot.qRefInitialized) = some true := by decide +kernel
  obtain ⟨s, hRun, hFlag⟩ := Option.map_eq_some_iff.mp hRuns
  exact ⟨s, path_of_runWhile hRun, answered_of_qRefInitialized (path_of_runWhile hRun) hFlag⟩

def unansweredActions : List Action :=
  [.initInputTcpPose (answeredWith .setupInputs (typesOf false inputFieldsTcpPose)),
    .calculateQRef (List.replicate 6 0) 1, .look 0] ++ List.replicate attempts (.expired 0) ++ [.raise 0]

set_option maxRecDepth 100000 in
/-- The flag goes up when the first wait is over, and nothing was ever received. -/
theorem flag_without_answer : ¬ ∀ (storage buffer : Buf) (x : Exchange) (actions : List Action) (s : System),
    Path Step (new storage buffer x) actions s → s.robot.qRefInitialized = true → ∃ seqnr, AnsweredIn s.history seqnr := by
  intro h
  have hRuns : (runWhile (fun _ _ => true) next (new (fun _ => 0) (fun _ => 0) ⟨-1, none⟩) unansweredActions).map
      (fun s => (s.robot.qRefInitialized, s.history)) = some (true, [.posed 1]) := by decide +kernel
  obtain ⟨s, hRun, hEnd⟩ := Option.map_eq_some_iff.mp hRuns
  obtain ⟨hFlag, hHistory⟩ := Prod.mk.inj hEnd
  obtain ⟨seqnr, hAnswered⟩ := h _ _ _ _ s (path_of_runWhile hRun).of_restrict hFlag
  rw [hHistory] at hAnswered
  have hTwo := List.Sublist.length_le hAnswered
  simp at hTwo

end System

end LibUrx
