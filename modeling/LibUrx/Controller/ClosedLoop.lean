import LibUrx.Controller.Answers
import LibUrx.Controller.Commands
import LibUrx.Robot.Delivery
import LibUrx.Robot.QRef

/-! # A robot and its controller

Packages are on their way in both directions. They arrive in the order in which they were sent, or not at all. The
calls of the robot, the threads of the program and the packages take their steps in any order.
-/
namespace LibUrx.Controller
open Bytes Rtde Runs Histories
set_option autoImplicit false

structure Loop where
  system : System
  toController : List (List UInt8)
  program : Program
  toRobot : List (List UInt8)

inductive LoopAction where
  | call (a : Action)
  | deliver
  | lose
  | thread (a : ProgramAction)
  | report (id : UInt8) (t : Telemetry)
  | receive (ts : UInt64)

/-- The actions of a program that only its controller takes. -/
def threads : ProgramAction → Bool
  | .main | .speed | .kin _ => true
  | .arrive _ | .emit => false

namespace Loop

def robot (l : Loop) : Robot := l.system.robot

/-- A robot that is set up, the packages that it has sent, and a program with whatever stands in its registers. -/
def start (b : Robot) (inputs : Inputs) (outputs : Outputs) : Loop :=
  ⟨⟨b, [], 0, []⟩, b.packages, .new inputs outputs, []⟩

def next (l : Loop) : LoopAction → Option Loop
  | .call a =>
    if serves a then (l.system.next a).map fun s => { l with
      system := s, toController := l.toController ++ s.robot.packages.drop l.robot.packages.length }
    else none
  | .deliver =>
    match l.toController with
    | [] => none
    | package :: rest => (l.program.next (.arrive (.ofPackage package))).map fun p =>
      { l with toController := rest, program := p }
  | .lose =>
    match l.toController with
    | [] => none
    | _ :: rest => some { l with toController := rest }
  | .thread a => if threads a then (l.program.next a).map fun p => { l with program := p } else none
  | .report id t => some { l with toRobot := l.toRobot ++ [l.program.outputs.package id t] }
  | .receive ts =>
    match l.toRobot with
    | [] => none
    | package :: rest => (l.system.next (.takeFrame (some package) ts)).map fun s =>
      { l with system := s, toRobot := rest }

def Step (l : Loop) (a : LoopAction) (m : Loop) : Prop := l.next a = some m

/-- `get_inverse_kin` solves the pose that it is given. -/
def Solves (solves : Vec → Vec → Prop) (l : Loop) (a : LoopAction) : Prop :=
  ∀ b, a = .thread b → l.program.Solves solves b

end Loop

def arrivalsOf (actions : List ProgramAction) : List Inputs :=
  actions.filterMap fun
    | .arrive x => some x
    | _ => none

/-- Output registers to which the program can get with some of these packages. -/
def Reached (solves : Vec → Vec → Prop) (inputs : Inputs) (outputs : Outputs) (packages : List Inputs) (o : Outputs) :
    Prop :=
  ∃ actions p, Path (Restrict (Program.Solves solves) Program.Step) (.new inputs outputs) actions p ∧
    (arrivalsOf actions).Sublist packages ∧ p.outputs = o

variable {solves : Vec → Vec → Prop} {inputs : Inputs} {outputs : Outputs}

theorem Reached.append {packages : List Inputs} {o : Outputs} (h : Reached solves inputs outputs packages o)
    (more : List Inputs) : Reached solves inputs outputs (packages ++ more) o := by
  obtain ⟨actions, p, hRun, hSome, hOutputs⟩ := h
  exact ⟨actions, p, hRun, hSome.trans (List.sublist_append_left _ _), hOutputs⟩

theorem mem_arrivalsOf {actions : List ProgramAction} {y : Inputs} : .arrive y ∈ actions ↔ y ∈ arrivalsOf actions := by
  constructor
  · exact fun hMem => List.mem_filterMap.mpr ⟨_, hMem, rfl⟩
  · intro hMem
    obtain ⟨a, hA, hSome⟩ := List.mem_filterMap.mp hMem
    cases a with
    | arrive x => exact Option.some.inj hSome ▸ hA
    | _ => cases hSome

/-- Where the registers bear the number of the last pose command, they bear the solution of its pose. -/
theorem Reached.solved {before after : List Inputs} {x : Inputs} {o : Outputs}
    (h : Reached solves inputs outputs (before ++ x :: after) o) (hInputs : inputs.seqnr ≠ x.seqnr)
    (hOutputs : outputs.qRefSeqnr ≠ x.seqnr) (hBefore : ∀ y ∈ before, y.seqnr ≠ x.seqnr)
    (hAfter : ∀ y ∈ after, y.cmd ≠ 3 ∧ y.tcpPose = x.tcpPose ∧ y.seqnr ≠ x.seqnr)
    (hAnswered : o.qRefSeqnr = x.seqnr) : solves x.tcpPose o.qRef := by
  obtain ⟨actions, p, hRun, hSome, rfl⟩ := h
  obtain ⟨older, newer, hSplit, hOlder, hNewer⟩ := List.sublist_append_iff.mp hSome
  obtain ⟨first, second, rfl, hFirst, hSecond⟩ := List.filterMap_eq_append_iff.mp hSplit
  have hNotBefore : ∀ y ∈ arrivalsOf first, y.seqnr ≠ x.seqnr := by
    intro y hY
    exact hBefore y (hOlder.subset (hFirst ▸ hY))
  rcases List.sublist_cons_iff.mp hNewer with hLost | ⟨later, rfl, hLater⟩
  · refine absurd hAnswered (Program.unseen_of_run hRun hInputs hOutputs fun y hY => ?_).rest.answered
    rcases List.mem_append.mp hY with hMem | hMem
    · exact hNotBefore y (mem_arrivalsOf.mp hMem)
    · exact (hAfter y (hLost.subset (hSecond ▸ mem_arrivalsOf.mp hMem))).2.2
  · obtain ⟨idle, a, rest, rfl, hIdle, hArrives, hRest⟩ := List.filterMap_eq_cons_iff.mp hSecond
    cases a with
    | arrive y =>
      obtain rfl := Option.some.inj hArrives
      rw [← List.append_assoc] at hRun
      refine (Program.given_of_run hRun hInputs hOutputs ?_ ?_).solved hAnswered
      · intro y hY
        rcases List.mem_append.mp hY with hMem | hMem
        · exact hNotBefore y (mem_arrivalsOf.mp hMem)
        · cases hIdle _ hMem
      · intro y hY
        exact hAfter y (hLater.subset (hRest ▸ mem_arrivalsOf.mp hY))
    | _ => cases hArrives

namespace Loop

/-- What the loop has of the program's results, on the way, in the members and in the state of the robot. -/
structure Kept (solves : Vec → Vec → Prop) (inputs : Inputs) (outputs : Outputs) (l : Loop) (k : Nat) : Prop where
  serving : Serving l.robot k
  program : ∃ actions, Path (Restrict (Program.Solves solves) Program.Step) (.new inputs outputs) actions l.program ∧
    (arrivalsOf actions ++ l.toController.map Inputs.ofPackage).Sublist (sent l.robot)
  reported : ∀ package ∈ l.toRobot, ∃ id t o, package = Outputs.package id t o ∧
    Reached solves inputs outputs (sent l.robot) o
  members : l.system.frames ≠ 0 → ∃ o, Reached solves inputs outputs (sent l.robot) o ∧ Outputs.Held l.robot.mem o
  published : l.robot.qRefOutSeqnr = 0 ∨ ∃ o, Reached solves inputs outputs (sent l.robot) o ∧
    l.robot.qRefOutSeqnr = o.qRefSeqnr ∧ l.robot.urState.jqRef = List.ofFn o.qRef

/-- A step of the program, which may be the arrival of the package in front. -/
theorem Kept.programStep {l : Loop} {k : Nat} (h : l.Kept solves inputs outputs k) {a : ProgramAction} {p : Program}
    {rest : List (List UInt8)} (hSolves : l.program.Solves solves a) (hStep : l.program.Step a p)
    (hArrives : arrivalsOf [a] ++ rest.map Inputs.ofPackage = l.toController.map Inputs.ofPackage) :
    Kept solves inputs outputs { l with toController := rest, program := p } k := by
  obtain ⟨actions, hRun, hSome⟩ := h.program
  refine ⟨h.serving, ⟨actions ++ [a], path_concat hRun ⟨hSolves, hStep⟩, ?_⟩, h.reported, h.members, h.published⟩
  rw [arrivalsOf, List.filterMap_append, List.append_assoc]
  exact hArrives ▸ hSome

theorem Kept.reached {l : Loop} {k : Nat} (h : l.Kept solves inputs outputs k) :
    Reached solves inputs outputs (sent l.robot) l.program.outputs := by
  obtain ⟨actions, hRun, hSome⟩ := h.program
  exact ⟨actions, l.program, hRun, (List.sublist_append_left _ _).trans hSome, rfl⟩

theorem sent_of_tells {b b' : Robot} {a : Action} (h : Tells b b' a) : ∃ more, sent b' = sent b ++ more := by
  cases h with
  | nothing same => exact ⟨[], same.trans (List.append_nil _).symm⟩
  | other x more => exact ⟨[x], more⟩
  | pose vs sendCode x action more => exact ⟨[x], more⟩

/-- A call of the robot. -/
theorem Kept.call {l : Loop} {k : Nat} (h : l.Kept solves inputs outputs k) {a : Action} {t : System}
    (hServes : serves a = true) (hStep : l.system.Step a t) :
    Kept solves inputs outputs { l with
      system := t, toController := l.toController ++ t.robot.packages.drop l.robot.packages.length }
      (k + if l.robot.handsOver a then 1 else 0) := by
  obtain ⟨hTells, hBelow⟩ := h.serving.tells hServes hStep
  obtain ⟨more, hMore⟩ := sent_of_tells hTells
  have hNew : (t.robot.packages.drop l.robot.packages.length).map Inputs.ofPackage = more := by
    have hLength : l.robot.packages.length = (sent l.robot).length := List.length_map .. |>.symm
    have hSent : t.robot.packages.map Inputs.ofPackage = sent l.robot ++ more := hMore
    rw [List.map_drop, hSent, hLength, List.drop_left]
  have hMono {o : Outputs} (hReached : Reached solves inputs outputs (sent l.robot) o) :
      Reached solves inputs outputs (sent t.robot) o := by
    rw [hMore]
    exact hReached.append more
  obtain ⟨actions, hRun, hSome⟩ := h.program
  refine ⟨h.serving.step (registers_of_serves hServes) hStep, ⟨actions, hRun, ?_⟩, ?_, ?_, ?_⟩
  · change (arrivalsOf actions ++ (l.toController ++ t.robot.packages.drop l.robot.packages.length).map
      Inputs.ofPackage).Sublist (sent t.robot)
    rw [List.map_append, hNew, ← List.append_assoc, hMore]
    exact hSome.append (List.Sublist.refl more)
  · intro package hMem
    obtain ⟨id, telemetry, o, hPackage, hReached⟩ := h.reported package hMem
    exact ⟨id, telemetry, o, hPackage, hMono hReached⟩
  · intro hFrames
    have hBefore : l.system.frames ≠ 0 := by
      rcases h.serving.publishes hServes hStep with ⟨-, -, hSame⟩ | ⟨hSome, -⟩
      · exact hSame ▸ hFrames
      · exact hSome
    obtain ⟨o, hReached, hHeld⟩ := h.members hBefore
    exact ⟨o, hMono hReached, hHeld.below hBelow⟩
  · rcases h.serving.publishes hServes hStep with ⟨hSeqnr, hState, -⟩ | ⟨hFrames, hSeqnr, hQRef⟩
    · refine h.published.imp hSeqnr.trans ?_
      rintro ⟨o, hReached, hSame, hState'⟩
      exact ⟨o, hMono hReached, hSeqnr.trans hSame, (congrArg _ hState).trans hState'⟩
    · obtain ⟨o, hReached, -, hHeldSeqnr, hHeldQRef⟩ := h.members hFrames
      exact Or.inr ⟨o, hMono hReached, hSeqnr.trans hHeldSeqnr, hQRef.trans hHeldQRef⟩

/-- The package in front is read by the robot. -/
theorem Kept.receive {l : Loop} {k : Nat} (h : l.Kept solves inputs outputs k) {package : List UInt8}
    {rest : List (List UInt8)} (hFront : l.toRobot = package :: rest) {ts : UInt64} {t : System}
    (hStep : l.system.Step (.takeFrame (some package) ts) t) :
    Kept solves inputs outputs { l with system := t, toRobot := rest } k ∧
      sent t.robot = sent l.robot ∧ Inputs.held t.robot.mem = Inputs.held l.robot.mem := by
  obtain ⟨id, telemetry, o, rfl, hReached⟩ := h.reported package (by rw [hFront]; exact List.mem_cons_self)
  have hServing := h.serving.step ⟨rfl, rfl⟩ hStep
  obtain ⟨⟨ok, b⟩, hTake, rfl⟩ := Option.map_eq_some_iff.mp hStep
  obtain ⟨hMembers, hInputs, hPackages, hSeqnr, hState⟩ := h.serving.receives hTake
  have hSent : sent b = sent l.robot := congrArg (List.map Inputs.ofPackage) hPackages
  refine ⟨⟨hServing, ?_, ?_, ?_, ?_⟩, hSent, hInputs⟩
  · change ∃ actions, _ ∧ (_ : List Inputs).Sublist (sent b)
    rw [hSent]
    exact h.program
  · change ∀ package ∈ rest, ∃ id t o, _ ∧ Reached solves inputs outputs (sent b) o
    rw [hSent]
    exact fun package hMem => h.reported package (by rw [hFront]; exact List.mem_cons_of_mem _ hMem)
  · intro hFrames
    change ∃ o, Reached solves inputs outputs (sent b) o ∧ Outputs.Held b.mem o
    rw [hSent]
    rcases hMembers with ⟨rfl, hMem⟩ | hHeld
    · rw [hMem]
      exact h.members hFrames
    · exact ⟨o, hReached, hHeld⟩
  · change b.qRefOutSeqnr = 0 ∨ ∃ o, Reached solves inputs outputs (sent b) o ∧
      b.qRefOutSeqnr = o.qRefSeqnr ∧ b.urState.jqRef = List.ofFn o.qRef
    rw [hSent, hSeqnr, hState]
    exact h.published

/-- What a step of the loop does, as far as the robot's side goes. -/
inductive Advances (l m : Loop) (k : Nat) (a : LoopAction) : Prop where
  | call (b : Action) (action : a = .call b) (tells : Tells l.robot m.robot b)
      (handed : k = if l.robot.handsOver b then 1 else 0)
  | aside (same : sent m.robot = sent l.robot) (held : Inputs.held m.robot.mem = Inputs.held l.robot.mem)
      (none : k = 0) (action : ∀ b, a ≠ .call b)

theorem Kept.step {l m : Loop} {k : Nat} {a : LoopAction} (h : l.Kept solves inputs outputs k)
    (hSolves : l.Solves solves a) (hStep : l.Step a m) :
    ∃ handed, m.Kept solves inputs outputs (k + handed) ∧ Advances l m handed a := by
  cases a with
  | call b =>
    simp only [Step, next] at hStep
    split at hStep
    · rename_i hServes
      obtain ⟨t, hNext, rfl⟩ := Option.map_eq_some_iff.mp hStep
      exact ⟨_, h.call hServes hNext, .call b rfl (h.serving.tells hServes hNext).1 rfl⟩
    · cases hStep
  | deliver =>
    simp only [Step, next] at hStep
    split at hStep
    · cases hStep
    · rename_i package rest hFront
      obtain ⟨p, hNext, rfl⟩ := Option.map_eq_some_iff.mp hStep
      have hSame : (Program.Solves solves l.program (.arrive (.ofPackage package))) := nofun
      refine ⟨0, h.programStep hSame hNext ?_, .aside rfl rfl rfl nofun⟩
      rw [hFront]
      rfl
  | lose =>
    simp only [Step, next] at hStep
    split at hStep
    · cases hStep
    · rename_i package rest hFront
      obtain rfl := Option.some.inj hStep
      obtain ⟨actions, hRun, hSome⟩ := h.program
      refine ⟨0, ⟨h.serving, ⟨actions, hRun, ?_⟩, h.reported, h.members, h.published⟩, .aside rfl rfl rfl nofun⟩
      refine List.Sublist.trans ?_ hSome
      rw [hFront]
      exact (List.Sublist.refl _).append (List.sublist_cons_self _ _)
  | thread b =>
    simp only [Step, next] at hStep
    split at hStep
    · rename_i hThread
      obtain ⟨p, hNext, rfl⟩ := Option.map_eq_some_iff.mp hStep
      have hNone : arrivalsOf [b] = [] := by
        cases b with
        | arrive | emit => cases hThread
        | main | speed | kin => rfl
      have hArrives : arrivalsOf [b] ++ l.toController.map Inputs.ofPackage = l.toController.map Inputs.ofPackage := by
        rw [hNone, List.nil_append]
      exact ⟨0, h.programStep (hSolves b rfl) hNext hArrives, .aside rfl rfl rfl nofun⟩
    · cases hStep
  | report id t =>
    obtain rfl := Option.some.inj hStep
    refine ⟨0, ⟨h.serving, h.program, ?_, h.members, h.published⟩, .aside rfl rfl rfl nofun⟩
    intro package hMem
    rcases List.mem_append.mp hMem with hOld | hNew
    · exact h.reported package hOld
    · exact ⟨id, t, _, List.mem_singleton.mp hNew, h.reached⟩
  | receive ts =>
    simp only [Step, next] at hStep
    split at hStep
    · cases hStep
    · rename_i package rest hFront
      obtain ⟨t, hNext, rfl⟩ := Option.map_eq_some_iff.mp hStep
      obtain ⟨hKept, hSent, hHeld⟩ := h.receive hFront hNext
      exact ⟨0, hKept, .aside hSent hHeld rfl nofun⟩

theorem Kept.run {l m : Loop} {k : Nat} {actions : List LoopAction} (h : l.Kept solves inputs outputs k)
    (hRun : Path (Restrict (Solves solves) Step) l actions m) : ∃ k', m.Kept solves inputs outputs k' := by
  induction hRun generalizing k with
  | nil => exact ⟨k, h⟩
  | cons head _ ih =>
    obtain ⟨handed, hNext, -⟩ := h.step head.1 head.2
    exact ih hNext

/-- No further pose command is given. -/
def KeepsPose (a : LoopAction) : Prop := ∀ vs sendCode, a ≠ .call (.calculateQRef vs sendCode)

/-- Without a pose command, what follows is no pose command and has the pose that was there. -/
theorem Kept.later {l m : Loop} {k : Nat} {actions : List LoopAction} (h : l.Kept solves inputs outputs k)
    (hRun : Path (Restrict (fun l a => l.Solves solves a ∧ KeepsPose a) Step) l actions m) :
    ∃ k' rest, m.Kept solves inputs outputs k' ∧ sent m.robot = sent l.robot ++ rest ∧
      (∀ y ∈ rest, y.cmd ≠ 3 ∧ y.tcpPose = (Inputs.held l.robot.mem).tcpPose) ∧
      (Inputs.held m.robot.mem).tcpPose = (Inputs.held l.robot.mem).tcpPose := by
  induction hRun generalizing k with
  | nil => exact ⟨k, [], h, (List.append_nil _).symm, nofun, rfl⟩
  | @cons l u m a actions head _ ih =>
    obtain ⟨handed, hNext, hAdvances⟩ := h.step head.1.1 head.2
    obtain ⟨k', rest, hEnd, hSent, hRest, hPose⟩ := ih hNext
    have hOne : ∃ more, sent u.robot = sent l.robot ++ more ∧
        (∀ y ∈ more, y.cmd ≠ 3 ∧ y.tcpPose = (Inputs.held l.robot.mem).tcpPose) ∧
        (Inputs.held u.robot.mem).tcpPose = (Inputs.held l.robot.mem).tcpPose := by
      cases hAdvances with
      | call b action tells =>
        cases tells with
        | nothing same kept => exact ⟨[], same.trans (List.append_nil _).symm, nofun, kept⟩
        | other x more cmd pose kept =>
          refine ⟨[x], more, ?_, kept⟩
          intro y hY
          obtain rfl := List.mem_singleton.mp hY
          exact ⟨cmd, pose⟩
        | pose vs sendCode x again => exact absurd (action.trans (congrArg _ again)) (head.1.2 vs sendCode)
      | aside same held => exact ⟨[], same.trans (List.append_nil _).symm, nofun, congrArg Inputs.tcpPose held⟩
    obtain ⟨more, hMore, hAll, hKept⟩ := hOne
    refine ⟨k', more ++ rest, hEnd, ?_, ?_, hPose.trans hKept⟩
    · rw [hSent, hMore, List.append_assoc]
    · intro y hY
      rcases List.mem_append.mp hY with hOld | hNew
      · exact hAll y hOld
      · exact ⟨(hRest y hNew).1, (hRest y hNew).2.trans hKept⟩

end Loop

end LibUrx.Controller
