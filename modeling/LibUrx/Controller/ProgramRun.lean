import LibUrx.Base.Histories
import LibUrx.Controller.Program

/-! # Runs of the program on the controller

The main thread takes commands in the order of their packages, the moving thread moves with what was newest when it
last looked, and a stop ends all three threads. Nothing is assumed about when packages come in.
-/
namespace LibUrx.Controller
open Runs Histories
set_option autoImplicit false

structure Execution where
  program : Program
  history : List ProgramEvent

def stopPackage (seqnr : UInt32) : Inputs := ⟨seqnr, 1, zeros, zeros⟩

def speedPackage (seqnr : UInt32) (qd : Vec) : Inputs := ⟨seqnr, 2, qd, zeros⟩

def posePackage (seqnr : UInt32) (tcpPose : Vec) : Inputs := ⟨seqnr, 3, zeros, tcpPose⟩

namespace ProgramEvent

def arrival : ProgramEvent → Option Inputs
  | .arrived x => some x
  | _ => none

def poll : ProgramEvent → Option UInt32
  | .polled seqnr => some seqnr
  | _ => none

/-- What the main thread leaves to the moving thread. -/
def velocity : ProgramEvent → Option Vec
  | .tookSpeeds qd => some qd
  | _ => none

def motion : ProgramEvent → Option Vec
  | .moved qd => some qd
  | _ => none

/-- The events of the main thread. -/
def command : ProgramEvent → Bool
  | .polled _ | .stopped | .tookSpeeds _ | .tookPose _ _ => true
  | .arrived _ | .emitted _ | .moved _ | .halted => false

end ProgramEvent

namespace Execution

def start (inputs : Inputs) (outputs : Outputs) : Execution := ⟨.new inputs outputs, []⟩

def next (e : Execution) (a : ProgramAction) : Option Execution :=
  (e.program.next a).map fun p => ⟨p, e.history ++ e.program.told a⟩

def Step (e : Execution) (a : ProgramAction) (f : Execution) : Prop := e.next a = some f

def arrivals (e : Execution) : List Inputs := e.history.filterMap ProgramEvent.arrival

def polls (e : Execution) : List UInt32 := e.history.filterMap ProgramEvent.poll

/-- What a step does to the program and to its history. -/
inductive Moves (e : Execution) : ProgramAction → Execution → Prop where
  | arrives (x : Inputs) : Moves e (.arrive x) ⟨{ e.program with inputs := x }, e.history ++ [.arrived x]⟩
  | emits : Moves e .emit ⟨e.program, e.history ++ [.emitted e.program.outputs]⟩
  | main {told : List ProgramEvent} {q : Program} (moves : e.program.MainMoves told q) :
      Moves e .main ⟨q, e.history ++ told⟩
  | speed {told : List ProgramEvent} {q : Program} (moves : e.program.SpeedMoves told q) :
      Moves e .speed ⟨q, e.history ++ told⟩
  | kin (solution : Vec) {q : Program} (moves : e.program.KinMoves solution q) :
      Moves e (.kin solution) ⟨q, e.history⟩

theorem moves_of_step {e f : Execution} {a : ProgramAction} (h : Step e a f) : Moves e a f := by
  obtain ⟨q, hNext, rfl⟩ := Option.map_eq_some_iff.mp h
  cases a with
  | arrive x =>
    obtain rfl := Option.some.inj hNext
    exact .arrives x
  | emit =>
    obtain rfl := Option.some.inj hNext
    exact .emits
  | main => exact .main (Program.mainMoves_of_main hNext)
  | speed => exact .speed (Program.speedMoves_of_speed hNext)
  | kin solution =>
    have hMoves := Moves.kin (e := e) solution (Program.kinMoves_of_kin hNext)
    rwa [← List.append_nil e.history] at hMoves

/-- An invariant of the steps holds after every run from the start. -/
theorem invariant {p : Execution → Prop} {inputs : Inputs} {outputs : Outputs} {e : Execution}
    {actions : List ProgramAction} (hRun : Path Step (start inputs outputs) actions e) (hStart : p (start inputs outputs))
    (hMoves : ∀ e a f, p e → Moves e a f → p f) : p e :=
  hRun.invariant (fun e a f hKept hStep => hMoves e a f hKept (moves_of_step hStep)) hStart

end Execution

end LibUrx.Controller
