import LibUrx.Rtde.SharedVariables

/-! # Measuring the round trip

The loop of `measure_roundtrip` between its handler and a controller whose program copies the first integer register
of the inputs to that of the outputs. What the tool finds out about its clock is the environment's choice.
-/
namespace LibUrx.Rtde
open Bytes Text Runs
set_option autoImplicit false

namespace RtdeRecipe

def listing (r : RtdeRecipe) : List (List UInt8 × DataType × Nat) :=
  r.fields.map fun tok => (tok.name, tok.type, tok.storage)

theorem Formed.values_eq {r : RtdeRecipe} (h : r.Formed) (m : Memory) :
    r.values m = r.listing.map fun e => (e.1, hostValue e.2.1 (m.read e.2.2 (rtdeDatasize e.2.1))) := by
  rw [values, listing, List.map_map]
  refine List.map_congr_left fun tok hMem => ?_
  rw [(h.wellTyped tok hMem).numBytes_eq]
  rfl

theorem Formed.targets_eq {r : RtdeRecipe} (h : r.Formed) :
    r.targets = (r.listing.map fun e => (e.2.2, rtdeDatasize e.2.1)) ++ r.tsNs.toList.map fun ts => (ts, 8) := by
  rw [targets, listing, List.map_map]
  refine congrArg (· ++ _) (List.map_congr_left fun tok hMem => ?_)
  rw [(h.wellTyped tok hMem).numBytes_eq]
  rfl

theorem Formed.read_parsedMemory {r : RtdeRecipe} (h : r.Formed) {a n : Nat}
    (hApart : ∀ target ∈ r.targets, Apart target.1 target.2 a n) (load : Buf) (ts : UInt64) (m : Memory) :
    (r.parsedMemory load ts m).read a n = m.read a n := by
  rw [parsedMemory, Memory.read_writeAll_of_apart]
  intro entry hEntry
  rcases List.mem_append.mp hEntry with hField | hStamp
  · refine decodedWrites_apart h.wellTyped (fun tok hTok => ?_) entry hField
    exact hApart (tok.storage, tok.numBytes) (List.mem_append_left _ (List.mem_map_of_mem hTok))
  · obtain ⟨ts, hTs, rfl⟩ := List.mem_map.mp hStamp
    have := hApart (ts, 8) (List.mem_append_right _ (List.mem_map_of_mem hTs))
    rwa [length_leBytes]

end RtdeRecipe

/-- Receiving touches nothing but what the fields of the output recipe point to. -/
theorem World.read_recv {w w' : World} {i : Nat} (hOut : w.out = some i) (hFormed : (w.recipes i).Formed)
    (hDir : (w.recipes i).dirOut = true) {a n : Nat}
    (hApart : ∀ target ∈ (w.recipes i).targets, Apart target.1 target.2 a n) {reply : Option (List UInt8)} {ts : UInt64}
    (hStep : HandlerStep w (.recv reply ts) w') : w'.mem.read a n = w.mem.read a n := by
  cases hStep with
  | recv hRecv =>
    cases reply with
    | none =>
      obtain ⟨-, rfl⟩ := Prod.mk.inj (Option.some.inj hRecv)
      rfl
    | some bytes =>
      rw [recv_some] at hRecv
      by_cases hAccepts : Accepts (w.recipes i) (doRecv w.buffer packetBytes (some bytes)).2
      · rw [parseIncomingData_accepted hOut hFormed hDir hAccepts] at hRecv
        obtain ⟨-, rfl⟩ := Prod.mk.inj (Option.some.inj hRecv)
        exact hFormed.read_parsedMemory hApart _ _ _
      · rw [parseIncomingData_refused hOut hAccepts] at hRecv
        obtain ⟨-, rfl⟩ := Prod.mk.inj (Option.some.inj hRecv)
        rfl

end LibUrx.Rtde

namespace LibUrx.Tools
open Bytes Text Rtde Runs
set_option autoImplicit false

/-- The variables that the recipes of the tool point to. -/
structure Locals where
  ts : Nat
  outSeqnr : Nat
  inSeqnr : Nat
  stampOut : Apart ts 8 outSeqnr 4
  stampIn : Apart ts 8 inSeqnr 4
  outIn : Apart outSeqnr 4 inSeqnr 4

/-- One after the other. -/
def tool : Locals where
  ts := 8
  outSeqnr := 16
  inSeqnr := 20
  stampOut := Or.inl le_rfl
  stampIn := Or.inl (by decide)
  outIn := Or.inl le_rfl

abbrev Number := Option WireValue

def numberAt (m : Memory) (a : Nat) : Number := hostValue .int32 (m.read a 4)

def inRegister : List UInt8 := text "input_int_register_0"

def outRegister : List UInt8 := text "output_int_register_0"

/-- Where the loop stands: in its head, at `again`, behind the call of `send`, or behind its end. -/
inductive Place where
  | count | again | waiting | ended
  deriving DecidableEq

inductive RoundtripEvent where
  | begun (v : Number)
  | sent (v : Number)
  | read (v : Number)
  | wrote (v : Number)
  | reported (v : Number)
  | sampled (v : Number)

/-- The controller's program holds the number it has read, and its output register shows the one it has written. -/
structure Roundtrip where
  session : Session
  place : Place
  trips : Nat
  errCtr : Int
  samples : List (Int × Option WireValue)
  held : Number
  shown : Number
  history : List RoundtripEvent

inductive RoundtripAction where
  | finish
  | count
  | send (sendCode : Int)
  | recv (reply : Option (List UInt8)) (rxTs : UInt64) (endUs : Int)
  | reads
  | writes
  | report
  | lose

namespace Roundtrip

def memory (s : Roundtrip) : Memory := s.session.world.mem

/-- The end of a trip: another attempt, or a sample. -/
def compared (l : Locals) (s : Roundtrip) (t : Session) (endUs : Int) : Roundtrip :=
  if numberAt t.world.mem l.inSeqnr ≠ numberAt t.world.mem l.outSeqnr then { s with session := t, place := .again }
  else { s with
    session := t
    place := .count
    errCtr := 100
    samples := s.samples ++ [(endUs, hostValue .double (t.world.mem.read l.ts 8))]
    history := s.history ++ [.sampled (numberAt t.world.mem l.inSeqnr)] }

/-- `id` is the id of the input recipe. What `send` and `recv` return is not looked at. -/
inductive Step (l : Locals) (id : Int) (s : Roundtrip) : RoundtripAction → Roundtrip → Prop where
  | finish (place : s.place = .count) (trips : s.trips = 0) : Step l id s .finish { s with place := .ended }
  | count {n : Nat} {t : Session} (place : s.place = .count) (trips : s.trips = n + 1)
      (done : s.session.Step
        (.call (.assign l.inSeqnr (leBytes 4 (leNat (s.memory.read l.inSeqnr 4) + 1)))) t) :
      Step l id s .count { s with
        session := t
        trips := n
        place := .again
        history := s.history ++ [.begun (numberAt t.world.mem l.inSeqnr)] }
  | send {sendCode : Int} {t : Session} (place : s.place = .again)
      (done : s.session.Step (.call (.send id sendCode)) t) :
      Step l id s (.send sendCode) { s with
        session := t
        errCtr := s.errCtr - 1
        place := if s.errCtr - 1 < 0 then .ended else .waiting
        history := s.history ++ if 0 < sendCode then [.sent (numberAt s.memory l.inSeqnr)] else [] }
  | recv {reply : Option (List UInt8)} {rxTs : UInt64} {t : Session} (place : s.place = .waiting)
      (done : s.session.Step (.call (.recv reply rxTs)) t) (endUs : Int) :
      Step l id s (.recv reply rxTs endUs) (compared l s t endUs)
  | reads : Step l id s .reads { s with
      held := s.session.peer.registers inRegister
      history := s.history ++ [.read (s.session.peer.registers inRegister)] }
  | writes : Step l id s .writes { s with shown := s.held, history := s.history ++ [.wrote s.held] }
  | report {id' : UInt8} {known : Variables} {frame : List UInt8} (reports : s.session.peer.Reports id' known frame)
      (filed : s.session.peer.outputs id' ≠ none) (shows : known outRegister = s.shown) :
      Step l id s .report { s with
        session := { s.session with toHandler := s.session.toHandler ++ [⟨frame, some (id', known)⟩] }
        history := s.history ++ [.reported s.shown] }
  | lose {t : Session} (done : s.session.Step .lose t) : Step l id s .lose { s with session := t }

theorem Step.sampled {l : Locals} {id : Int} {s : Roundtrip} {t : Session} {reply : Option (List UInt8)} {rxTs : UInt64}
    (hPlace : s.place = .waiting) (hDone : s.session.Step (.call (.recv reply rxTs)) t) (endUs : Int)
    (hSame : numberAt t.world.mem l.inSeqnr = numberAt t.world.mem l.outSeqnr) :
    Step l id s (.recv reply rxTs endUs) { s with
      session := t
      place := .count
      errCtr := 100
      samples := s.samples ++ [(endUs, hostValue .double (t.world.mem.read l.ts 8))]
      history := s.history ++ [.sampled (numberAt t.world.mem l.inSeqnr)] } := by
  refine Eq.mp (congrArg (Step l id s _) ?_) (.recv hPlace hDone endUs)
  exact if_neg (not_not.mpr hSame)

end Roundtrip

end LibUrx.Tools
