import LibUrx.Rtde.DataPackage

/-! # Which cells a reception writes -/
namespace LibUrx.Rtde
open Bytes Text
set_option autoImplicit false

def Token.Covers (tok : Token) (i : Nat) : Prop := tok.storage ≤ i ∧ i < tok.storage + tok.numBytes

theorem Token.WellTyped.written_assignments {tok : Token} (h : tok.WellTyped) (buf : Buf) (m : Memory) (i : Nat) :
    (m.writeAll (tok.assignments buf)).written i = true ↔ tok.Covers i ∨ m.written i = true := by
  obtain ⟨bss, -, hBlocks, hLength, -⟩ := h.assignments_spec buf []
  rw [hBlocks, Memory.written_writeAll_blocks, hLength]
  rfl

theorem written_decodedWrites {fields : List Token} (hTyped : ∀ tok ∈ fields, tok.WellTyped) (buf : Buf) (m : Memory)
    (i : Nat) : (m.writeAll (decodedWrites fields buf)).written i = true ↔
      (∃ tok ∈ fields, tok.Covers i) ∨ m.written i = true := by
  induction fields generalizing m with
  | nil => simp [decodedWrites]
  | cons tok rest ih =>
    rw [writeAll_decodedWrites_cons, ih (List.forall_mem_of_forall_mem_cons hTyped),
      (hTyped tok List.mem_cons_self).written_assignments]
    simp only [List.mem_cons, exists_eq_or_imp, or_assoc]
    exact or_left_comm

theorem RtdeRecipe.written_parsedMemory {r : RtdeRecipe} (h : r.Formed) (hTs : r.tsNs = none) (load : Buf)
    (ts : UInt64) (m : Memory) (i : Nat) : (r.parsedMemory load ts m).written i = true ↔
      (∃ tok ∈ r.fields, tok.Covers i) ∨ m.written i = true := by
  rw [parsedMemory, hTs]
  simpa using written_decodedWrites h.wellTyped load m i

namespace World

/-- A reception succeeds with a package for the output recipe, or it writes nothing. -/
theorem recv_cases {w w' : World} {reply : Option (List UInt8)} {ts : UInt64} {ok : Bool}
    (hOut : ∀ i, w.out = some i → (w.recipes i).Formed ∧ (w.recipes i).dirOut = true)
    (h : w.recv reply ts = some (ok, w')) :
    (ok = false ∧ w'.mem = w.mem) ∨
      (ok = true ∧ ∃ i load, w.out = some i ∧ w'.mem = (w.recipes i).parsedMemory load ts w.mem) := by
  cases reply with
  | none =>
    obtain ⟨rfl, rfl⟩ := Prod.mk.inj (Option.some.inj h)
    exact Or.inl ⟨rfl, rfl⟩
  | some bytes =>
    rw [recv_some] at h
    obtain ⟨⟨taken, buffer, mem⟩, hParse, hSame⟩ := Option.map_eq_some_iff.mp h
    obtain ⟨rfl, rfl⟩ := Prod.mk.inj hSame
    cases hSource : w.out with
    | none =>
      simp only [parseIncomingData, hSource] at hParse
      split at hParse
      · cases hParse
        exact Or.inl ⟨rfl, rfl⟩
      · cases hParse
    | some i =>
      obtain ⟨hFormed, hDir⟩ := hOut i hSource
      cases Classical.em (Accepts (w.recipes i) (doRecv w.buffer packetBytes (some bytes)).2) with
      | inl hTaken =>
        rw [parseIncomingData_accepted hSource hFormed hDir hTaken] at hParse
        cases hParse
        exact Or.inr ⟨rfl, i, _, rfl, rfl⟩
      | inr hRefused =>
        rw [parseIncomingData_refused hSource hRefused] at hParse
        cases hParse
        exact Or.inl ⟨rfl, rfl⟩

end World

end LibUrx.Rtde
