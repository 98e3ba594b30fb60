import Mathlib.Data.List.Basic

/-! # Frames in a stream

A frame begins with its size. A reader takes a frame off the stream as soon as all of it is there, and keeps what is
left until more comes in.
-/
namespace LibUrx.Framing
set_option autoImplicit false

/-- How the first items of a frame tell its size. What they tell does not change when more items come in. -/
structure Format (α : Type) where
  size : List α → Option Nat
  stable : ∀ s t n, size s = some n → size (s ++ t) = some n

variable {α : Type} (F : Format α)

namespace Format

def Whole (frame : List α) : Prop := frame ≠ [] ∧ F.size frame = some frame.length

/-- The frame in front of the stream, if it is there, and the rest. -/
def next (s : List α) : Option (List α × List α) :=
  (F.size s).bind fun n => if 0 < n ∧ n ≤ s.length then some (s.take n, s.drop n) else none

variable {F}

theorem next_eq_some_iff {s frame rest : List α} :
    F.next s = some (frame, rest) ↔ s = frame ++ rest ∧ frame ≠ [] ∧ F.size s = some frame.length := by
  rw [next, Option.bind_eq_some_iff]
  constructor
  · rintro ⟨n, hSize, hNext⟩
    split at hNext
    · rename_i hFits
      obtain ⟨rfl, rfl⟩ := Prod.mk.inj (Option.some.inj hNext)
      have hLength : (s.take n).length = n := List.length_take_of_le hFits.2
      refine ⟨(List.take_append_drop n s).symm, ?_, by rw [hSize, hLength]⟩
      exact List.ne_nil_of_length_pos (hLength.symm ▸ hFits.1)
    · cases hNext
  · rintro ⟨rfl, hNe, hSize⟩
    refine ⟨_, hSize, ?_⟩
    rw [if_pos ⟨List.length_pos_of_ne_nil hNe, by simp⟩, List.take_left, List.drop_left]

theorem Whole.next {frame : List α} (h : F.Whole frame) (rest : List α) :
    F.next (frame ++ rest) = some (frame, rest) :=
  next_eq_some_iff.mpr ⟨rfl, h.1, F.stable _ _ _ h.2⟩

theorem length_of_next {s frame rest : List α} (h : F.next s = some (frame, rest)) : rest.length < s.length := by
  obtain ⟨rfl, hNe, -⟩ := next_eq_some_iff.mp h
  have := List.length_pos_of_ne_nil hNe
  rw [List.length_append]
  omega

variable (F)

/-- The frames that a stream begins with, and what is left. -/
def read (s : List α) : List (List α) × List α :=
  match hNext : F.next s with
  | none => ([], s)
  | some (frame, rest) =>
    have := length_of_next hNext
    (frame :: (read rest).1, (read rest).2)
termination_by s.length

variable {F}

section Cut

variable {frame : List α} {n : Nat} (h : F.Whole frame) (hKnown : F.size (frame.take n) ≠ none)
include h hKnown

end Cut

end Format

end LibUrx.Framing
