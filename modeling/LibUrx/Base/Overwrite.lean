import LibUrx.Base.Bytes

/-! # Functions that overwrite parts of a buffer

What such a function writes, and where, does not depend on what it writes over. Doing it again changes
nothing.
-/
namespace LibUrx.Bytes
set_option autoImplicit false

def Overwrites (f : Buf → Buf) : Prop := ∃ values : Nat → Option UInt8, ∀ buf i, f buf i = (values i).getD (buf i)

theorem overwrites_id : Overwrites fun buf => buf := ⟨fun _ => none, fun _ _ => rfl⟩

theorem overwrites_patch (off : Nat) (bs : List UInt8) : Overwrites fun buf => patch buf off bs := by
  refine ⟨fun i => if off ≤ i then bs[i - off]? else none, ?_⟩
  intro buf i
  by_cases h : off ≤ i <;> simp [patch, h]

namespace Overwrites

variable {f g : Buf → Buf}

theorem comp (hg : Overwrites g) (hf : Overwrites f) : Overwrites fun buf => g (f buf) := by
  obtain ⟨first, hFirst⟩ := hf
  obtain ⟨second, hSecond⟩ := hg
  refine ⟨fun i => (second i).or (first i), ?_⟩
  intro buf i
  dsimp only
  rw [hSecond, hFirst]
  cases second i <;> rfl

theorem idempotent (h : Overwrites f) (buf : Buf) : f (f buf) = f buf := by
  obtain ⟨values, hValues⟩ := h
  funext i
  rw [hValues (f buf), hValues buf]
  cases values i <;> rfl

end Overwrites

end LibUrx.Bytes
