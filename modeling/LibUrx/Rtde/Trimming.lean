import LibUrx.Base.Trim
import LibUrx.Rtde.Spelling

/-! # Trimming the items of an answer

`trim` looks for whitespace and then for end-of-text characters, at each end once. Where they come the other way
round, whitespace stays.
-/
namespace LibUrx.Rtde
open Bytes Text
set_option autoImplicit false

/-- All blanks at the ends are gone, so that trimming once more changes nothing, and blanks behind the name of its type
do not keep a token from knowing it. -/
structure Trimmed (s : List UInt8) : Prop where
  peeled : Peeled isBlank s (trim s)
  clear : Clear isBlank (trim s)
  again : trim (trim s) = trim s
  known : ∀ (tok : Token) (tail : List UInt8), tok.type ∈ typeOrder → (∀ c ∈ tail, isBlank c = true) →
    s = typeName tok.type ++ tail → tok.setResponseType s = true

theorem trim_eq (s : List UInt8) : trim s = trimBoth isSpace isEtx s := rfl

theorem not_isEtx_of_isSpace (c : UInt8) (h : isSpace c = true) : isEtx c = false := by
  apply Bool.eq_false_iff.mpr
  intro hEtx
  obtain rfl := beq_iff_eq.mp hEtx
  exact absurd h (by decide)

theorem clear_trim_iff (s : List UInt8) : Clear isBlank (trim s) ↔ Layered isSpace isEtx s := by
  rw [trim_eq]
  exact clear_trimBoth_iff not_isEtx_of_isSpace s

set_option maxRecDepth 10000 in
theorem firstBegun_typeName {type : DataType} (h : type ∈ typeOrder) : firstBegun (typeName type) = some type := by
  simp only [typeOrder, List.mem_cons, List.not_mem_nil, or_false] at h
  rcases h with rfl | rfl | rfl | rfl | rfl | rfl | rfl | rfl | rfl | rfl | rfl | rfl <;> decide

/-- A token knows its type behind any blanks that come in the order of `trim`, and behind no others. -/
theorem Token.setResponseType_iff {tok : Token} {tail : List UInt8} (hType : tok.type ∈ typeOrder)
    (hTail : ∀ c ∈ tail, isBlank c = true) : tok.setResponseType (typeName tok.type ++ tail) = true ↔
      Layered isSpace isEtx (typeName tok.type ++ tail) := by
  have hName : Clear isBlank (typeName tok.type) := Clear.of_forall (isBlank_of_mem_typeName tok.type)
  have hPeeled : Peeled isBlank (typeName tok.type ++ tail) (typeName tok.type) :=
    ⟨[], tail, rfl, fun c hMem => absurd hMem List.not_mem_nil, hTail⟩
  have hZero : 0 ∉ typeName tok.type ++ tail := by
    rw [List.mem_append, not_or]
    refine ⟨zero_notMem_typeName tok.type, fun hMem => ?_⟩
    exact absurd (hTail 0 hMem) (by decide)
  have hNe : tok.type ≠ .notFound := by
    intro hNone
    rw [hNone] at hType
    exact absurd hType (by decide)
  have hKnown : tok.setResponseType (typeName tok.type ++ tail) = true ↔
      firstBegun (trim (typeName tok.type ++ tail)) = some tok.type := by
    rw [setResponseType, beq_iff_eq]
    exact eq_itemType_iff (RtdeRecipe.zero_notMem_trim hZero) hNe
  rw [hKnown, ← clear_trim_iff]
  constructor
  · intro hBegun
    apply Clear.of_forall
    intro c hMem
    exact isBlank_of_mem_typeName tok.type c ((isPrefix_of_firstBegun hBegun).subset hMem)
  · intro hClear
    rw [← (peeled_trim _).strip_eq hClear, hPeeled.strip_eq hName]
    exact firstBegun_typeName hType

/-- All is trimmed if and only if end-of-text characters at the ends are inside and whitespace is outside. -/
theorem trimmed_iff (s : List UInt8) : Trimmed s ↔ Layered isSpace isEtx s := by
  constructor
  · exact fun h => (clear_trim_iff s).mp h.clear
  · intro hLayered
    have hClear := (clear_trim_iff s).mpr hLayered
    refine ⟨peeled_trim s, hClear, trimBoth_of_clear hClear, ?_⟩
    rintro tok tail hType hTail rfl
    exact (Token.setResponseType_iff hType hTail).mpr hLayered

/-- Whitespace in front of an end-of-text character. -/
theorem trim_leaves_blank : ¬ ∀ s, Trimmed s := by
  intro h
  have hLast := (h (text "DOUBLE \x03")).clear.last 32 (by decide)
  cases hLast

end LibUrx.Rtde
