import LibUrx.Base.Split
import LibUrx.Rtde.HandlerRun
import LibUrx.Rtde.Requests

/-! # The list of a recipe's fields as text

The text is built with a comma behind every name, and the last comma is taken off again.
-/
namespace LibUrx.Rtde
open Bytes Text
set_option autoImplicit false

namespace RtdeRecipe

/-- The text of the fields can be built, and the names are read back from it. -/
def Lists (r : RtdeRecipe) : Prop :=
  ∃ names, r.getFields = some names ∧
    if r.fields = [] then names = [] else names.splitOn comma = r.fields.map Token.name

def CommaFree (r : RtdeRecipe) : Prop := ∀ tok ∈ r.fields, comma ∉ tok.name

instance (r : RtdeRecipe) : Decidable r.CommaFree := inferInstanceAs (Decidable (∀ tok ∈ r.fields, comma ∉ tok.name))

theorem getFields_of_nil {r : RtdeRecipe} (h : r.fields = []) : r.getFields = none := by
  rw [getFields, h]
  rfl

theorem lists_iff (r : RtdeRecipe) : r.Lists ↔ r.fields ≠ [] ∧ r.CommaFree := by
  by_cases hFields : r.fields = []
  · apply iff_of_false
    · rintro ⟨names, hNames, -⟩
      rw [getFields_of_nil hFields] at hNames
      cases hNames
    · exact fun h => h.1 hFields
  · have hNames : r.fields.map Token.name ≠ [] := fun hNil => hFields (List.map_eq_nil_iff.mp hNil)
    rw [Lists, getFields_eq hFields, and_iff_right hFields]
    simp only [Option.some.injEq, exists_eq_left', if_neg hFields, fieldNames, splitOn_intercalate_iff hNames,
      List.forall_mem_map]
    rfl

end RtdeRecipe

namespace World

/-- Registering goes through the text of the fields, and the text is as it should be. -/
def RegistersListed (w : World) (i : Nat) (g : Registration) : Prop :=
  (∃ result, w.registerRecipe i g = some result) ∧ (w.recipes i).Lists

theorem registerRecipe_defined_iff (w : World) (i : Nat) (g : Registration) :
    (∃ result, w.registerRecipe i g = some result) ↔ (w.recipes i).fields ≠ [] := by
  constructor
  · rintro ⟨⟨ok, w'⟩, hRegister⟩ hFields
    obtain ⟨packet, r, hMsg, -⟩ := registerRecipe_cases hRegister
    rw [RtdeRecipe.getMsg, RtdeRecipe.getFields_of_nil hFields] at hMsg
    cases hMsg
  · intro hFields
    obtain ⟨packet, r, hMsg⟩ : ∃ packet r, (w.recipes i).getMsg = some (packet, r) :=
      ⟨_, RtdeRecipe.getMsg_eq hFields⟩
    rw [registerRecipe, hMsg]
    dsimp only
    split
    · exact ⟨_, rfl⟩
    · split
      · exact ⟨_, rfl⟩
      · split
        · exact ⟨_, rfl⟩
        · exact ⟨_, rfl⟩

theorem registersListed_iff (w : World) (i : Nat) (g : Registration) :
    w.RegistersListed i g ↔ (w.recipes i).fields ≠ [] ∧ (w.recipes i).CommaFree := by
  rw [RegistersListed, registerRecipe_defined_iff, RtdeRecipe.lists_iff]
  exact and_iff_right_of_imp And.left

end World

namespace RtdeRecipe

set_option maxRecDepth 100000 in
theorem comma_notMem_names : ∀ e ∈ rtdeOutputNames ++ rtdeInputNames, comma ∉ e.name := by decide +kernel

theorem comma_notMem_cStr {names : List DataName} (hNames : ∀ e ∈ names, comma ∉ e.name) {name : List UInt8} {idx : Nat}
    (h : nameToIdx names name = some idx) : comma ∉ cStr name := by
  obtain ⟨hIdx, hFound, -⟩ := List.findIdx?_eq_some_iff_getElem.mp h
  rw [beq_iff_eq.mp hFound]
  exact hNames _ (List.getElem_mem hIdx)

/-- A name is taken for what stands before its first zero byte. -/
theorem comma_notMem_of_addField {r r' : RtdeRecipe} {name : List UInt8} {storage : Nat}
    (h : r.addField name storage = (true, r')) : comma ∉ cStr name := by
  have hOut : ∀ e ∈ rtdeOutputNames, comma ∉ e.name := fun e hMem => comma_notMem_names e (List.mem_append_left _ hMem)
  have hIn : ∀ e ∈ rtdeInputNames, comma ∉ e.name := fun e hMem => comma_notMem_names e (List.mem_append_right _ hMem)
  unfold addField at h
  split at h
  · cases h
  · cases hDir : r.dirOut with
    | true =>
      cases hIdx : outputNameToIdx name with
      | none => simp [hDir, hIdx] at h
      | some idx => exact comma_notMem_cStr hOut hIdx
    | false =>
      cases hIdx : inputNameToIdx name with
      | none => simp [hDir, hIdx] at h
      | some idx => exact comma_notMem_cStr hIn hIdx

/-- The names up to their first zero byte have no comma. -/
def PlainNames (r : RtdeRecipe) : Prop := ∀ tok ∈ r.fields, comma ∉ cStr tok.name

theorem Called.plainNames {r r' : RtdeRecipe} {c : RecipeCall} (hCalled : r.Called c r') (h : r.PlainNames) :
    r'.PlainNames := by
  cases hCalled with
  | same | turned | tracked | answered => exact h
  | cleared => exact fun tok hMem => absurd hMem List.not_mem_nil
  | added hAdd =>
    have hName := comma_notMem_of_addField hAdd
    obtain ⟨tok, -, -, rfl, -, -, hSame⟩ := addField_eq_true hAdd
    rw [hSame]
    intro t hMem
    cases List.mem_append.mp hMem with
    | inl hOld => exact h t hOld
    | inr hNew => exact List.mem_singleton.mp hNew ▸ hName

theorem plainNames_afterCalls (m : Memory) (calls : List RecipeCall) : (afterCalls m calls).PlainNames := by
  induction calls using List.reverseRecOn with
  | nil => exact fun tok hMem => absurd hMem List.not_mem_nil
  | append_singleton before c ih =>
    rw [afterCalls, List.foldl_concat]
    exact (called_call _ c).plainNames ih

theorem commaFree_afterCalls {m : Memory} {calls : List RecipeCall}
    (hZero : ∀ tok ∈ (afterCalls m calls).fields, 0 ∉ tok.name) : (afterCalls m calls).CommaFree := by
  intro tok hMem
  have hName := plainNames_afterCalls m calls tok hMem
  rwa [cStr_eq_self_iff.mpr (hZero tok hMem)] at hName

end RtdeRecipe

/-- The names of a recipe are listed exactly if it has some, and none with a comma; a comma can only be in a name
that has a zero byte before it. It is the same when the recipe is registered. -/
theorem field_list_iff (m : Memory) (calls : List RecipeCall) :
    ((RtdeRecipe.afterCalls m calls).Lists ↔
      (RtdeRecipe.afterCalls m calls).fields ≠ [] ∧ (RtdeRecipe.afterCalls m calls).CommaFree) ∧
    (∀ (w : World) (i : Nat) (g : Registration),
      (w.setRecipe i (RtdeRecipe.afterCalls m calls)).RegistersListed i g ↔
        (RtdeRecipe.afterCalls m calls).fields ≠ [] ∧ (RtdeRecipe.afterCalls m calls).CommaFree) ∧
    ((∀ tok ∈ (RtdeRecipe.afterCalls m calls).fields, 0 ∉ tok.name) → (RtdeRecipe.afterCalls m calls).CommaFree) := by
  refine ⟨RtdeRecipe.lists_iff _, fun w i g => ?_, RtdeRecipe.commaFree_afterCalls⟩
  rw [World.registersListed_iff, World.setRecipe_self]

/-- A new recipe has no fields, and from the empty text a character is taken. -/
theorem no_fields_no_list : ¬ ∀ (m : Memory) (calls : List RecipeCall), (RtdeRecipe.afterCalls m calls).Lists := by
  intro h
  obtain ⟨names, hNames, -⟩ := h ⟨fun _ => 0, []⟩ []
  rw [RtdeRecipe.getFields_of_nil rfl] at hNames
  cases hNames

end LibUrx.Rtde
