import LibUrx.Rtde.TypeList

/-! # Answers that a recipe takes

The names of the types in the order of the fields are taken, also with the end-of-text character that
some controllers send behind them. An answer that is not taken leaves the recipe as it was.
-/
namespace LibUrx.Rtde
open Bytes Text
set_option autoImplicit false

def etx : UInt8 := 3

/-- The type that a recipe reads off an item of an answer. -/
def itemType (item : List UInt8) : DataType := dataNameToType (trim item) (cStr (trim item)).length

/-- The names of the types, with `tail` behind the last one. -/
def closingItems (tail : List UInt8) : List DataType → List (List UInt8)
  | [] => []
  | [type] => [typeName type ++ tail]
  | type :: next :: rest => typeName type :: closingItems tail (next :: rest)

/-- How the name of a type may stand at the end of an answer. -/
structure Closing (type : DataType) (item : List UInt8) : Prop where
  separable : Item item
  checked : isTypeName item.dropLast = true
  read : itemType item = type

section Closing

variable {tail : List UInt8} (hTail : tail = [] ∨ tail = [etx])

include hTail

set_option maxRecDepth 10000 in
theorem closing_typeName {type : DataType} (h : type ∈ outputTypes) : Closing type (typeName type ++ tail) := by
  simp only [outputTypes, List.mem_cons, List.not_mem_nil, or_false] at h
  rcases h with rfl | rfl | rfl | rfl | rfl | rfl | rfl | rfl | rfl <;> rcases hTail with rfl | rfl <;>
    exact ⟨⟨by decide, by decide, by decide⟩, by decide, by decide⟩

theorem item_of_mem_closingItems {types : List DataType} (h : ∀ type ∈ types, type ∈ outputTypes) :
    ∀ item ∈ closingItems tail types, Item item := by
  intro item hMem
  induction types using closingItems.induct with
  | case1 => exact absurd hMem List.not_mem_nil
  | case2 type =>
    rw [List.mem_singleton.mp hMem]
    exact (closing_typeName hTail (h type List.mem_cons_self)).separable
  | case3 type next rest ih =>
    cases List.mem_cons.mp hMem with
    | inl hFirst => exact hFirst ▸ item_typeName type
    | inr hRest => exact ih (List.forall_mem_of_forall_mem_cons h) hRest

theorem checkedItems_closingItems {types : List DataType} (h : ∀ type ∈ types, type ∈ outputTypes) :
    checkedItems (closingItems tail types) = true := by
  induction types using closingItems.induct with
  | case1 => rfl
  | case2 type => exact (closing_typeName hTail (h type List.mem_cons_self)).checked
  | case3 type next rest ih =>
    have hRest := ih (List.forall_mem_of_forall_mem_cons h)
    have hFirst := (spelled_typeName (h type List.mem_cons_self)).whole
    cases rest <;> exact (Bool.and_eq_true _ _).mpr ⟨hFirst, hRest⟩

theorem forall₂_closingItems {types : List DataType} (h : ∀ type ∈ types, type ∈ outputTypes) :
    List.Forall₂ (fun type item => type = itemType item) types (closingItems tail types) := by
  induction types using closingItems.induct with
  | case1 => exact .nil
  | case2 type => exact .cons (closing_typeName hTail (h type List.mem_cons_self)).read.symm .nil
  | case3 type next rest ih =>
    have hRest := ih (List.forall_mem_of_forall_mem_cons h)
    exact .cons (dataNameToType_typeName (h type List.mem_cons_self)).symm hRest

end Closing

theorem intercalate_closingItems (tail : List UInt8) {types : List DataType} (hNe : types ≠ []) :
    [comma].intercalate (closingItems tail types) = typeNames types ++ tail := by
  induction types using closingItems.induct with
  | case1 => exact absurd rfl hNe
  | case2 type => rw [closingItems, typeNames, List.map_singleton, List.intercalate_singleton, List.intercalate_singleton]
  | case3 type next rest ih =>
    obtain ⟨item, items, hItems⟩ : ∃ item items, closingItems tail (next :: rest) = item :: items := by
      cases rest <;> exact ⟨_, _, rfl⟩
    have hRest := ih (by simp)
    rw [hItems] at hRest
    rw [closingItems, hItems, List.intercalate_cons_cons, hRest, typeNames, typeNames, List.map_cons, List.map_cons,
      List.map_cons, List.intercalate_cons_cons, List.append_assoc (_ ++ _)]

namespace RtdeRecipe

variable {r : RtdeRecipe} {resp : Buf}

theorem named_iff (r : RtdeRecipe) (names : List UInt8) :
    r.Named names ↔ List.Forall₂ (fun type item => type = itemType item) r.types (getlines comma names) := by
  rw [types, List.forall₂_map_left_iff, List.forall₂_iff_zip, Named, List.all_eq_true]
  apply and_congr eq_comm
  constructor
  · intro h tok item hMem
    exact beq_iff_eq.mp (h (tok, item) hMem)
  · rintro h ⟨tok, item⟩ hMem
    exact beq_iff_eq.mpr (h hMem)

theorem registerResponse_of_accepted (h : (r.registerResponse resp).1 = true) :
    r.registerResponse resp = (true, r.bearing (hdrRecipeId resp).toNat) := by
  cases r.registerResponse_cases resp with
  | inl hRefused => simp [hRefused] at h
  | inr hTaken => exact hTaken

theorem registerResponse_of_refused (h : (r.registerResponse resp).1 = false) : (r.registerResponse resp).2 = r := by
  cases r.registerResponse_cases resp with
  | inl hRefused => rw [hRefused]
  | inr hTaken => simp [hTaken] at h

theorem Formed.takes (h : r.Formed) (hFields : r.fields ≠ []) {tail : List UInt8}
    (hTail : tail = [] ∨ tail = [etx]) (hAnswer : SetupAnswer resp 4 (typeNames r.types ++ tail)) :
    (r.registerResponse resp).1 = true := by
  have hTypes : r.types ≠ [] := by simpa [types] using hFields
  have hAllowed : ∀ type ∈ r.types, type ∈ outputTypes := fun type hMem => h.mem_outputTypes hMem
  have hItems := item_of_mem_closingItems hTail hAllowed
  have hItemsNe : closingItems tail r.types ≠ [] := by
    intro hNil
    have hRead := forall₂_closingItems hTail hAllowed
    rw [hNil] at hRead
    exact hTypes (List.forall₂_nil_right_iff.mp hRead)
  rw [← intercalate_closingItems tail hTypes] at hAnswer
  rw [registerResponse_iff]
  constructor
  · rw [hAnswer.respValidate_eq hItemsNe hItems]
    exact checkedItems_closingItems hTail hAllowed
  · have hZero : 0 ∉ [comma].intercalate (closingItems tail r.types) :=
      notMem_intercalate (by decide) fun item hMem => (hItems item hMem).zero
    have hFits : 4 + ([comma].intercalate (closingItems tail r.types)).length < packetBytes := by
      rw [← hAnswer.size]
      exact hAnswer.small.trans_lt (by decide)
    have hRead : getlines comma ([comma].intercalate (closingItems tail r.types)) = closingItems tail r.types := by
      apply getlines_intercalate fun item hMem => (hItems item hMem).comma
      intro item hMem
      exact List.ne_nil_of_length_pos (Nat.zero_lt_of_lt (hItems item (List.mem_of_mem_getLast? hMem)).long)
    rw [respVariables_of_text hFits hZero hAnswer.text, named_iff, hRead]
    exact forall₂_closingItems hTail hAllowed

/-- A complete answer is taken, with the id that it bears; what is not taken changes nothing. -/
theorem registerResponse_complete (m : Memory) (calls : List RecipeCall) :
    ((afterCalls m calls).fields ≠ [] → ∀ resp tail, tail = [] ∨ tail = [etx] →
      SetupAnswer resp 4 (typeNames (afterCalls m calls).types ++ tail) →
      (afterCalls m calls).registerResponse resp =
        (true, { afterCalls m calls with recipeId := (hdrRecipeId resp).toNat, active := true })) ∧
    ∀ resp, ((afterCalls m calls).registerResponse resp).1 = false →
      ((afterCalls m calls).registerResponse resp).2 = afterCalls m calls := by
  constructor
  · intro hFields resp tail hTail hAnswer
    exact registerResponse_of_accepted ((formed_afterCalls m calls).takes hFields hTail hAnswer)
  · intro resp hRefused
    exact registerResponse_of_refused hRefused

def jointRecipe : RtdeRecipe := afterCalls ⟨fun _ => 0, []⟩ [.addField (text "timestamp") 8, .addField (text "target_q") 16]

set_option maxRecDepth 100000 in
theorem registerResponse_complete_joints :
    jointRecipe.registerResponse (ofBytes ([0, 20, 79, 7] ++ text "DOUBLE,VECTOR6D" ++ [3])) =
      (true, { jointRecipe with recipeId := 7, active := true }) ∧
    (jointRecipe.registerResponse (ofBytes ([0, 19, 79, 7] ++ text "DOUBLE,VECTOR3D"))).2 = jointRecipe := by
  have hComplete := registerResponse_complete ⟨fun _ => 0, []⟩
    [.addField (text "timestamp") 8, .addField (text "target_q") 16]
  constructor
  · exact hComplete.1 (by decide +kernel) _ [3] (Or.inr rfl)
      ⟨by decide +kernel, by decide +kernel, by decide +kernel, by decide +kernel⟩
  · exact hComplete.2 _ (by decide +kernel)

end RtdeRecipe

end LibUrx.Rtde
