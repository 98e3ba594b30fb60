import LibUrx.Base.Split
import LibUrx.Rtde.Acceptance

/-! # Answers that are taken although they are not spelled out

A type name is compared only as far as the answer goes, so a beginning of it is as good as the whole, as
long as it does not begin an earlier name of the table. And a separator behind the last name is not seen.
-/
namespace LibUrx.Rtde
open Bytes Text
set_option autoImplicit false

def isBlank (c : UInt8) : Bool := isSpace c || isEtx c

/-- The types in the order in which `data_name_to_type` tries their names. -/
def typeOrder : List DataType :=
  [.bool, .uint8, .uint32, .uint64, .int32, .double, .vector3d, .vector6d, .vector6int32, .vector6uint32, .string,
    .inUse]

/-- The first type whose name an item begins. -/
def firstBegun (item : List UInt8) : Option DataType := typeOrder.find? fun type => item.isPrefixOf (typeName type)

theorem find?_cons_getD {α : Type} (p : α → Bool) (a d : α) (l : List α) :
    ((a :: l).find? p).getD d = if p a = true then a else (l.find? p).getD d := by
  rw [List.find?_cons]
  cases p a <;> rfl

theorem zero_notMem_typeName (type : DataType) : 0 ∉ typeName type := (item_typeName type).zero

theorem strncmpEq_typeName {item : List UInt8} (hZero : 0 ∉ item) (type : DataType) :
    strncmpEq item (typeName type) item.length = item.isPrefixOf (typeName type) := by
  rw [Bool.eq_iff_iff, strncmpEq_iff, cStr_eq_self_iff.mpr hZero,
    cStr_eq_self_iff.mpr (zero_notMem_typeName type), List.take_length,
    List.isPrefixOf_iff_prefix, List.prefix_iff_eq_take]

/-- The chain of comparisons finds the first name that the item begins. -/
theorem dataNameToType_eq {item : List UInt8} (hZero : 0 ∉ item) :
    dataNameToType item item.length = (firstBegun item).getD .notFound := by
  simp only [firstBegun, typeOrder, find?_cons_getD, ← strncmpEq_typeName hZero, List.find?_nil, Option.getD_none]
  rfl

theorem isPrefix_of_firstBegun {item : List UInt8} {type : DataType} (h : firstBegun item = some type) :
    item <+: typeName type := by
  have hFound := List.find?_some (p := fun type => item.isPrefixOf (typeName type)) h
  exact List.isPrefixOf_iff_prefix.mp hFound

theorem eq_itemType_iff {item : List UInt8} (hZero : 0 ∉ trim item) {type : DataType} (hNe : type ≠ .notFound) :
    type = itemType item ↔ firstBegun (trim item) = some type := by
  rw [itemType, cStr_eq_self_iff.mpr hZero, dataNameToType_eq hZero]
  cases firstBegun (trim item) with
  | none => simp [hNe]
  | some found => simp [eq_comm]

theorem peeled_trim (s : List UInt8) : Peeled isBlank s (trim s) := by
  have hSpace : ∀ c, isSpace c = true → isBlank c = true := fun c h => by simp [isBlank, h]
  have hEtx : ∀ c, isEtx c = true → isBlank c = true := fun c h => by simp [isBlank, h]
  exact (((Peeled.rdropWhile hSpace s).trans (Peeled.rdropWhile hEtx _)).trans (Peeled.dropWhile hSpace _)).trans
    (Peeled.dropWhile hEtx _)

set_option maxRecDepth 10000 in
theorem isBlank_of_mem_typeName (type : DataType) : ∀ c ∈ typeName type, isBlank c = false := by
  cases type <;> decide

theorem strip_of_firstBegun {item : List UInt8} {type : DataType} (h : firstBegun (trim item) = some type) :
    strip isBlank item = trim item := by
  apply (peeled_trim item).strip_eq
  apply Clear.of_forall
  intro c hMem
  exact isBlank_of_mem_typeName type c ((isPrefix_of_firstBegun h).subset hMem)

namespace RtdeRecipe

/-- The items of the answer, stripped, are the type names of the fields. -/
def SpelledOut (r : RtdeRecipe) (resp : Buf) : Prop :=
  ((respVariables resp).splitOn comma).map (strip isBlank) = r.types.map typeName

/-- The answer passes the check, each item begins the type name of its field and no earlier name of the table,
but an item is no whole name, or a separator stands at the end. -/
structure Abbreviated (r : RtdeRecipe) (resp : Buf) : Prop where
  valid : rtdeControlPackageRespValidate resp = true
  begun : List.Forall₂ (fun type item => firstBegun (trim item) = some type) r.types
    (getlines comma (respVariables resp))
  short : (respVariables resp).getLast? = some comma ∨
    ¬ List.Forall₂ (fun type item => trim item = typeName type) r.types (getlines comma (respVariables resp))

variable {r : RtdeRecipe} {resp : Buf}

theorem zero_notMem_items (resp : Buf) : ∀ item ∈ getlines comma (respVariables resp), 0 ∉ item :=
  notMem_of_mem_getlinesFrom List.not_mem_nil (notMem_cStr _)

theorem zero_notMem_trim {item : List UInt8} (h : 0 ∉ item) : 0 ∉ trim item := by
  obtain ⟨pre, post, hSplit, -, -⟩ := peeled_trim item
  intro hMem
  rw [hSplit] at h
  simp [hMem] at h

theorem Formed.accepted_iff (h : r.Formed) : (r.registerResponse resp).1 = true ↔
    rtdeControlPackageRespValidate resp = true ∧
      List.Forall₂ (fun type item => firstBegun (trim item) = some type) r.types
        (getlines comma (respVariables resp)) := by
  rw [registerResponse_iff, named_iff, List.forall₂_iff_zip, List.forall₂_iff_zip]
  apply and_congr_right
  intro _
  apply and_congr_right
  intro _
  have hSame {type : DataType} {item : List UInt8} (hMem : (type, item) ∈ r.types.zip (getlines comma (respVariables resp))) :
      type = itemType item ↔ firstBegun (trim item) = some type := by
    obtain ⟨hType, hItem⟩ := List.of_mem_zip hMem
    apply eq_itemType_iff (zero_notMem_trim (zero_notMem_items resp item hItem))
    rintro rfl
    exact absurd (h.mem_outputTypes hType) (by decide)
  constructor
  · intro hRead type item hMem
    exact (hSame hMem).mp (hRead hMem)
  · intro hBegun type item hMem
    exact (hSame hMem).mpr (hBegun hMem)

/-- What is spelled out does not end in a separator. -/
theorem SpelledOut.getlines_eq (h : r.SpelledOut resp) :
    ¬ Unfinished comma [] (respVariables resp) ∧ (respVariables resp).splitOn comma = getlines comma (respVariables resp) := by
  rw [SpelledOut, splitOn_eq_getlines] at h
  rw [splitOn_eq_getlines]
  by_cases hEnds : Unfinished comma [] (respVariables resp)
  · rw [if_pos hEnds] at h
    have hMem : strip isBlank [] ∈ r.types.map typeName := by
      rw [← h]
      exact List.mem_map_of_mem (by simp)
    obtain ⟨type, -, hNil⟩ := List.mem_map.mp hMem
    have hLong := (item_typeName type).long
    rw [hNil] at hLong
    simp [strip] at hLong
  · exact ⟨hEnds, by rw [if_neg hEnds, List.append_nil]⟩

theorem map_strip_eq_iff {items : List (List UInt8)} {types : List DataType}
    (hBegun : List.Forall₂ (fun type item => firstBegun (trim item) = some type) types items) :
    items.map (strip isBlank) = types.map typeName ↔
      List.Forall₂ (fun type item => trim item = typeName type) types items := by
  induction hBegun with
  | nil => simp
  | cons hItem _ ih =>
    rw [List.map_cons, List.map_cons, List.cons.injEq, ih, strip_of_firstBegun hItem, List.forall₂_cons]

theorem spelledOut_iff (hBegun : List.Forall₂ (fun type item => firstBegun (trim item) = some type) r.types
    (getlines comma (respVariables resp))) :
    r.SpelledOut resp ↔ ¬ Unfinished comma [] (respVariables resp) ∧
      List.Forall₂ (fun type item => trim item = typeName type) r.types (getlines comma (respVariables resp)) := by
  constructor
  · intro h
    obtain ⟨hEnds, hItems⟩ := h.getlines_eq
    rw [SpelledOut, hItems] at h
    exact ⟨hEnds, (map_strip_eq_iff hBegun).mp h⟩
  · rintro ⟨hEnds, h⟩
    rw [SpelledOut, splitOn_eq_getlines, if_neg hEnds, List.append_nil]
    exact (map_strip_eq_iff hBegun).mpr h

/-- A recipe is registered with a spelled-out answer, unless the answer abbreviates. -/
theorem spelledOut_of_accepted_iff (m : Memory) (calls : List RecipeCall) (hFields : (afterCalls m calls).fields ≠ [])
    (resp : Buf) :
    (((afterCalls m calls).registerResponse resp).1 = true → (afterCalls m calls).SpelledOut resp) ↔
      ¬ (afterCalls m calls).Abbreviated resp := by
  have hFormed := formed_afterCalls m calls
  constructor
  · rintro h ⟨hValid, hBegun, hShort⟩
    have hSpelled := h (hFormed.accepted_iff.mpr ⟨hValid, hBegun⟩)
    obtain ⟨hEnds, hNames⟩ := (spelledOut_iff hBegun).mp hSpelled
    cases hShort with
    | inl hComma => exact hEnds (Or.inr hComma)
    | inr hCut => exact hCut hNames
  · intro h hAccepted
    obtain ⟨hValid, hBegun⟩ := hFormed.accepted_iff.mp hAccepted
    apply (spelledOut_iff hBegun).mpr
    constructor
    · rintro (⟨-, hEmpty⟩ | hComma)
      · rw [hEmpty] at hBegun
        have hTypes : (afterCalls m calls).types = [] := List.forall₂_nil_right_iff.mp hBegun
        exact hFields (List.map_eq_nil_iff.mp hTypes)
      · exact h ⟨hValid, hBegun, Or.inl hComma⟩
    · exact Classical.byContradiction fun hCut => h ⟨hValid, hBegun, Or.inr hCut⟩

def shortAnswer : Buf := ofBytes ([0, 13, 79, 1] ++ text "D,VECTOR6")

set_option maxRecDepth 100000 in
theorem spelledOut_of_accepted_iff_joints :
    ((jointRecipe.registerResponse shortAnswer).1 = true → jointRecipe.SpelledOut shortAnswer) ↔
      ¬ jointRecipe.Abbreviated shortAnswer :=
  spelledOut_of_accepted_iff _ _ (by decide +kernel) shortAnswer

set_option maxRecDepth 100000 in
/-- The beginnings of the names are as good as the names. -/
theorem short_answer_is_taken :
    ¬ ∀ (m : Memory) (calls : List RecipeCall) (resp : Buf), (afterCalls m calls).fields ≠ [] →
      0 ∈ slice resp 4 (packetBytes - 4) → ((afterCalls m calls).registerResponse resp).1 = true →
      (afterCalls m calls).SpelledOut resp := by
  intro h
  have hSpelled := h ⟨fun _ => 0, []⟩ [.addField (text "timestamp") 8, .addField (text "target_q") 16] shortAnswer
    (by decide +kernel) (by decide +kernel) (by decide +kernel)
  unfold SpelledOut at hSpelled
  revert hSpelled
  decide +kernel

end RtdeRecipe

end LibUrx.Rtde
