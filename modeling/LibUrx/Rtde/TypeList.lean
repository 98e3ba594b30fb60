import LibUrx.Rtde.TypeAnswer

/-! # Lists of type names in an answer

A controller that cannot provide a variable writes `NOT_FOUND` or `IN_USE` in the place of its type, and
may leave out the recipe id. The list then begins one byte earlier, where the check does not look.
-/
namespace LibUrx.Rtde
open Bytes Text
set_option autoImplicit false

def available (type : DataType) : Bool := type != .notFound && type != .inUse

/-- A setup answer with this text from `start` on, whose size counts the bytes before the zero byte. -/
structure SetupAnswer (resp : Buf) (start : Nat) (names : List UInt8) : Prop where
  type : hdrType resp = PackageType.setupOutputs.code ∨ hdrType resp = PackageType.setupInputs.code
  text : slice resp start (names.length + 1) = names ++ [0]
  size : hdrSize resp = start + names.length
  small : hdrSize resp ≤ 2000

theorem available_iff {type : DataType} : available type = true ↔ type ≠ .notFound ∧ type ≠ .inUse := by
  simp [available]

set_option maxRecDepth 10000 in
theorem item_typeName (type : DataType) : Item (typeName type) := by
  cases type <;> exact ⟨by decide, by decide, by decide⟩

set_option maxRecDepth 10000 in
theorem item_typeName_tail (type : DataType) : Item (typeName type).tail := by
  cases type <;> exact ⟨by decide, by decide, by decide⟩

set_option maxRecDepth 10000 in
theorem isTypeName_typeName (type : DataType) : isTypeName (typeName type) = available type := by
  cases type <;> decide

set_option maxRecDepth 10000 in
theorem isTypeName_typeName_dropLast (type : DataType) : isTypeName (typeName type).dropLast = available type := by
  cases type <;> decide

set_option maxRecDepth 10000 in
theorem isTypeName_typeName_tail {type : DataType} (h : isTypeName (typeName type).tail = true) :
    available type = true := by
  revert h
  cases type <;> decide

set_option maxRecDepth 10000 in
theorem isTypeName_typeName_tail_dropLast {type : DataType} (h : isTypeName (typeName type).tail.dropLast = true) :
    available type = true := by
  revert h
  cases type <;> decide

theorem checkedItems_typeNames (types : List DataType) : checkedItems (types.map typeName) = types.all available := by
  induction types with
  | nil => rfl
  | cons type rest ih =>
    cases rest with
    | nil => rw [List.all_cons, List.all_nil, Bool.and_true, ← isTypeName_typeName_dropLast]; rfl
    | cons next rest => rw [List.all_cons, ← ih, ← isTypeName_typeName]; rfl

/-- Without its first character the first name is no better. -/
theorem checkedItems_typeNames_tail {type : DataType} {rest : List DataType}
    (h : checkedItems ((typeName type).tail :: rest.map typeName) = true) : (type :: rest).all available = true := by
  rw [List.all_cons, Bool.and_eq_true]
  cases rest with
  | nil => exact ⟨isTypeName_typeName_tail_dropLast h, rfl⟩
  | cons next rest =>
    obtain ⟨hFirst, hRest⟩ := (Bool.and_eq_true _ _).mp h
    rw [← checkedItems_typeNames]
    exact ⟨isTypeName_typeName_tail hFirst, hRest⟩

theorem exists_typeNames_eq_cons (type : DataType) (rest : List DataType) :
    ∃ c, typeNames (type :: rest) = c :: [comma].intercalate ((typeName type).tail :: rest.map typeName) := by
  have hNe : typeName type ≠ [] := by cases type <;> decide
  obtain ⟨c, name, hName⟩ := List.exists_cons_of_ne_nil hNe
  refine ⟨c, ?_⟩
  cases rest with
  | nil => rw [typeNames, List.map_cons, List.map_nil, List.intercalate_singleton, List.intercalate_singleton, hName]; rfl
  | cons next rest =>
    rw [typeNames, List.map_cons, List.map_cons, List.intercalate_cons_cons, List.intercalate_cons_cons, hName]
    rfl

namespace SetupAnswer

variable {resp : Buf} {start : Nat} {names : List UInt8} {types : List DataType}

theorem headValid (h : SetupAnswer resp start names) (hStart : 3 ≤ start) : HeadValid resp := by
  rw [headValid_iff, h.size]
  exact ⟨by omega, h.size ▸ h.small, h.type⟩

/-- The check of an answer is the scan of its text, up to the zero byte. -/
theorem respValidate_iff (h : SetupAnswer resp start names) (hStart : 3 ≤ start) :
    rtdeControlPackageRespValidate resp = true ↔ scan resp (start + names.length) 4 4 = true := by
  have hRounds : scanTypes resp (hdrSize resp) (hdrSize resp) 4 4 = scan resp (hdrSize resp) 4 4 :=
    scanTypes_rounds (by omega) (by omega)
  rw [rtdeControlPackageRespValidate, Bool.and_eq_true, Nat.add_sub_cancel_left, hRounds, h.size]
  exact and_iff_right (h.headValid hStart)

theorem scan_eq {items : List (List UInt8)} (hNe : items ≠ []) (hItems : ∀ item ∈ items, Item item)
    (hText : slice resp 4 (([comma].intercalate items).length + 1) = [comma].intercalate items ++ [0]) :
    scan resp (4 + ([comma].intercalate items).length) 4 4 = checkedItems items := by
  rw [scan_list hNe hItems hText le_rfl (Or.inl rfl), scan_done (Nat.le_succ _), Bool.and_true]

theorem respValidate_eq {items : List (List UInt8)} (h : SetupAnswer resp 4 ([comma].intercalate items))
    (hNe : items ≠ []) (hItems : ∀ item ∈ items, Item item) :
    rtdeControlPackageRespValidate resp = checkedItems items := by
  rw [← scan_eq hNe hItems h.text, Bool.eq_iff_iff]
  exact h.respValidate_iff (by omega)

theorem respValidate_of_id (h : SetupAnswer resp 4 (typeNames types)) (hNe : types ≠ []) :
    rtdeControlPackageRespValidate resp = types.all available := by
  have hItems : ∀ item ∈ types.map typeName, Item item := by
    intro item hMem
    obtain ⟨type, -, rfl⟩ := List.mem_map.mp hMem
    exact item_typeName type
  rw [← checkedItems_typeNames]
  exact h.respValidate_eq (by simpa using hNe) hItems

theorem respValidate_of_no_id (h : SetupAnswer resp 3 (typeNames types)) (hNe : types ≠ [])
    (hValid : rtdeControlPackageRespValidate resp = true) : types.all available = true := by
  obtain ⟨type, rest, rfl⟩ := List.exists_cons_of_ne_nil hNe
  have hItems : ∀ item ∈ (typeName type).tail :: rest.map typeName, Item item := by
    intro item hMem
    cases List.mem_cons.mp hMem with
    | inl hFirst => exact hFirst ▸ item_typeName_tail type
    | inr hRest =>
      obtain ⟨type, -, rfl⟩ := List.mem_map.mp hRest
      exact item_typeName type
  obtain ⟨c, hNames⟩ := exists_typeNames_eq_cons type rest
  have hText := h.text
  have hSame := h.respValidate_iff le_rfl
  rw [hNames, List.length_cons] at hText hSame
  -- the byte in the place of the recipe id is the first character of the list
  rw [Nat.add_comm _ 1, slice_add] at hText
  have hBehind := (List.cons.inj hText).2
  rw [← Nat.add_assoc, Nat.add_right_comm, scan_eq (by simp) hItems hBehind] at hSame
  exact checkedItems_typeNames_tail (hSame.mp hValid)

end SetupAnswer

/-- An answer that names an unavailable variable is refused, wherever the list of names begins. -/
theorem respValidate_typeList (types : List DataType) (hNe : types ≠ []) (resp : Buf) :
    (SetupAnswer resp 4 (typeNames types) → (rtdeControlPackageRespValidate resp = true ↔
      ∀ type ∈ types, type ≠ .notFound ∧ type ≠ .inUse)) ∧
    (SetupAnswer resp 3 (typeNames types) → (∃ type ∈ types, type = .notFound ∨ type = .inUse) →
      rtdeControlPackageRespValidate resp = false) := by
  constructor
  · intro h
    rw [h.respValidate_of_id hNe, List.all_eq_true]
    exact forall₂_congr fun _ _ => available_iff
  · rintro h ⟨type, hMem, hBad⟩
    rw [← Bool.not_eq_true]
    intro hValid
    have hAvailable := available_iff.mp (List.all_eq_true.mp (h.respValidate_of_no_id hNe hValid) type hMem)
    exact hBad.elim hAvailable.1 hAvailable.2

set_option maxRecDepth 10000 in
theorem respValidate_typeList_double :
    rtdeControlPackageRespValidate (ofBytes (typesAnswer .setupOutputs 1 [.double, .vector6d])) = true ∧
    rtdeControlPackageRespValidate (ofBytes (typesAnswer .setupOutputs 1 [.notFound, .double])) = false ∧
    rtdeControlPackageRespValidate (ofBytes ([0, 19, 79] ++ typeNames [.notFound, .double])) = false := by
  have hList := respValidate_typeList [.notFound, .double] (by decide)
  refine ⟨?_, ?_, ?_⟩
  · refine ((respValidate_typeList [.double, .vector6d] (by decide) _).1 ⟨?_, ?_, ?_, ?_⟩).mpr (by decide) <;> decide
  · rw [← Bool.not_eq_true, (hList _).1 ⟨by decide, by decide, by decide, by decide⟩]
    decide
  · exact (hList _).2 ⟨by decide, by decide, by decide, by decide⟩ ⟨.notFound, by decide, by decide⟩

end LibUrx.Rtde
