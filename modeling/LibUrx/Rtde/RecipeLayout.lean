import LibUrx.Rtde.Recipe

/-! # The layout of a recipe

The byte counter of a recipe and the offsets of its fields are kept apart from the fields
themselves. They agree as long as no field has been dropped without taking its bytes back.
-/
namespace LibUrx.Rtde
open Bytes Text
set_option autoImplicit false

def totalBytes (fields : List Token) : Nat := (fields.map Token.numBytes).sum

@[simp] theorem totalBytes_nil : totalBytes [] = 0 := rfl

@[simp] theorem totalBytes_cons (tok : Token) (rest : List Token) :
    totalBytes (tok :: rest) = tok.numBytes + totalBytes rest := by
  simp [totalBytes]

@[simp] theorem totalBytes_append (first second : List Token) :
    totalBytes (first ++ second) = totalBytes first + totalBytes second := by
  simp [totalBytes]

/-- The fields follow each other from offset `o` on without a gap. -/
def OffsetsFrom : Nat → List Token → Prop
  | _, [] => True
  | o, tok :: rest => tok.offset = o ∧ OffsetsFrom (o + tok.numBytes) rest

theorem offsetsFrom_iff (o : Nat) (fields : List Token) :
    OffsetsFrom o fields ↔
      ∀ before tok after, fields = before ++ tok :: after → tok.offset = o + totalBytes before := by
  induction fields generalizing o with
  | nil =>
    constructor
    · intro _ before tok after h
      simp at h
    · intro _
      trivial
  | cons head rest ih =>
    constructor
    · rintro ⟨hHead, hRest⟩ before tok after h
      cases before with
      | nil =>
        obtain ⟨rfl, _⟩ := List.cons.inj h
        simpa using hHead
      | cons first before =>
        obtain ⟨rfl, hTail⟩ := List.cons.inj h
        have := (ih _).mp hRest before tok after hTail
        rw [totalBytes_cons]
        omega
    · intro h
      refine ⟨by simpa using h [] head rest rfl, (ih _).mpr fun before tok after hEq => ?_⟩
      have := h (head :: before) tok after (by rw [hEq, List.cons_append])
      rw [totalBytes_cons] at this
      omega

namespace RtdeRecipe

structure Layout (r : RtdeRecipe) : Prop where
  expected : r.expectedBytes = totalBytes r.fields
  offset : ∀ before tok after, r.fields = before ++ tok :: after → tok.offset = totalBytes before

/-- What every recipe satisfies, whatever was called on it. -/
structure Formed (r : RtdeRecipe) : Prop where
  wellTyped : ∀ tok ∈ r.fields, tok.WellTyped
  kind : ∀ tok ∈ r.fields, tok.kind = if r.dirOut then .output else .input

/-- The fields end within the bytes that the recipe expects. Clearing the fields keeps this, unlike the layout. -/
def Bounded (r : RtdeRecipe) : Prop := ∀ tok ∈ r.fields, tok.offset + tok.numBytes ≤ r.expectedBytes

theorem Layout.offsetsFrom {r : RtdeRecipe} (h : r.Layout) : OffsetsFrom 0 r.fields := by
  rw [offsetsFrom_iff]
  intro before tok after hEq
  rw [h.offset before tok after hEq, Nat.zero_add]

theorem Layout.bounded {r : RtdeRecipe} (h : r.Layout) : r.Bounded := by
  intro tok hMem
  obtain ⟨before, after, hEq⟩ := List.append_of_mem hMem
  rw [h.offset before tok after hEq, h.expected, hEq, totalBytes_append, totalBytes_cons]
  omega

theorem layout_of_nil {r : RtdeRecipe} (hBytes : r.bytes = 0) (hFields : r.fields = []) : r.Layout where
  expected := by rw [expectedBytes, hBytes, hFields, totalBytes_nil]
  offset before tok after h := by simp [hFields] at h

theorem layout_congr {r r' : RtdeRecipe} (hBytes : r'.bytes = r.bytes) (hFields : r'.fields = r.fields)
    (h : r.Layout) : r'.Layout where
  expected := by rw [expectedBytes, hBytes, hFields, ← h.expected, expectedBytes]
  offset := hFields ▸ h.offset

theorem Formed.positive {r : RtdeRecipe} (h : r.Formed) : totalBytes r.fields = 0 ↔ r.fields = [] := by
  constructor
  · intro hSum
    cases hFields : r.fields with
    | nil => rfl
    | cons tok rest =>
      have hMem : tok ∈ r.fields := hFields ▸ List.mem_cons_self
      have := (h.wellTyped tok hMem).numBytes_pos
      rw [hFields, totalBytes_cons] at hSum
      omega
  · rintro hFields
    rw [hFields, totalBytes_nil]

theorem layout_addField {r r' : RtdeRecipe} {ok : Bool} {name : List UInt8} {storage : Nat}
    (hAdd : r.addField name storage = (ok, r')) (h : r.Layout) : r'.Layout := by
  cases ok with
  | false => exact addField_eq_false hAdd ▸ h
  | true =>
    obtain ⟨tok, -, hOffset, -, -, -, rfl⟩ := addField_eq_true hAdd
    have hBytes : r.bytes = totalBytes r.fields := h.expected
    refine ⟨?_, fun before t after hEq => ?_⟩
    · simp [expectedBytes, hBytes]
    · rcases List.eq_nil_or_concat after with rfl | ⟨rest, last, rfl⟩
      · obtain ⟨rfl, hTok⟩ := List.append_inj' hEq rfl
        rw [← (List.cons.inj hTok).1, hOffset, hBytes]
      · have hSplit : r.fields ++ [tok] = (before ++ t :: rest) ++ [last] := by simpa using hEq
        exact h.offset before t rest (List.append_inj' hSplit rfl).1

theorem formed_addField {r r' : RtdeRecipe} {ok : Bool} {name : List UInt8} {storage : Nat}
    (hAdd : r.addField name storage = (ok, r')) (h : r.Formed) : r'.Formed := by
  cases ok with
  | false => exact addField_eq_false hAdd ▸ h
  | true =>
    obtain ⟨tok, hTyped, -, -, -, hKind, rfl⟩ := addField_eq_true hAdd
    constructor <;> intro t hMem <;> rcases List.mem_append.mp hMem with hOld | hNew
    · exact h.wellTyped t hOld
    · exact (List.mem_singleton.mp hNew) ▸ hTyped
    · exact h.kind t hOld
    · exact (List.mem_singleton.mp hNew) ▸ hKind

theorem Formed.kind_of_dir {r : RtdeRecipe} (h : r.Formed) {kind : TokenKind}
    (hKind : (if r.dirOut then TokenKind.output else .input) = kind) : ∀ tok ∈ r.fields, tok.kind = kind :=
  fun tok hMem => (h.kind tok hMem).trans hKind

theorem formed_of_nil {r : RtdeRecipe} (hFields : r.fields = []) : r.Formed where
  wellTyped tok hMem := by simp [hFields] at hMem
  kind tok hMem := by simp [hFields] at hMem

/-- Dropping the fields breaks the layout unless there was none to drop. -/
theorem layout_clearFields_iff {r : RtdeRecipe} (hLayout : r.Layout) (hFormed : r.Formed) :
    r.clearFields.Layout ↔ r.fields = [] := by
  constructor
  · intro h
    have hBytes : r.bytes = 0 := h.expected
    exact hFormed.positive.mp (hLayout.expected.symm.trans hBytes)
  · intro hFields
    exact layout_of_nil (hLayout.expected.trans (by rw [hFields, totalBytes_nil])) rfl

theorem Called.layout {r r' : RtdeRecipe} {c : RecipeCall} (hCalled : r.Called c r') (hNot : c ≠ .clearFields)
    (h : r.Layout) : r'.Layout := by
  cases hCalled with
  | same => exact h
  | turned | tracked | answered => exact layout_congr (r := r) rfl rfl h
  | added hAdd => exact layout_addField hAdd h
  | cleared => exact absurd rfl hNot

theorem Called.formed {r r' : RtdeRecipe} {c : RecipeCall} (hCalled : r.Called c r') (h : r.Formed) : r'.Formed := by
  cases hCalled with
  | same => exact h
  | turned _ _ hEmpty => exact formed_of_nil hEmpty
  | tracked | answered => exact ⟨h.wellTyped, h.kind⟩
  | added hAdd => exact formed_addField hAdd h
  | cleared => exact formed_of_nil rfl

theorem formed_afterCalls (m : Memory) (calls : List RecipeCall) : (afterCalls m calls).Formed := by
  induction calls using List.reverseRecOn with
  | nil => exact formed_of_nil rfl
  | append_singleton before c ih =>
    rw [afterCalls, List.foldl_concat]
    exact (called_call _ c).formed ih

theorem Called.bounded {r r' : RtdeRecipe} {c : RecipeCall} (hCalled : r.Called c r') (h : r.Bounded) : r'.Bounded := by
  cases hCalled with
  | same | tracked | answered => exact h
  | turned _ _ hEmpty => exact fun tok hMem => absurd (hEmpty ▸ hMem) List.not_mem_nil
  | cleared => exact fun tok hMem => absurd hMem List.not_mem_nil
  | added hAdd =>
    obtain ⟨tok, -, hOffset, -, -, -, rfl⟩ := addField_eq_true hAdd
    intro t hMem
    cases List.mem_append.mp hMem with
    | inl hOld => exact (h t hOld).trans (Nat.le_add_right _ _)
    | inr hNew =>
      obtain rfl := List.mem_singleton.mp hNew
      exact (congrArg (· + t.numBytes) hOffset).le

theorem bounded_afterCalls (m : Memory) (calls : List RecipeCall) : (afterCalls m calls).Bounded := by
  induction calls using List.reverseRecOn with
  | nil => exact fun tok hMem => absurd hMem List.not_mem_nil
  | append_singleton before c ih =>
    rw [afterCalls, List.foldl_concat]
    exact (called_call _ c).bounded ih

theorem layout_afterCalls {m : Memory} {calls : List RecipeCall} (hNot : .clearFields ∉ calls) :
    (afterCalls m calls).Layout := by
  induction calls using List.reverseRecOn with
  | nil => exact layout_of_nil rfl rfl
  | append_singleton before c ih =>
    rw [List.mem_append, not_or, List.mem_singleton] at hNot
    rw [afterCalls, List.foldl_concat]
    exact (called_call _ c).layout (Ne.symm hNot.2) (ih hNot.1)

/-- The layout holds after every call exactly when fields are cleared only where there are none. -/
theorem layout_after_every_call_iff (m : Memory) (calls : List RecipeCall) :
    (∀ before, before <+: calls → (afterCalls m before).Layout) ↔
      ∀ before, before ++ [.clearFields] <+: calls → (afterCalls m before).fields = [] := by
  constructor
  · intro h before hPrefix
    have hLayout := h before ((List.prefix_append _ _).trans hPrefix)
    have hCleared := h _ hPrefix
    rw [afterCalls, List.foldl_concat] at hCleared
    exact (layout_clearFields_iff hLayout (formed_afterCalls m before)).mp hCleared
  · intro h before hPrefix
    induction before using List.reverseRecOn with
    | nil => exact layout_of_nil rfl rfl
    | append_singleton before c ih =>
      have hLayout := ih ((List.prefix_append _ _).trans hPrefix)
      rw [afterCalls, List.foldl_concat]
      cases c with
      | clearFields => exact (layout_clearFields_iff hLayout (formed_afterCalls m before)).mpr (h before hPrefix)
      | _ => exact (called_call _ _).layout (by simp) hLayout

set_option maxRecDepth 100000 in
/-- One field, cleared: no field is left, and the recipe still expects the bytes of one. -/
theorem clearFields_keeps_bytes :
    ¬ ∀ m calls before, before <+: calls → (afterCalls m before).Layout := by
  intro h
  have hLayout := h ⟨fun _ => 0, []⟩ [.addField (text "timestamp") 8, .clearFields] _ List.prefix_rfl
  have hBytes : (afterCalls ⟨fun _ => 0, []⟩ [.addField (text "timestamp") 8, .clearFields]).expectedBytes = 8 := by
    decide +kernel
  have := hBytes.symm.trans hLayout.expected
  cases this

end RtdeRecipe

end LibUrx.Rtde
