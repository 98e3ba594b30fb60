import LibUrx.Rtde.Acceptance

/-! # Active recipes and what the controller has acknowledged

A recipe is active from its first accepted answer on. The answer speaks about the fields of that moment,
which may be changed afterwards.
-/
namespace LibUrx.Rtde
open Bytes Text
set_option autoImplicit false

def listedTypes (resp : Buf) : List DataType := (getlines comma (respVariables resp)).map itemType

namespace RtdeRecipe

def nextAccepted (r : RtdeRecipe) (last : Option Buf) : RecipeCall → Option Buf
  | .registerResponse resp => if (r.registerResponse resp).1 then some resp else last
  | _ => last

/-- A call on a recipe, with the last accepted answer on the side. -/
def acknowledge (s : (RtdeRecipe × Memory) × Option Buf) (c : RecipeCall) : (RtdeRecipe × Memory) × Option Buf :=
  (call s.1 c, nextAccepted s.1.1 s.2 c)

def lastAccepted (m : Memory) (calls : List RecipeCall) : Option Buf :=
  (calls.foldl acknowledge ((init, m), none)).2

/-- If the recipe is active, its last accepted answer has listed the types of the fields it has now. -/
def Acknowledged (m : Memory) (calls : List RecipeCall) : Prop :=
  (afterCalls m calls).active = true →
    ∃ resp, lastAccepted m calls = some resp ∧ listedTypes resp = (afterCalls m calls).types

/-- The call gives the recipe another list of fields. -/
def Refields (r : RtdeRecipe) : RecipeCall → Prop
  | .addField name storage => (r.addField name storage).1 = true
  | .clearFields => r.fields ≠ []
  | _ => False

theorem fst_foldl_acknowledge (calls : List RecipeCall) (s : (RtdeRecipe × Memory) × Option Buf) :
    (calls.foldl acknowledge s).1 = calls.foldl call s.1 := by
  induction calls generalizing s with
  | nil => rfl
  | cons c rest ih => exact ih _

theorem lastAccepted_concat (m : Memory) (before : List RecipeCall) (c : RecipeCall) :
    lastAccepted m (before ++ [c]) = nextAccepted (afterCalls m before) (lastAccepted m before) c := by
  rw [lastAccepted, List.foldl_concat, acknowledge, fst_foldl_acknowledge]
  rfl

theorem afterCalls_concat (m : Memory) (before : List RecipeCall) (c : RecipeCall) :
    ∃ m', afterCalls m (before ++ [c]) = (call (afterCalls m before, m') c).1 := by
  refine ⟨(before.foldl call (init, m)).2, ?_⟩
  rw [afterCalls, List.foldl_concat]
  rfl

theorem listedTypes_of_accepted {r : RtdeRecipe} {resp : Buf} (h : (r.registerResponse resp).1 = true) :
    listedTypes resp = r.types := by
  have hNamed := (named_iff r _).mp ((registerResponse_iff r resp).mp h).2
  rw [listedTypes, ← List.forall₂_eq_eq_eq, List.forall₂_map_left_iff]
  exact hNamed.flip.imp fun _ _ hEq => hEq.symm

variable {r : RtdeRecipe} {m : Memory} {c : RecipeCall} (last : Option Buf)

/-- Without new fields, a recipe is activated only by an answer that lists the types of those it has. -/
theorem call_of_not_refields (h : ¬ r.Refields c) :
    (call (r, m) c).1.types = r.types ∧
      ((call (r, m) c).1.active = r.active ∧ nextAccepted r last c = last ∨
        ∃ resp, nextAccepted r last c = some resp ∧ listedTypes resp = r.types) := by
  cases c with
  | dirInput =>
    cases setDir_cases r false with
    | inl hSame => exact ⟨congrArg types hSame, Or.inl ⟨congrArg active hSame, rfl⟩⟩
    | inr hSet => simp only [call, dirInput, hSet.2, types, nextAccepted, and_self, true_or]
  | dirOutput =>
    cases setDir_cases r true with
    | inl hSame => exact ⟨congrArg types hSame, Or.inl ⟨congrArg active hSame, rfl⟩⟩
    | inr hSet => simp only [call, dirOutput, hSet.2, types, nextAccepted, and_self, true_or]
  | addField name storage =>
    have hRefused : r.addField name storage = (false, (r.addField name storage).2) :=
      Prod.ext (Bool.not_eq_true _ ▸ h) rfl
    have hSame : (r.addField name storage).2 = r := addField_eq_false hRefused
    exact ⟨congrArg types hSame, Or.inl ⟨congrArg active hSame, rfl⟩⟩
  | clearFields =>
    have hFields : r.fields = [] := Classical.not_not.mp h
    exact ⟨by rw [call, types, types, hFields]; rfl, Or.inl ⟨rfl, rfl⟩⟩
  | trackTsNs tsNs =>
    have hActive : (r.trackTsNs m tsNs).2.1.active = r.active := by
      rw [trackTsNs]
      split <;> rfl
    exact ⟨congrArg (List.map Token.type) (trackTsNs_fields r m tsNs).1, Or.inl ⟨hActive, rfl⟩⟩
  | registerResponse resp =>
    cases hAnswer : (r.registerResponse resp).1 with
    | true =>
      have hTaken := registerResponse_of_accepted hAnswer
      refine ⟨by rw [call, hTaken]; rfl, Or.inr ⟨resp, if_pos hAnswer, listedTypes_of_accepted hAnswer⟩⟩
    | false =>
      have hSame : (r.registerResponse resp).2 = r := registerResponse_of_refused hAnswer
      exact ⟨congrArg types hSame, Or.inl ⟨congrArg active hSame, if_neg (by simp [hAnswer])⟩⟩

/-- New fields are fields that no answer has listed, and leave the activation as it is. -/
theorem call_of_refields (h : r.Refields c) :
    (call (r, m) c).1.types ≠ r.types ∧ (call (r, m) c).1.active = r.active ∧ nextAccepted r last c = last := by
  cases c with
  | addField name storage =>
    have hAdded : r.addField name storage = (true, (r.addField name storage).2) := Prod.ext h rfl
    obtain ⟨tok, -, -, -, -, -, hSame⟩ := addField_eq_true hAdded
    rw [call, hSame]
    exact ⟨by simp [types], rfl, rfl⟩
  | clearFields =>
    refine ⟨fun hEq => h (List.map_eq_nil_iff.mp hEq.symm), rfl, rfl⟩
  | _ => exact absurd h id

/-- Active recipes stay acknowledged exactly as long as no fields are added to them or taken from them. -/
theorem acknowledged_iff (m : Memory) (calls : List RecipeCall) :
    (∀ before, before <+: calls → Acknowledged m before) ↔
      ∀ before c, before ++ [c] <+: calls → (afterCalls m before).active = true →
        ¬ (afterCalls m before).Refields c := by
  constructor
  · intro h before c hPrefix hActive hNew
    obtain ⟨resp, hLast, hListed⟩ := h before ((List.prefix_append _ _).trans hPrefix) hActive
    obtain ⟨m', hAfter⟩ := afterCalls_concat m before c
    obtain ⟨hTypes, hSame, hKept⟩ := call_of_refields (m := m') (lastAccepted m before) hNew
    have hNext := h _ hPrefix
    rw [Acknowledged, lastAccepted_concat, hAfter, hSame, hKept] at hNext
    obtain ⟨resp', hLast', hListed'⟩ := hNext hActive
    obtain rfl := Option.some.inj (hLast.symm.trans hLast')
    exact hTypes (hListed'.symm.trans hListed)
  · intro h before hPrefix
    induction before using List.reverseRecOn with
    | nil => exact fun hActive => absurd hActive Bool.false_ne_true
    | append_singleton before c ih =>
      have hBefore := ih ((List.prefix_append _ _).trans hPrefix)
      obtain ⟨m', hAfter⟩ := afterCalls_concat m before c
      rw [Acknowledged, lastAccepted_concat, hAfter]
      by_cases hNew : (afterCalls m before).Refields c
      · obtain ⟨-, hSame, -⟩ := call_of_refields (m := m') (lastAccepted m before) hNew
        intro hActive
        exact absurd hNew (h before c hPrefix (hSame ▸ hActive))
      · obtain ⟨hTypes, hCase⟩ := call_of_not_refields (m := m') (lastAccepted m before) hNew
        intro hActive
        rw [hTypes]
        cases hCase with
        | inl hQuiet =>
          rw [hQuiet.2]
          exact hBefore (hQuiet.1 ▸ hActive)
        | inr hAnswer => exact hAnswer

set_option maxRecDepth 100000 in
/-- One field, registered, and another field behind it that the controller has never seen. -/
theorem addField_keeps_active :
    ¬ ∀ m calls before, before <+: calls → Acknowledged m before := by
  intro h
  let answer := ofBytes ([0, 10, 79, 1] ++ text "DOUBLE")
  let asked : List RecipeCall := [.addField (text "timestamp") 8]
  let later : List RecipeCall := asked ++ [.registerResponse answer] ++ [.addField (text "target_q") 16]
  obtain ⟨resp, hLast, hListed⟩ := h ⟨fun _ => 0, []⟩ later later List.prefix_rfl (by decide +kernel)
  have hAnswer : lastAccepted ⟨fun _ => 0, []⟩ later = some answer := by
    have hTaken : ((afterCalls ⟨fun _ => 0, []⟩ asked).registerResponse answer).1 = true := by decide +kernel
    exact (lastAccepted_concat _ _ _).trans ((lastAccepted_concat _ _ _).trans (if_pos hTaken))
  obtain rfl := Option.some.inj (hAnswer.symm.trans hLast)
  revert hListed
  decide +kernel

end RtdeRecipe

end LibUrx.Rtde
