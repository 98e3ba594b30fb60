import LibUrx.Base.Text
import Mathlib.Data.List.DropRight

/-! # Splitting a text and stripping its items

Reading line by line is splitting at the delimiter, except that an empty item at the end is not read.
Stripping takes off what is blank at both ends, however it is mixed.
-/
namespace LibUrx.Text
set_option autoImplicit false

/-- The text stops where an item would begin, so that the empty item there is not read. -/
def Unfinished (sep : UInt8) (item s : List UInt8) : Prop := item = [] ∧ s = [] ∨ s.getLast? = some sep

instance (sep : UInt8) (item s : List UInt8) : Decidable (Unfinished sep item s) := inferInstanceAs (Decidable (_ ∨ _))

theorem unfinished_cons_self (sep : UInt8) (item s : List UInt8) :
    Unfinished sep item (sep :: s) ↔ Unfinished sep [] s := by
  cases s with
  | nil => simp [Unfinished]
  | cons c rest => simp [Unfinished]

theorem unfinished_cons {sep c : UInt8} (h : c ≠ sep) (item s : List UInt8) :
    Unfinished sep item (c :: s) ↔ Unfinished sep (item ++ [c]) s := by
  cases s with
  | nil => simp [Unfinished, h]
  | cons d rest => simp [Unfinished]

theorem splitOn_eq_getlinesFrom (sep : UInt8) (item s : List UInt8) :
    (s.splitOn sep).modifyHead (item ++ ·) =
      getlinesFrom sep item s ++ if Unfinished sep item s then [[]] else [] := by
  induction s generalizing item with
  | nil => by_cases h : item = [] <;> simp [getlinesFrom, Unfinished, h]
  | cons c rest ih =>
    rw [List.splitOn, List.splitOnP_cons_eq_if_modifyHead, getlinesFrom]
    by_cases hSep : c = sep
    · have hRest := ih []
      simp only [List.nil_append, List.splitOn] at hRest
      have hId : (rest.splitOnP (· == sep)).modifyHead (fun x => x) = rest.splitOnP (· == sep) := by
        cases rest.splitOnP (· == sep) <;> rfl
      subst hSep
      rw [hId] at hRest
      simp [hRest, unfinished_cons_self]
    · have hRest := ih (item ++ [c])
      rw [List.splitOn] at hRest
      rw [if_neg hSep, if_neg (by simpa using hSep), List.modifyHead_modifyHead]
      simp only [unfinished_cons hSep]
      rw [← hRest]
      congr 1
      funext x
      simp

/-- What line-by-line reading makes of a text, compared with splitting it. -/
theorem splitOn_eq_getlines (sep : UInt8) (s : List UInt8) :
    s.splitOn sep = getlines sep s ++ if Unfinished sep [] s then [[]] else [] := by
  rw [getlines, ← splitOn_eq_getlinesFrom]
  cases s.splitOn sep <;> rfl

theorem notMem_of_mem_getlinesFrom {sep c : UInt8} {item s : List UInt8} (hItem : c ∉ item) (hText : c ∉ s) :
    ∀ line ∈ getlinesFrom sep item s, c ∉ line := by
  intro line hMem
  induction s generalizing item with
  | nil =>
    rw [getlinesFrom] at hMem
    split at hMem
    · exact absurd hMem List.not_mem_nil
    · exact List.mem_singleton.mp hMem ▸ hItem
  | cons d rest ih =>
    obtain ⟨hHead, hTail⟩ := not_or.mp (mt List.mem_cons.mpr hText)
    rw [getlinesFrom] at hMem
    split at hMem
    · cases List.mem_cons.mp hMem with
      | inl hFirst => exact hFirst ▸ hItem
      | inr hRest => exact ih List.not_mem_nil hTail hRest
    · apply ih _ hTail hMem
      simp [hItem, hHead]

theorem notMem_of_mem_splitOn (sep : UInt8) (s : List UInt8) : ∀ item ∈ s.splitOn sep, sep ∉ item := by
  induction s with
  | nil => simp [List.splitOn]
  | cons c rest ih =>
    rw [List.splitOn] at ih ⊢
    rw [List.splitOnP_cons_eq_if_modifyHead]
    obtain ⟨first, others, hItems⟩ := List.exists_cons_of_ne_nil (List.splitOnP_ne_nil (· == sep) rest)
    rw [hItems] at ih ⊢
    split
    · simpa using ih
    · rename_i hNe
      have hFirst : sep ∉ first := ih first List.mem_cons_self
      intro item hMem
      cases List.mem_cons.mp hMem with
      | inl hHead =>
        rw [hHead, List.mem_cons, not_or]
        exact ⟨fun hEq => hNe (by simp [hEq]), hFirst⟩
      | inr hTail => exact ih item (List.mem_cons_of_mem _ hTail)

/-- Joined items are told apart again exactly if the separator is in none of them. -/
theorem splitOn_intercalate_iff {sep : UInt8} {items : List (List UInt8)} (hSome : items ≠ []) :
    ([sep].intercalate items).splitOn sep = items ↔ ∀ item ∈ items, sep ∉ item := by
  constructor
  · intro hSplit item hMem
    rw [← hSplit] at hMem
    exact notMem_of_mem_splitOn sep _ item hMem
  · intro hFree
    exact List.splitOn_intercalate sep hFree hSome

section Strip

variable {α : Type} (blank : α → Bool)

def strip (s : List α) : List α := (s.dropWhile blank).rdropWhile blank

variable {blank}

theorem rdropWhile_append_of_blank {s post : List α} (h : ∀ c ∈ post, blank c = true) :
    (s ++ post).rdropWhile blank = s.rdropWhile blank := by
  rw [List.rdropWhile, List.reverse_append, List.dropWhile_append_of_pos, List.rdropWhile]
  intro c hMem
  exact h c (List.mem_reverse.mp hMem)

/-- What stands at the two ends is not blank. -/
structure Clear (blank : α → Bool) (s : List α) : Prop where
  first : ∀ c ∈ s.head?, blank c = false
  last : ∀ c ∈ s.getLast?, blank c = false

theorem Clear.of_forall {s : List α} (h : ∀ c ∈ s, blank c = false) : Clear blank s :=
  ⟨fun c hFirst => h c (List.mem_of_mem_head? hFirst), fun c hLast => h c (List.mem_of_mem_getLast? hLast)⟩

theorem dropWhile_of_first {s : List α} (h : ∀ c ∈ s.head?, blank c = false) : s.dropWhile blank = s := by
  cases s with
  | nil => rfl
  | cons c rest => rw [List.dropWhile_cons_of_neg (by simp [h c rfl])]

theorem rdropWhile_of_last {s : List α} (h : ∀ c ∈ s.getLast?, blank c = false) : s.rdropWhile blank = s := by
  rw [List.rdropWhile, dropWhile_of_first, List.reverse_reverse]
  rwa [List.head?_reverse]

/-- Only the blanks at the ends are stripped. -/
theorem strip_eq {pre core post : List α} (hPre : ∀ c ∈ pre, blank c = true) (hCore : Clear blank core)
    (hPost : ∀ c ∈ post, blank c = true) : strip blank (pre ++ core ++ post) = core := by
  rw [strip, List.append_assoc, List.dropWhile_append_of_pos hPre]
  cases core with
  | nil =>
    rw [List.nil_append, List.dropWhile_eq_nil_iff.mpr hPost]
    rfl
  | cons c core =>
    have hFirst : ∀ d ∈ (c :: core ++ post).head?, blank d = false := hCore.first
    rw [dropWhile_of_first hFirst, rdropWhile_append_of_blank hPost, rdropWhile_of_last hCore.last]

/-- `core` is what is left of `s` when blanks are taken off its ends. -/
def Peeled (blank : α → Bool) (s core : List α) : Prop :=
  ∃ pre post, s = pre ++ core ++ post ∧ (∀ c ∈ pre, blank c = true) ∧ ∀ c ∈ post, blank c = true

namespace Peeled

variable {s t u : List α} {q : α → Bool}

theorem trans (h : Peeled blank s t) (h' : Peeled blank t u) : Peeled blank s u := by
  obtain ⟨pre, post, rfl, hPre, hPost⟩ := h
  obtain ⟨pre', post', rfl, hPre', hPost'⟩ := h'
  refine ⟨pre ++ pre', post' ++ post, by simp only [List.append_assoc], ?_, ?_⟩
  · intro c hMem
    exact (List.mem_append.mp hMem).elim (hPre c) (hPre' c)
  · intro c hMem
    exact (List.mem_append.mp hMem).elim (hPost' c) (hPost c)

theorem dropWhile (hBlank : ∀ c, q c = true → blank c = true) (s : List α) : Peeled blank s (s.dropWhile q) := by
  refine ⟨s.takeWhile q, [], ?_, ?_, ?_⟩
  · rw [List.append_nil, List.takeWhile_append_dropWhile]
  · intro c hMem
    exact hBlank c (List.mem_takeWhile_imp hMem)
  · exact fun c hMem => absurd hMem List.not_mem_nil

theorem rdropWhile (hBlank : ∀ c, q c = true → blank c = true) (s : List α) : Peeled blank s (s.rdropWhile q) := by
  refine ⟨[], s.rtakeWhile q, ?_, ?_, ?_⟩
  · rw [List.nil_append, List.rdropWhile_append_rtakeWhile]
  · exact fun c hMem => absurd hMem List.not_mem_nil
  · intro c hMem
    exact hBlank c (List.mem_rtakeWhile_imp hMem)

theorem strip_eq (h : Peeled blank s t) (hCore : Clear blank t) : strip blank s = t := by
  obtain ⟨pre, post, rfl, hPre, hPost⟩ := h
  exact Text.strip_eq hPre hCore hPost

end Peeled

end Strip

end LibUrx.Text
