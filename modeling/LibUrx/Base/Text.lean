import Mathlib.Data.List.Basic
import Mathlib.Data.List.TakeWhile

/-! # Text as bytes, and the string functions of the C and C++ libraries

A string is its list of bytes. Where a function sees a zero-terminated string, the end of the
list stands for the terminator.
-/
namespace LibUrx.Text
set_option autoImplicit false

/-- The bytes of a string literal. -/
def text (s : String) : List UInt8 := s.toByteArray.data.toList

def comma : UInt8 := 44

/-- What a C function sees of a byte string: everything before the first zero byte. -/
def cStr (s : List UInt8) : List UInt8 := s.takeWhile (· ≠ 0)

/-- `strncmp(a, b, n) == 0`: at most `n` bytes are compared, and none behind a terminator. -/
def strncmpEq : List UInt8 → List UInt8 → Nat → Bool
  | _, _, 0 => true
  | a, b, n + 1 => a.headD 0 == b.headD 0 && (a.headD 0 == 0 || strncmpEq a.tail b.tail n)

/-- Repeated `std::getline` with delimiter `sep`, the first argument being the item read so far:
a delimiter ends an item, and the end of the text ends one only if it is not empty. -/
def getlinesFrom (sep : UInt8) : List UInt8 → List UInt8 → List (List UInt8)
  | item, [] => if item = [] then [] else [item]
  | item, c :: rest => if c = sep then item :: getlinesFrom sep [] rest else getlinesFrom sep (item ++ [c]) rest

def getlines (sep : UInt8) (s : List UInt8) : List (List UInt8) := getlinesFrom sep [] s

theorem length_getlinesFrom_le (sep : UInt8) (item s : List UInt8) :
    (getlinesFrom sep item s).length ≤ s.length + 1 := by
  induction s generalizing item with
  | nil =>
    rw [getlinesFrom]
    split <;> simp
  | cons c rest ih =>
    rw [getlinesFrom]
    split
    · exact Nat.succ_le_succ (ih [])
    · exact (ih (item ++ [c])).trans (Nat.le_succ _)

theorem strncmpEq_iff (a b : List UInt8) (n : Nat) :
    strncmpEq a b n = true ↔ (cStr a).take n = (cStr b).take n := by
  induction n generalizing a b with
  | zero => simp [strncmpEq]
  | succ n ih =>
    cases a with
    | nil =>
      cases b with
      | nil => simp [strncmpEq, cStr]
      | cons y b => by_cases hy : y = 0 <;> simp [strncmpEq, cStr, hy, Ne.symm]
    | cons x a =>
      cases b with
      | nil => by_cases hx : x = 0 <;> simp [strncmpEq, cStr, hx]
      | cons y b =>
        by_cases hx : x = 0
        · by_cases hy : y = 0 <;> simp [strncmpEq, cStr, hx, hy, Ne.symm]
        · by_cases hy : y = 0
          · simp [strncmpEq, cStr, hx, hy]
          · have hTail := ih a b
            simp only [cStr] at hTail
            simp [strncmpEq, cStr, hx, hy, hTail]

theorem notMem_cStr (s : List UInt8) : (0 : UInt8) ∉ cStr s := by
  intro h
  simpa using List.mem_takeWhile_imp h

theorem cStr_eq_self_iff {s : List UInt8} : cStr s = s ↔ 0 ∉ s := by
  rw [cStr, List.takeWhile_eq_self_iff]
  constructor
  · intro h hMem
    simpa using h 0 hMem
  · intro h c hMem
    simpa using fun hEq : c = 0 => h (hEq ▸ hMem)

/-- The terminator is among the first `n` bytes. -/
theorem length_cStr_lt_iff {s : List UInt8} {n : Nat} (h : n ≤ s.length) : (cStr s).length < n ↔ 0 ∈ s.take n := by
  induction s generalizing n with
  | nil =>
    obtain rfl : n = 0 := Nat.le_zero.mp h
    simp
  | cons c rest ih =>
    cases n with
    | zero => simp
    | succ n =>
      rw [List.take_succ_cons, List.mem_cons, cStr, List.takeWhile_cons]
      by_cases hZero : c = 0
      · simp [hZero]
      · have hRest := ih (Nat.le_of_succ_le_succ h)
        rw [if_pos (by simpa using hZero), List.length_cons, Nat.succ_lt_succ_iff, or_iff_right (Ne.symm hZero)]
        exact hRest

/-- Behind the terminator nothing matters. -/
theorem cStr_append {s : List UInt8} (h : 0 ∈ s) (rest : List UInt8) : cStr (s ++ rest) = cStr s := by
  rw [cStr, List.takeWhile_append, if_neg]
  · rfl
  · intro hAll
    exact absurd ((length_cStr_lt_iff le_rfl).mpr (by rwa [List.take_length])) (Nat.not_lt.mpr hAll.ge)

theorem getlinesFrom_append {sep : UInt8} {s : List UInt8} (hs : sep ∉ s) (item rest : List UInt8) :
    getlinesFrom sep item (s ++ rest) = getlinesFrom sep (item ++ s) rest := by
  induction s generalizing item with
  | nil => simp
  | cons c s ih =>
    have hc : c ≠ sep := fun hEq => hs (hEq ▸ List.mem_cons_self)
    have hTail : sep ∉ s := fun hMem => hs (List.mem_cons_of_mem _ hMem)
    rw [List.cons_append, getlinesFrom, if_neg hc, ih hTail, List.append_assoc]
    rfl

/-- With a delimiter behind each item the text is there again, ended by a delimiter. -/
theorem join_getlinesFrom (sep : UInt8) (item s : List UInt8) (h : item ++ s ≠ []) :
    ([sep] <:+ s ∧ ((getlinesFrom sep item s).flatMap fun line => line ++ [sep]) = item ++ s) ∨
      ((getlinesFrom sep item s).flatMap fun line => line ++ [sep]) = item ++ s ++ [sep] := by
  induction s generalizing item with
  | nil =>
    rw [List.append_nil] at h
    rw [getlinesFrom, if_neg h]
    exact Or.inr (by simp)
  | cons c rest ih =>
    rw [getlinesFrom]
    split
    · rename_i hEnd
      subst hEnd
      rw [List.flatMap_cons]
      cases rest with
      | nil => exact Or.inl ⟨List.suffix_rfl, by simp [getlinesFrom]⟩
      | cons d more =>
        cases ih [] (List.cons_ne_nil d more) with
        | inl hSame => exact Or.inl ⟨hSame.1.trans (List.suffix_cons _ _), by simp [hSame.2]⟩
        | inr hMore => exact Or.inr (by simp [hMore])
    · cases ih (item ++ [c]) (by simp) with
      | inl hSame => exact Or.inl ⟨hSame.1.trans (List.suffix_cons _ _), by simp [hSame.2]⟩
      | inr hMore => exact Or.inr (by simp [hMore])

theorem join_getlines (sep : UInt8) {s : List UInt8} (h : s ≠ []) :
    ([sep] <:+ s ∧ ((getlines sep s).flatMap fun line => line ++ [sep]) = s) ∨
      ((getlines sep s).flatMap fun line => line ++ [sep]) = s ++ [sep] := join_getlinesFrom sep [] s h

/-- Items joined by the delimiter are read back, provided the text does not end in an empty item. -/
theorem getlines_intercalate {sep : UInt8} {items : List (List UInt8)} (hSep : ∀ item ∈ items, sep ∉ item)
    (hLast : ∀ item ∈ items.getLast?, item ≠ []) : getlines sep ([sep].intercalate items) = items := by
  have hItem : ∀ item : List UInt8, sep ∉ item → getlinesFrom sep [] item = getlinesFrom sep item [] := by
    intro item h
    simpa using getlinesFrom_append h [] []
  induction items with
  | nil => rfl
  | cons item rest ih =>
    have hHead : sep ∉ item := hSep item List.mem_cons_self
    cases rest with
    | nil =>
      have hNe : item ≠ [] := hLast item (by simp)
      rw [List.intercalate_singleton, getlines, hItem item hHead, getlinesFrom, if_neg hNe]
    | cons next rest =>
      have hTail := ih (List.forall_mem_of_forall_mem_cons hSep) (by simpa using hLast)
      rw [List.intercalate_cons_cons, getlines, List.append_assoc, getlinesFrom_append hHead, List.nil_append,
        List.singleton_append, getlinesFrom, if_pos rfl]
      exact congrArg (item :: ·) hTail

end LibUrx.Text
