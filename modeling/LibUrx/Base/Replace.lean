import Mathlib.Data.List.Infix

/-! # Replacing in a text

A text is searched from its front, and the search goes on behind each occurrence that it replaces. Two kinds
of replacement are simpler than that: leaving an element out in front of another one, and writing one element
as several.
-/
namespace LibUrx.Text
set_option autoImplicit false

variable {α : Type} [DecidableEq α]

/-- The replacement, where the first elements of the text belong to an occurrence that has been replaced. -/
def replaceFrom (search format : List α) : Nat → List α → List α
  | _, [] => []
  | skip + 1, _ :: rest => replaceFrom search format skip rest
  | 0, c :: rest =>
    if search.isPrefixOf (c :: rest) then format ++ replaceFrom search format (search.length - 1) rest
    else c :: replaceFrom search format 0 rest

def replaceAll (text search format : List α) : List α := replaceFrom search format 0 text

/-- Leave out every `a` that stands directly in front of a `b`. -/
def dropBefore (a b : α) : List α → List α
  | [] => []
  | c :: rest => if c = a ∧ rest.head? = some b then dropBefore a b rest else c :: dropBefore a b rest

/-- Write `format` for every `a`. -/
def expand (a : α) (format text : List α) : List α := text.flatMap fun c => if c = a then format else [c]

theorem isPrefixOf_pair (a b c : α) (rest : List α) :
    [a, b].isPrefixOf (c :: rest) = true ↔ c = a ∧ rest.head? = some b := by
  rw [List.isPrefixOf_iff_prefix, List.cons_prefix_cons, eq_comm]
  apply and_congr_right
  intro _
  cases rest with
  | nil => simp
  | cons d rest => simp [List.cons_prefix_cons, eq_comm]

theorem infix_pair_cons {a b c : α} {rest : List α} :
    [a, b] <:+: c :: rest ↔ (c = a ∧ rest.head? = some b) ∨ [a, b] <:+: rest := by
  rw [List.infix_cons_iff, ← List.isPrefixOf_iff_prefix, isPrefixOf_pair]

theorem replaceAll_pair {a b : α} (h : b ≠ a) (text : List α) : replaceAll text [a, b] [b] = dropBefore a b text := by
  unfold replaceAll
  induction text with
  | nil => rfl
  | cons c rest ih =>
    rw [replaceFrom, dropBefore]
    by_cases hHere : c = a ∧ rest.head? = some b
    · rw [if_pos ((isPrefixOf_pair a b c rest).mpr hHere), if_pos hHere, ← ih]
      obtain ⟨more, rfl⟩ := List.head?_eq_some_iff.mp hHere.2
      have hNext : ¬ [a, b].isPrefixOf (b :: more) = true := fun hPrefix =>
        h ((isPrefixOf_pair a b b more).mp hPrefix).1
      simp only [List.length_cons, List.length_nil, replaceFrom, if_neg hNext]
      rfl
    · rw [if_neg (mt (isPrefixOf_pair a b c rest).mp hHere), if_neg hHere, ih]

theorem replaceAll_singleton (a : α) (format text : List α) : replaceAll text [a] format = expand a format text := by
  unfold replaceAll
  induction text with
  | nil => rfl
  | cons c rest ih =>
    rw [replaceFrom, expand, List.flatMap_cons, ← expand, ← ih]
    by_cases hHere : c = a
    · rw [if_pos (by simp [hHere]), if_pos hHere]
      rfl
    · rw [if_neg (by simp [Ne.symm hHere]), if_neg hHere]
      rfl

section DropBefore

variable {a b : α} {text : List α}

theorem dropBefore_sublist : (dropBefore a b text).Sublist text := by
  induction text with
  | nil => exact .slnil
  | cons c rest ih =>
    rw [dropBefore]
    split
    · exact ih.cons c
    · exact ih.cons_cons c

theorem dropBefore_eq_self_iff : dropBefore a b text = text ↔ ¬ [a, b] <:+: text := by
  induction text with
  | nil => simp [dropBefore]
  | cons c rest ih =>
    rw [dropBefore, infix_pair_cons]
    split
    · rename_i hHere
      refine iff_of_false (fun hSame => ?_) (not_not.mpr (Or.inl hHere))
      have hLength : (dropBefore a b rest).length ≤ rest.length := dropBefore_sublist.length_le
      rw [hSame, List.length_cons] at hLength
      omega
    · rename_i hHere
      rw [List.cons.injEq, and_iff_right rfl, ih, or_iff_right hHere]

theorem head_dropBefore (h : b ≠ a) :
    (dropBefore a b text).head? = some b ↔ text.head? = some b ∨ [a, b] <+: text := by
  cases text with
  | nil => simp [dropBefore]
  | cons c rest =>
    rw [dropBefore, ← List.isPrefixOf_iff_prefix, isPrefixOf_pair]
    split
    · rename_i hHere
      obtain ⟨more, rfl⟩ := List.head?_eq_some_iff.mp hHere.2
      have hKept : dropBefore a b (b :: more) = b :: dropBefore a b more := by
        rw [dropBefore, if_neg fun hNext => h hNext.1]
      rw [hKept]
      exact iff_of_true rfl (Or.inr hHere)
    · rename_i hHere
      rw [List.head?_cons, List.head?_cons, or_iff_left hHere]

theorem infix_dropBefore_iff (h : b ≠ a) : [a, b] <:+: dropBefore a b text ↔ [a, a, b] <:+: text := by
  induction text with
  | nil => simp [dropBefore]
  | cons c rest ih =>
    rw [dropBefore, List.infix_cons_iff, List.cons_prefix_cons]
    split
    · rename_i hHere
      rw [ih, or_iff_right]
      rintro ⟨-, hPrefix⟩
      obtain ⟨more, rfl⟩ := List.head?_eq_some_iff.mp hHere.2
      exact h (List.cons_prefix_cons.mp hPrefix).1.symm
    · rename_i hHere
      rw [infix_pair_cons, ih, head_dropBefore h, eq_comm]
      apply or_congr_left
      apply and_congr_right
      rintro rfl
      exact or_iff_right fun hHead => hHere ⟨rfl, hHead⟩

theorem dropBefore_ne_nil (h : b ≠ a) (hText : text ≠ []) : dropBefore a b text ≠ [] := by
  obtain ⟨c, rest, rfl⟩ := List.exists_cons_of_ne_nil hText
  by_cases hHere : c = a ∧ rest.head? = some b
  · have hPrefix := List.isPrefixOf_iff_prefix.mp ((isPrefixOf_pair a b c rest).mpr hHere)
    have hHead := (head_dropBefore h).mpr (Or.inr hPrefix)
    intro hNil
    rw [hNil] at hHead
    cases hHead
  · rw [dropBefore, if_neg hHere]
    exact List.cons_ne_nil _ _

theorem suffix_dropBefore (h : b ≠ a) (hText : [b] <:+ text) : [b] <:+ dropBefore a b text := by
  induction text with
  | nil => exact hText
  | cons c rest ih =>
    rw [dropBefore]
    cases List.suffix_cons_iff.mp hText with
    | inl hLast =>
      obtain ⟨rfl, rfl⟩ := List.cons.inj hLast
      rw [if_neg fun hHere => h hHere.1]
      exact List.suffix_rfl
    | inr hRest =>
      split
      · exact ih hRest
      · exact (ih hRest).trans (List.suffix_cons _ _)

end DropBefore

section Expand

variable {a : α} {format text : List α}

theorem expand_cons (c : α) (rest : List α) :
    expand a format (c :: rest) = (if c = a then format else [c]) ++ expand a format rest := List.flatMap_cons

theorem notMem_expand (h : a ∉ format) : a ∉ expand a format text := by
  intro hMem
  obtain ⟨c, -, hPiece⟩ := List.mem_flatMap.mp hMem
  split at hPiece
  · exact h hPiece
  · rename_i hNe
    exact hNe (List.mem_singleton.mp hPiece).symm

theorem expand_eq_self (h : a ∉ text) : expand a format text = text := by
  induction text with
  | nil => rfl
  | cons c rest ih =>
    rw [List.mem_cons, not_or] at h
    rw [expand_cons, if_neg (Ne.symm h.1), ih h.2]
    rfl

theorem expand_ne_nil (hFormat : format ≠ []) (hText : text ≠ []) : expand a format text ≠ [] := by
  obtain ⟨c, rest, rfl⟩ := List.exists_cons_of_ne_nil hText
  rw [expand_cons]
  split
  · exact List.append_ne_nil_of_left_ne_nil hFormat _
  · exact List.cons_ne_nil _ _

theorem infix_append_iff {p q : α} {front rest : List α} (hp : p ∉ front) :
    [p, q] <:+: front ++ rest ↔ [p, q] <:+: rest := by
  induction front with
  | nil => rfl
  | cons c front ih =>
    rw [List.mem_cons, not_or] at hp
    rw [List.cons_append, infix_pair_cons, ih hp.2, or_iff_right fun hHere => hp.1 hHere.1.symm]

theorem head_expand {q : α} (hFormat : format ≠ []) (hq : q ∉ format) (hqa : q ≠ a) :
    (expand a format text).head? = some q ↔ text.head? = some q := by
  cases text with
  | nil => rfl
  | cons c rest =>
    rw [expand_cons]
    split
    · rename_i hHere
      obtain ⟨d, more, rfl⟩ := List.exists_cons_of_ne_nil hFormat
      refine iff_of_false (fun hHead => ?_) fun hHead => ?_
      · exact hq (Option.some.inj hHead ▸ List.mem_cons_self)
      · exact hqa ((Option.some.inj hHead).symm.trans hHere)
    · rfl

/-- Two neighbours that have nothing to do with the replacement stay neighbours, and no new ones appear. -/
theorem infix_expand_iff {p q : α} (hFormat : format ≠ []) (hp : p ∉ format) (hpa : p ≠ a) (hq : q ∉ format)
    (hqa : q ≠ a) : [p, q] <:+: expand a format text ↔ [p, q] <:+: text := by
  induction text with
  | nil => rfl
  | cons c rest ih =>
    rw [expand_cons, infix_pair_cons]
    split
    · rename_i hHere
      rw [infix_append_iff hp, ih, or_iff_right]
      exact fun hFirst => hpa (hFirst.1.symm.trans hHere)
    · rw [List.singleton_append, infix_pair_cons, ih, head_expand hFormat hq hqa]

theorem suffix_expand {q : α} (hqa : q ≠ a) (hText : [q] <:+ text) : [q] <:+ expand a format text := by
  obtain ⟨front, rfl⟩ := hText
  refine ⟨expand a format front, ?_⟩
  rw [expand, expand, List.flatMap_append, List.flatMap_singleton, if_neg hqa]

end Expand

end LibUrx.Text
