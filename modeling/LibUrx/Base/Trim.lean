import LibUrx.Base.Split

/-! # Trimming two kinds of blanks one after the other

Each end is trimmed once for each kind, the outer kind first. What is left is clear of both kinds if the blanks
come in this order, and else a blank of the outer kind stays behind one of the inner kind.
-/
namespace LibUrx.Text
set_option autoImplicit false

variable {α : Type} {p q : α → Bool}

/-- Take the outer blanks and then the inner ones off the front. -/
def trimFront (p q : α → Bool) (s : List α) : List α := (s.dropWhile p).dropWhile q

def trimBack (p q : α → Bool) (s : List α) : List α := (s.rdropWhile p).rdropWhile q

def trimBoth (p q : α → Bool) (s : List α) : List α := trimFront p q (trimBack p q s)

/-- At both ends the blanks of the kind `p` are outside and those of the kind `q` inside. -/
def Layered (p q : α → Bool) (s : List α) : Prop :=
  ∃ w e core e' w', s = w ++ (e ++ core ++ e') ++ w' ∧ (∀ c ∈ w, p c = true) ∧ (∀ c ∈ e, q c = true) ∧
    Clear (fun c => p c || q c) core ∧ (∀ c ∈ e', q c = true) ∧ ∀ c ∈ w', p c = true

theorem trimBack_eq (p q : α → Bool) (s : List α) : trimBack p q s = (trimFront p q s.reverse).reverse := by
  rw [trimBack, trimFront, List.rdropWhile, List.rdropWhile, List.reverse_reverse]

/-- Both kinds go, if what follows does not continue the last of them. -/
theorem trimFront_append (hDisjoint : ∀ c, p c = true → q c = false) {w e rest : List α} (hw : ∀ c ∈ w, p c = true)
    (he : ∀ c ∈ e, q c = true) (hq : ∀ c ∈ rest.head?, q c = false)
    (hp : e = [] → ∀ c ∈ rest.head?, p c = false) : trimFront p q (w ++ e ++ rest) = rest := by
  have hInner : (e ++ rest).dropWhile p = e ++ rest := by
    apply dropWhile_of_first
    intro c hFirst
    cases e with
    | nil => exact hp rfl c hFirst
    | cons d e =>
      obtain rfl := Option.some.inj hFirst
      apply Bool.eq_false_iff.mpr
      intro hOuter
      have hInner := he d List.mem_cons_self
      rw [hDisjoint d hOuter] at hInner
      cases hInner
  rw [trimFront, List.append_assoc, List.dropWhile_append_of_pos hw, hInner, List.dropWhile_append_of_pos he]
  exact dropWhile_of_first hq

theorem trimBack_append (hDisjoint : ∀ c, p c = true → q c = false) {rest e w : List α} (hw : ∀ c ∈ w, p c = true)
    (he : ∀ c ∈ e, q c = true) (hq : ∀ c ∈ rest.getLast?, q c = false)
    (hp : e = [] → ∀ c ∈ rest.getLast?, p c = false) : trimBack p q (rest ++ (e ++ w)) = rest := by
  rw [trimBack_eq, List.reverse_append, List.reverse_append, trimFront_append hDisjoint, List.reverse_reverse]
  · exact fun c hMem => hw c (List.mem_reverse.mp hMem)
  · exact fun c hMem => he c (List.mem_reverse.mp hMem)
  · rwa [List.head?_reverse]
  · rw [List.head?_reverse, List.reverse_eq_nil_iff]
    exact hp

theorem Clear.outer {s : List α} (h : Clear (fun c => p c || q c) s) : Clear p s :=
  ⟨fun c hFirst => (Bool.or_eq_false_iff.mp (h.first c hFirst)).1,
    fun c hLast => (Bool.or_eq_false_iff.mp (h.last c hLast)).1⟩

theorem Clear.inner {s : List α} (h : Clear (fun c => p c || q c) s) : Clear q s :=
  ⟨fun c hFirst => (Bool.or_eq_false_iff.mp (h.first c hFirst)).2,
    fun c hLast => (Bool.or_eq_false_iff.mp (h.last c hLast)).2⟩

theorem trimBoth_of_clear {s : List α} (h : Clear (fun c => p c || q c) s) : trimBoth p q s = s := by
  have hBack : trimBack p q s = s := by
    rw [trimBack, rdropWhile_of_last h.outer.last]
    exact rdropWhile_of_last h.inner.last
  rw [trimBoth, hBack, trimFront, dropWhile_of_first h.outer.first]
  exact dropWhile_of_first h.inner.first

/-- The blanks are trimmed in layers, whatever stays behind them. -/
theorem exists_layers (p q : α → Bool) (s : List α) : ∃ w e e' w', s = w ++ (e ++ trimBoth p q s ++ e') ++ w' ∧
    (∀ c ∈ w, p c = true) ∧ (∀ c ∈ e, q c = true) ∧ (∀ c ∈ e', q c = true) ∧ ∀ c ∈ w', p c = true := by
  refine ⟨(trimBack p q s).takeWhile p, ((trimBack p q s).dropWhile p).takeWhile q, (s.rdropWhile p).rtakeWhile q,
    s.rtakeWhile p, ?_, fun _ => List.mem_takeWhile_imp, fun _ => List.mem_takeWhile_imp,
    fun _ => List.mem_rtakeWhile_imp, fun _ => List.mem_rtakeWhile_imp⟩
  calc
    s = s.rdropWhile p ++ s.rtakeWhile p := (List.rdropWhile_append_rtakeWhile ..).symm
    _ = trimBack p q s ++ (s.rdropWhile p).rtakeWhile q ++ s.rtakeWhile p := by
      simp only [trimBack, List.rdropWhile_append_rtakeWhile]
    _ = (trimBack p q s).takeWhile p ++ (((trimBack p q s).dropWhile p).takeWhile q ++ trimBoth p q s ++
        (s.rdropWhile p).rtakeWhile q) ++ s.rtakeWhile p := by
      rw [trimBoth, trimFront, List.takeWhile_append_dropWhile, ← List.append_assoc (List.takeWhile p _),
        List.takeWhile_append_dropWhile]

/-- Of blanks in layers nothing is left. -/
theorem trimBoth_blank (hDisjoint : ∀ c, p c = true → q c = false) {w e w' : List α} (hw : ∀ c ∈ w, p c = true)
    (he : ∀ c ∈ e, q c = true) (hw' : ∀ c ∈ w', p c = true) : trimBoth p q (w ++ e ++ w') = [] := by
  rw [trimBoth]
  by_cases hNone : e = []
  · have hAll : (w ++ e ++ w').rdropWhile p = [] := by
      rw [hNone, List.append_nil]
      apply List.rdropWhile_eq_nil_iff.mpr
      intro c hMem
      exact (List.mem_append.mp hMem).elim (hw c) (hw' c)
    rw [trimBack, hAll]
    rfl
  · have hBack : trimBack p q (w ++ e ++ w') = w := by
      rw [List.append_assoc]
      apply trimBack_append hDisjoint hw' he
      · exact fun c hLast => hDisjoint c (hw c (List.mem_of_mem_getLast? hLast))
      · exact fun hNil => absurd hNil hNone
    rw [hBack, trimFront, List.dropWhile_eq_nil_iff.mpr hw]
    rfl

theorem trimBoth_layers (hDisjoint : ∀ c, p c = true → q c = false) {w e core e' w' : List α}
    (hw : ∀ c ∈ w, p c = true) (he : ∀ c ∈ e, q c = true) (hCore : Clear (fun c => p c || q c) core)
    (he' : ∀ c ∈ e', q c = true) (hw' : ∀ c ∈ w', p c = true) :
    trimBoth p q (w ++ (e ++ core ++ e') ++ w') = core := by
  cases core with
  | nil =>
    rw [List.append_nil]
    apply trimBoth_blank hDisjoint hw _ hw'
    intro c hMem
    exact (List.mem_append.mp hMem).elim (he c) (he' c)
  | cons c core =>
    have hBack : trimBack p q (w ++ (e ++ c :: core ++ e') ++ w') = w ++ e ++ c :: core := by
      have hSplit : w ++ (e ++ c :: core ++ e') ++ w' = w ++ e ++ c :: core ++ (e' ++ w') := by
        simp only [List.append_assoc]
      have hLast : (w ++ e ++ c :: core).getLast? = (c :: core).getLast? :=
        List.getLast?_append_of_ne_nil _ (List.cons_ne_nil c core)
      rw [hSplit]
      apply trimBack_append hDisjoint hw' he'
      · rw [hLast]
        exact hCore.inner.last
      · rw [hLast]
        exact fun _ => hCore.outer.last
    rw [trimBoth, hBack]
    apply trimFront_append hDisjoint hw he
    · exact hCore.inner.first
    · exact fun _ => hCore.outer.first

/-- Nothing blank is left at the ends if and only if the blanks come in layers. -/
theorem clear_trimBoth_iff (hDisjoint : ∀ c, p c = true → q c = false) (s : List α) :
    Clear (fun c => p c || q c) (trimBoth p q s) ↔ Layered p q s := by
  constructor
  · intro hClear
    obtain ⟨w, e, e', w', hSplit, hw, he, he', hw'⟩ := exists_layers p q s
    exact ⟨w, e, trimBoth p q s, e', w', hSplit, hw, he, hClear, he', hw'⟩
  · rintro ⟨w, e, core, e', w', rfl, hw, he, hCore, he', hw'⟩
    rw [trimBoth_layers hDisjoint hw he hCore he' hw']
    exact hCore

end LibUrx.Text
