import LibUrx.Base.Histories

/-! # New values in front of old ones

Values wander through a chain of places, each copied from the place before it. Seen from the source, what is new comes
before what is old, and copying, losing and renewing values keep it so.
-/
namespace LibUrx.Provenance
set_option autoImplicit false

variable {α : Type}

def NewFirst (new old : α → Prop) (xs : List α) : Prop :=
  ∃ front back, xs = front ++ back ∧ (∀ x ∈ front, new x) ∧ ∀ x ∈ back, old x

variable {new old : α → Prop} {x y : α} {xs ys rest : List α}

theorem newFirst_of_old (h : ∀ x ∈ xs, old x) : NewFirst new old xs :=
  ⟨[], xs, rfl, List.forall_mem_nil _, h⟩

theorem newFirst_of_new (h : ∀ x ∈ xs, new x) : NewFirst new old xs :=
  ⟨xs, [], (List.append_nil xs).symm, h, List.forall_mem_nil _⟩

theorem NewFirst.mono {new' old' : α → Prop} (h : NewFirst new old xs) (hNew : ∀ x, new x → new' x)
    (hOld : ∀ x, old x → old' x) : NewFirst new' old' xs := by
  obtain ⟨front, back, rfl, hFront, hBack⟩ := h
  exact ⟨front, back, rfl, fun x hMem => hNew x (hFront x hMem), fun x hMem => hOld x (hBack x hMem)⟩

theorem NewFirst.cons (h : NewFirst new old xs) (hNew : new x) : NewFirst new old (x :: xs) := by
  obtain ⟨front, back, rfl, hFront, hBack⟩ := h
  exact ⟨x :: front, back, rfl, List.forall_mem_cons.mpr ⟨hNew, hFront⟩, hBack⟩

theorem NewFirst.sublist (h : NewFirst new old xs) (hSub : ys.Sublist xs) : NewFirst new old ys := by
  obtain ⟨front, back, rfl, hFront, hBack⟩ := h
  obtain ⟨front', back', rfl, hFront', hBack'⟩ := List.sublist_append_iff.mp hSub
  exact ⟨front', back', rfl, fun x hMem => hFront x (hFront'.subset hMem), fun x hMem => hBack x (hBack'.subset hMem)⟩

/-- A copy is as new as what it is taken from. -/
theorem NewFirst.copy (front : List α) {new' : α → Prop} (h : NewFirst new old (front ++ x :: rest))
    (hKept : ∀ z, new z → new' z) (hNew : new x → new' y) (hOld : old x → old y) :
    NewFirst new' old (front ++ x :: y :: rest) := by
  obtain ⟨news, olds, hSplit, hFront, hBack⟩ := h
  have hOlds (zs : List α) (hZs : ∀ z ∈ zs ++ x :: rest, old z) : ∀ z ∈ zs ++ x :: y :: rest, old z := by
    obtain ⟨hZ, hRest⟩ := List.forall_mem_append.mp hZs
    obtain ⟨hX, hRest⟩ := List.forall_mem_cons.mp hRest
    exact List.forall_mem_append.mpr ⟨hZ, List.forall_mem_cons.mpr ⟨hX, List.forall_mem_cons.mpr ⟨hOld hX, hRest⟩⟩⟩
  rcases List.append_eq_append_iff.mp hSplit with ⟨news', rfl, hRest⟩ | ⟨olds', rfl, rfl⟩
  · obtain ⟨hOuter, hInner⟩ := List.forall_mem_append.mp hFront
    cases news' with
    | nil =>
      rw [List.nil_append] at hRest
      exact ⟨front, x :: y :: rest, rfl, fun z hMem => hKept z (hOuter z hMem), hOlds [] (hRest ▸ hBack)⟩
    | cons z news' =>
      rw [List.cons_append] at hRest
      obtain ⟨rfl, rfl⟩ := List.cons.inj hRest
      obtain ⟨hX, hInner⟩ := List.forall_mem_cons.mp hInner
      refine ⟨front ++ x :: y :: news', olds, by simp, ?_, hBack⟩
      exact List.forall_mem_append.mpr ⟨fun z hMem => hKept z (hOuter z hMem), List.forall_mem_cons.mpr
        ⟨hKept x hX, List.forall_mem_cons.mpr ⟨hNew hX, fun z hMem => hKept z (hInner z hMem)⟩⟩⟩
  · exact ⟨news, olds' ++ x :: y :: rest, List.append_assoc _ _ _, fun z hMem => hKept z (hFront z hMem),
      hOlds olds' hBack⟩

/-- If the last value is not old, none is. -/
theorem NewFirst.all_new (h : NewFirst new old (xs ++ [x])) (hNot : ¬ old x) : ∀ y ∈ xs ++ [x], new y := by
  obtain ⟨front, back, hSplit, hFront, hBack⟩ := h
  rcases List.eq_nil_or_concat back with rfl | ⟨back, last, rfl⟩
  · rw [hSplit, List.append_nil]
    exact hFront
  · rw [List.concat_eq_append, ← List.append_assoc] at hSplit
    obtain rfl := List.singleton_inj.mp (List.append_inj' hSplit rfl).2
    exact absurd (hBack x (by simp)) hNot

end LibUrx.Provenance
