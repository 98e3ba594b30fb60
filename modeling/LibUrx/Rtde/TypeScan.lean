import LibUrx.Rtde.StaleAnswer

/-! # Scanning a list of items

The check of a reply walks over items that are separated by commas and end at a zero byte. It looks at
every item but the last as a whole, and at the last without its last character.
-/
namespace LibUrx.Rtde
open Bytes Text
set_option autoImplicit false

/-- An item that the scan can tell from what is around it. -/
structure Item (item : List UInt8) : Prop where
  comma : Text.comma ∉ item
  zero : 0 ∉ item
  long : 2 ≤ item.length

/-- What the scan makes of a list of items. -/
def checkedItems : List (List UInt8) → Bool
  | [] => true
  | [item] => isTypeName item.dropLast
  | item :: rest => isTypeName item && checkedItems rest

/-- The scan with as many rounds as it can need. -/
def scan (buf : Buf) (stop start ptr : Nat) : Bool := scanTypes buf stop (stop - ptr) start ptr

theorem mem_slice {buf : Buf} {off n i : Nat} (hLo : off ≤ i) (hHi : i < off + n) : buf i ∈ slice buf off n := by
  rw [slice, List.mem_map]
  exact ⟨i - off, by rw [List.mem_range]; omega, by rw [Nat.add_sub_cancel' hLo]⟩

section Scan

variable {buf : Buf} {stop start : Nat}

theorem scanTypes_rounds {ptr rounds rounds' : Nat} (h : stop ≤ ptr + rounds) (h' : stop ≤ ptr + rounds') :
    scanTypes buf stop rounds start ptr = scanTypes buf stop rounds' start ptr := by
  induction rounds generalizing start ptr rounds' with
  | zero => rw [scanTypes_done (by omega), scanTypes_done (by omega)]
  | succ rounds ih =>
    cases Nat.lt_or_ge ptr stop with
    | inl hLt =>
      obtain ⟨rounds', rfl⟩ : ∃ n, rounds' = n + 1 := ⟨rounds' - 1, by omega⟩
      cases Classical.em (buf ptr = comma ∨ buf (ptr + 1) = 0) with
      | inl hEnds =>
        rw [scanTypes_item hLt hEnds, scanTypes_item hLt hEnds]
        exact congrArg _ (ih (by omega) (by omega))
      | inr hGoes =>
        obtain ⟨hHere, hNext⟩ := not_or.mp hGoes
        rw [scanTypes_skip hLt hHere hNext, scanTypes_skip hLt hHere hNext]
        exact ih (by omega) (by omega)
    | inr hDone => rw [scanTypes_done hDone, scanTypes_done hDone]

theorem scanTypes_of_scan {ptr stop' : Nat} (hStop : stop' ≤ stop) (rounds : Nat)
    (h : scan buf stop start ptr = true) : scanTypes buf stop' rounds start ptr = true := by
  induction rounds generalizing start ptr with
  | zero => rfl
  | succ rounds ih =>
    cases Nat.lt_or_ge ptr stop' with
    | inl hLt =>
      have hRounds : stop - ptr = stop - (ptr + 1) + 1 := by omega
      rw [scan, hRounds] at h
      cases Classical.em (buf ptr = comma ∨ buf (ptr + 1) = 0) with
      | inl hEnds =>
        rw [scanTypes_item (hLt.trans_le hStop) hEnds, Bool.and_eq_true] at h
        rw [scanTypes_item hLt hEnds, Bool.and_eq_true]
        exact ⟨h.1, ih ((scanTypes_rounds (by omega) (by omega)).symm.trans h.2)⟩
      | inr hGoes =>
        obtain ⟨hHere, hNext⟩ := not_or.mp hGoes
        rw [scanTypes_skip (hLt.trans_le hStop) hHere hNext] at h
        rw [scanTypes_skip hLt hHere hNext]
        exact ih h
    | inr hDone => exact scanTypes_done hDone

theorem scan_done {ptr : Nat} (h : stop ≤ ptr) : scan buf stop start ptr = true := scanTypes_done h

theorem scan_item {ptr : Nat} (hLt : ptr < stop) (h : buf ptr = comma ∨ buf (ptr + 1) = 0) :
    scan buf stop start ptr =
      (isTypeName (slice buf start (ptr - start)) && scan buf stop (ptr + 1) (ptr + 2)) := by
  have hRounds : stop - ptr = stop - (ptr + 1) + 1 := by omega
  rw [scan, hRounds, scanTypes_item hLt h]
  exact congrArg _ (scanTypes_rounds (by omega) (by omega))

theorem scan_stretch {first last : Nat} (hLe : first ≤ last) (hStop : last ≤ stop)
    (h : ∀ i, first ≤ i → i < last → buf i ≠ comma ∧ buf (i + 1) ≠ 0) :
    scan buf stop start first = scan buf stop start last := by
  obtain ⟨d, rfl⟩ := Nat.exists_eq_add_of_le hLe
  induction d generalizing first with
  | zero => rfl
  | succ d ih =>
    obtain ⟨hHere, hNext⟩ := h first le_rfl (by omega)
    have hRounds : stop - first = stop - (first + 1) + 1 := by omega
    have hShift : first + (d + 1) = first + 1 + d := by omega
    rw [scan, hRounds, scanTypes_skip (by omega) hHere hNext, hShift]
    exact ih (by omega) (by omega) fun i hLo hHi => h i (by omega) (by omega)

/-- An item that a comma ends. -/
theorem scan_comma_item {item : List UInt8} (hItem : Item item) (hText : slice buf start item.length = item)
    (hSeparator : buf (start + item.length) = comma) (hStop : start + item.length < stop) {ptr : Nat}
    (hPtr : ptr = start ∨ ptr = start + 1) :
    scan buf stop start ptr =
      (isTypeName item && scan buf stop (start + item.length + 1) (start + item.length + 2)) := by
  have hLong := hItem.long
  have hInside {i : Nat} (hLo : start ≤ i) (hHi : i < start + item.length) : buf i ∈ item := by
    rw [← hText]
    exact mem_slice hLo hHi
  have hWalk : ∀ i, ptr ≤ i → i < start + item.length → buf i ≠ comma ∧ buf (i + 1) ≠ 0 := by
    intro i hLo hHi
    constructor
    · exact fun hEq => hItem.comma (hEq ▸ hInside (by omega) hHi)
    · cases Nat.eq_or_lt_of_le (show i + 1 ≤ start + item.length from hHi) with
      | inl hEnds =>
        rw [hEnds, hSeparator]
        decide
      | inr hBefore => exact fun hEq => hItem.zero (hEq ▸ hInside (by omega) hBefore)
  rw [scan_stretch (by omega) hStop.le hWalk, scan_item hStop (Or.inl hSeparator), Nat.add_sub_cancel_left, hText]

/-- An item that the zero byte ends: the scan takes it for one character shorter. -/
theorem scan_last_item {item : List UInt8} (hItem : Item item) (hText : slice buf start item.length = item)
    (hTerminator : buf (start + item.length) = 0) (hStop : start + item.length ≤ stop) {ptr : Nat}
    (hPtr : ptr = start ∨ ptr = start + 1) :
    scan buf stop start ptr =
      (isTypeName item.dropLast && scan buf stop (start + item.length) (start + item.length + 1)) := by
  have hLong := hItem.long
  have hInside {i : Nat} (hLo : start ≤ i) (hHi : i < start + item.length) : buf i ∈ item := by
    rw [← hText]
    exact mem_slice hLo hHi
  obtain ⟨last, hLast⟩ : ∃ last, item.length = last + 1 := ⟨item.length - 1, by omega⟩
  have hWalk : ∀ i, ptr ≤ i → i < start + last → buf i ≠ comma ∧ buf (i + 1) ≠ 0 := by
    intro i hLo hHi
    constructor
    · exact fun hEq => hItem.comma (hEq ▸ hInside (by omega) (by omega))
    · exact fun hEq => hItem.zero (hEq ▸ hInside (by omega) (by omega))
  have hName : slice buf start last = item.dropLast := by
    have hPrefix := slice_take_drop buf start item.length 0 last (by omega)
    rw [hText, List.drop_zero, Nat.add_zero] at hPrefix
    rw [← hPrefix, List.dropLast_eq_take, hLast, Nat.add_sub_cancel]
  rw [hLast, ← Nat.add_assoc] at hTerminator
  rw [scan_stretch (by omega) (by omega) hWalk, scan_item (by omega) (Or.inr hTerminator), Nat.add_sub_cancel_left,
    hName, hLast]
  rfl

/-- The scan of a list, whatever stands behind its zero byte. -/
theorem scan_list {items : List (List UInt8)} (hNe : items ≠ []) (hItems : ∀ item ∈ items, Item item)
    (hText : slice buf start (([comma].intercalate items).length + 1) = [comma].intercalate items ++ [0])
    (hStop : start + ([comma].intercalate items).length ≤ stop) {ptr : Nat} (hPtr : ptr = start ∨ ptr = start + 1) :
    scan buf stop start ptr = (checkedItems items && scan buf stop (start + ([comma].intercalate items).length)
      (start + ([comma].intercalate items).length + 1)) := by
  induction items generalizing start ptr with
  | nil => exact absurd rfl hNe
  | cons item rest ih =>
    have hItem := hItems item List.mem_cons_self
    cases rest with
    | nil =>
      rw [List.intercalate_singleton] at hText hStop ⊢
      rw [slice_add] at hText
      obtain ⟨hSame, hEnd⟩ := List.append_inj' hText rfl
      exact scan_last_item hItem hSame (List.cons.inj hEnd).1 hStop hPtr
    | cons next rest =>
      have hTail : ∀ i ∈ next :: rest, Item i := List.forall_mem_of_forall_mem_cons hItems
      rw [List.intercalate_cons_cons, List.append_assoc, List.singleton_append] at hText hStop ⊢
      have hLength : (item ++ comma :: [comma].intercalate (next :: rest)).length =
          item.length + (1 + ([comma].intercalate (next :: rest)).length) := by
        simp only [List.length_append, List.length_cons]
        omega
      rw [hLength] at hText hStop ⊢
      rw [Nat.add_assoc, Nat.add_assoc, slice_add, slice_add, List.append_assoc] at hText
      obtain ⟨hSame, hRest⟩ := List.append_inj hText (length_slice _ _ _)
      obtain ⟨hSeparator, hNext⟩ := List.cons.inj hRest
      have hBehind := ih (by simp) hTail hNext (by omega) (Or.inr rfl)
      have hChecked : checkedItems (item :: next :: rest) = (isTypeName item && checkedItems (next :: rest)) := rfl
      rw [scan_comma_item hItem hSame hSeparator (by omega) hPtr, hBehind, hChecked, Bool.and_assoc,
        Nat.add_assoc (start + item.length) 1, Nat.add_assoc start]

end Scan

end LibUrx.Rtde
