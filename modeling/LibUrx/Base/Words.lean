import LibUrx.Base.Memory

/-! # Runs of words: a big-endian stream, little-endian memory

A stream hands out words front to back, most significant byte first. Memory keeps the same words
with their bytes turned round, one behind the other.
-/
namespace LibUrx.Bytes
set_option autoImplicit false

def takeWord (w : Nat) (bs : List UInt8) : Option (Nat × List UInt8) :=
  if w ≤ bs.length then some (beNat (bs.take w), bs.drop w) else none

def takeWords (w : Nat) : Nat → List UInt8 → Option (List Nat × List UInt8)
  | 0, bs => some ([], bs)
  | count + 1, bs =>
    match takeWord w bs with
    | none => none
    | some (n, bs) => (takeWords w count bs).map fun (ns, bs) => (n :: ns, bs)

def hostWords (w : Nat) : Nat → List UInt8 → List Nat
  | 0, _ => []
  | count + 1, bs => leNat (bs.take w) :: hostWords w count (bs.drop w)

def turned (w : Nat) (buf : Buf) : Nat → Nat → List (List UInt8)
  | 0, _ => []
  | count + 1, off => (slice buf off w).reverse :: turned w buf count (off + w)

theorem takeWord_append {w : Nat} {bs : List UInt8} (h : bs.length = w) (rest : List UInt8) :
    takeWord w (bs ++ rest) = some (beNat bs, rest) := by
  subst h
  rw [takeWord, if_pos (by simp), List.take_left, List.drop_left]

theorem length_turned (w : Nat) (buf : Buf) (count off : Nat) :
    (turned w buf count off).flatten.length = w * count := by
  induction count generalizing off with
  | zero => rfl
  | succ count ih =>
    rw [turned, List.flatten_cons, List.length_append, ih, List.length_reverse, length_slice, Nat.mul_succ,
      Nat.add_comm]

theorem slice_of_turned_eq {w : Nat} {buf buf' : Buf} {count off : Nat}
    (h : turned w buf count off = turned w buf' count off) :
    slice buf off (w * count) = slice buf' off (w * count) := by
  induction count generalizing off with
  | zero => rfl
  | succ count ih =>
    obtain ⟨hHead, hTail⟩ := List.cons.inj h
    rw [Nat.mul_succ, Nat.add_comm, slice_add, slice_add, List.reverse_injective hHead, ih hTail]

theorem takeWords_slice (w : Nat) (buf : Buf) (count off : Nat) (rest : List UInt8) :
    takeWords w count (slice buf off (w * count) ++ rest) =
      some (hostWords w count (turned w buf count off).flatten, rest) := by
  induction count generalizing off with
  | zero => rfl
  | succ count ih =>
    have hSplit : slice buf off (w * (count + 1)) = slice buf off w ++ slice buf (off + w) (w * count) := by
      rw [Nat.mul_succ, Nat.add_comm, slice_add]
    have hLength : (slice buf off w).reverse.length = w := by simp
    rw [hSplit, List.append_assoc, takeWords, takeWord_append (length_slice _ _ _)]
    simp only [ih, Option.map_some, turned, List.flatten_cons, hostWords]
    rw [List.take_left' hLength, List.drop_left' hLength, beNat]

/-- The words of a stretch of memory, word by word. -/
theorem hostWords_slice (w : Nat) (buf : Buf) (count off : Nat) :
    hostWords w count (slice buf off (w * count)) =
      (List.range count).map fun i => leNat (slice buf (off + w * i) w) := by
  induction count generalizing off with
  | zero => rfl
  | succ count ih =>
    have hSplit : slice buf off (w * (count + 1)) = slice buf off w ++ slice buf (off + w) (w * count) := by
      rw [Nat.mul_succ, Nat.add_comm, slice_add]
    have hShift (i : Nat) : off + w * (i + 1) = off + w + w * i := by
      rw [Nat.mul_succ, Nat.add_comm (w * i), Nat.add_assoc]
    rw [hSplit, hostWords, List.take_left' (length_slice _ _ _), List.drop_left' (length_slice _ _ _), ih,
      List.range_succ_eq_map, List.map_cons, List.map_map]
    simp only [Function.comp_def, Nat.mul_zero, Nat.add_zero, Nat.succ_eq_add_one, hShift]

end LibUrx.Bytes
