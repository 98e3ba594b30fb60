import Mathlib.Tactic.Ring
import Mathlib.Data.List.Range

/-! # Fixed-width words as bytes, and windows of byte buffers

A word of `w` bytes is a natural number below `256 ^ w`; a machine with little-endian words
keeps it as `leBytes w n`. A buffer is the bytes seen from one address on, so reading a window
of it never fails, and what lies past its end is a separate question.
-/
namespace LibUrx.Bytes
set_option autoImplicit false

/-- The `w` bytes of a word in memory order on a little-endian machine. -/
def leBytes : Nat → Nat → List UInt8
  | 0, _ => []
  | w + 1, n => UInt8.ofNat n :: leBytes w (n / 256)

def leNat : List UInt8 → Nat
  | [] => 0
  | b :: bs => b.toNat + 256 * leNat bs

def beNat (bs : List UInt8) : Nat := leNat bs.reverse

/-- Reverse the byte order of a word of `w` bytes. -/
def swap (w n : Nat) : Nat := beNat (leBytes w n)

@[simp] theorem length_leBytes (w n : Nat) : (leBytes w n).length = w := by
  induction w generalizing n with
  | zero => rfl
  | succ w ih => simp [leBytes, ih]

theorem leNat_lt (bs : List UInt8) : leNat bs < 256 ^ bs.length := by
  induction bs with
  | nil => decide
  | cons b bs ih =>
    have hb : b.toNat < 256 := b.toNat_lt
    simp only [leNat, List.length_cons, Nat.pow_succ]
    omega

theorem beNat_lt (bs : List UInt8) : beNat bs < 256 ^ bs.length := by
  simpa [beNat] using leNat_lt bs.reverse

theorem leBytes_leNat (bs : List UInt8) : leBytes bs.length (leNat bs) = bs := by
  induction bs with
  | nil => rfl
  | cons b bs ih =>
    have hb : b.toNat < 256 := b.toNat_lt
    have hHead : UInt8.ofNat (b.toNat + 256 * leNat bs) = b := by
      apply UInt8.toNat_inj.mp
      simp only [UInt8.toNat_ofNat']
      omega
    have hTail : (b.toNat + 256 * leNat bs) / 256 = leNat bs := by omega
    simp only [List.length_cons, leBytes, leNat, hHead, hTail, ih]

theorem leNat_leBytes (w n : Nat) : leNat (leBytes w n) = n % 256 ^ w := by
  induction w generalizing n with
  | zero => simp [leBytes, leNat, Nat.mod_one]
  | succ w ih =>
    have hByte : (UInt8.ofNat n).toNat = n % 256 := by simp
    rw [leBytes, leNat, ih, hByte, Nat.pow_succ, Nat.mul_comm (256 ^ w), Nat.mod_mul]

theorem leNat_leBytes_of_lt {w n : Nat} (h : n < 256 ^ w) : leNat (leBytes w n) = n := by
  rw [leNat_leBytes, Nat.mod_eq_of_lt h]

theorem leBytes_swap (w n : Nat) : leBytes w (swap w n) = (leBytes w n).reverse := by
  have h := leBytes_leNat (leBytes w n).reverse
  rwa [List.length_reverse, length_leBytes] at h

theorem leBytes_swap_leNat (bs : List UInt8) : leBytes bs.length (swap bs.length (leNat bs)) = bs.reverse := by
  rw [leBytes_swap, leBytes_leNat]

theorem swap_leNat (bs : List UInt8) : swap bs.length (leNat bs) = beNat bs := by
  rw [swap, leBytes_leNat]

/-- The bytes seen from one address on. -/
abbrev Buf := Nat → UInt8

def slice (buf : Buf) (off n : Nat) : List UInt8 := (List.range n).map fun i => buf (off + i)

/-- Overwrite the bytes from `off` on. -/
def patch (buf : Buf) (off : Nat) (bs : List UInt8) : Buf := fun i =>
  if off ≤ i then (bs[i - off]?).getD (buf i) else buf i

@[simp] theorem length_slice (buf : Buf) (off n : Nat) : (slice buf off n).length = n := by
  simp [slice]

theorem slice_getElem? (buf : Buf) (off n i : Nat) :
    (slice buf off n)[i]? = if i < n then some (buf (off + i)) else none := by
  split
  · simp [slice, *]
  · simp [slice]; omega

theorem slice_congr {buf buf' : Buf} {off n : Nat} (h : ∀ i, off ≤ i → i < off + n → buf i = buf' i) :
    slice buf off n = slice buf' off n := by
  apply List.map_congr_left
  intro i hi
  have hi : i < n := List.mem_range.mp hi
  exact h (off + i) (by omega) (by omega)

theorem eq_of_slice_eq {buf buf' : Buf} {off n : Nat} (h : slice buf off n = slice buf' off n) {i : Nat}
    (hlo : off ≤ i) (hhi : i < off + n) : buf i = buf' i := by
  have hget : (slice buf off n)[i - off]? = (slice buf' off n)[i - off]? := by rw [h]
  have hIndex : off + (i - off) = i := by omega
  rw [slice_getElem?, slice_getElem?, if_pos (by omega), if_pos (by omega), hIndex] at hget
  exact Option.some.inj hget

theorem slice_add (buf : Buf) (off m n : Nat) :
    slice buf off (m + n) = slice buf off m ++ slice buf (off + m) n := by
  simp [slice, List.range_add, Nat.add_assoc]

theorem slice_shift (buf : Buf) (base off n : Nat) :
    slice (fun i => buf (base + i)) off n = slice buf (base + off) n := by
  simp [slice, Nat.add_assoc]

theorem slice_take_drop (buf : Buf) (base n off m : Nat) (h : off + m ≤ n) :
    ((slice buf base n).drop off).take m = slice buf (base + off) m := by
  apply List.ext_getElem?
  intro i
  rw [List.getElem?_take, List.getElem?_drop, slice_getElem?, slice_getElem?]
  by_cases hi : i < m
  · simp [hi, show off + i < n by omega, Nat.add_assoc]
  · simp [hi]

theorem patch_outside {buf : Buf} {off : Nat} {bs : List UInt8} {i : Nat}
    (h : i < off ∨ off + bs.length ≤ i) : patch buf off bs i = buf i := by
  unfold patch
  split
  · rw [List.getElem?_eq_none (by omega), Option.getD_none]
  · rfl

theorem patch_inside {buf : Buf} {off : Nat} {bs : List UInt8} {i : Nat} (h : i < bs.length) :
    patch buf off bs (off + i) = bs[i] := by
  simp [patch, h]

@[simp] theorem patch_nil (buf : Buf) (off : Nat) : patch buf off [] = buf := by
  funext i
  simp [patch]

def ofBytes (bs : List UInt8) : Buf := patch (fun _ => 0) 0 bs

theorem ofBytes_of_lt {bs : List UInt8} {i : Nat} (h : i < bs.length) : ofBytes bs i = bs[i] := by
  simp [ofBytes, patch, h]

theorem ofBytes_of_le {bs : List UInt8} {i : Nat} (h : bs.length ≤ i) : ofBytes bs i = 0 :=
  patch_outside (Or.inr (by omega))

theorem slice_patch_self (buf : Buf) (off : Nat) (bs : List UInt8) :
    slice (patch buf off bs) off bs.length = bs := by
  apply List.ext_getElem?
  intro i
  rw [slice_getElem?]
  split
  · rename_i hi
    rw [patch_inside hi, List.getElem?_eq_getElem hi]
  · rename_i hi
    rw [List.getElem?_eq_none (by omega)]

theorem slice_patch_of_disjoint {buf : Buf} {off k n : Nat} {bs : List UInt8}
    (h : k + n ≤ off ∨ off + bs.length ≤ k) : slice (patch buf off bs) k n = slice buf k n :=
  slice_congr fun _ hlo hhi => patch_outside (by omega)

theorem patch_append (buf : Buf) (off : Nat) (bs bs' : List UInt8) :
    patch (patch buf off bs) (off + bs.length) bs' = patch buf off (bs ++ bs') := by
  funext i
  simp only [patch]
  by_cases hlo : off ≤ i
  · by_cases hmid : off + bs.length ≤ i
    · have hsub : i - off - bs.length = i - (off + bs.length) := by omega
      simp [hlo, hmid, List.getElem?_append_right (show bs.length ≤ i - off by omega), hsub,
        List.getElem?_eq_none (show bs.length ≤ i - off by omega)]
    · simp [hlo, hmid, List.getElem?_append_left (show i - off < bs.length by omega)]
  · simp [hlo, show ¬ off + bs.length ≤ i by omega]

end LibUrx.Bytes
