import LibUrx.Base.Bytes

/-! # Memory that remembers its writes

A memory is its first contents together with every assignment made since. The present contents
and the question whether a cell was ever assigned are both read off the history, so two runs
that made the same assignments have equal memories.
-/
namespace LibUrx.Bytes
set_option autoImplicit false

structure Memory where
  initial : Buf
  log : List (Nat × List UInt8)

namespace Memory

def byte (m : Memory) : Buf := m.log.foldr (fun entry buf => patch buf entry.1 entry.2) m.initial

def written (m : Memory) (a : Nat) : Bool :=
  m.log.any fun entry => decide (entry.1 ≤ a) && decide (a < entry.1 + entry.2.length)

def write (m : Memory) (a : Nat) (bs : List UInt8) : Memory := { m with log := (a, bs) :: m.log }

def read (m : Memory) (a n : Nat) : List UInt8 := slice m.byte a n

def writeAll (m : Memory) (entries : List (Nat × List UInt8)) : Memory :=
  entries.foldl (fun m entry => m.write entry.1 entry.2) m

def allWritten (m : Memory) (a n : Nat) : Bool := (List.range n).all fun i => m.written (a + i)

end Memory

/-- The `n` cells from `a` and the `k` cells from `b` have no cell in common. -/
def Apart (a n b k : Nat) : Prop := a + n ≤ b ∨ b + k ≤ a

instance (a n b k : Nat) : Decidable (Apart a n b k) := inferInstanceAs (Decidable (_ ∨ _))

theorem Apart.symm {a n b k : Nat} (h : Apart a n b k) : Apart b k a n := Or.symm h

def blocks (a : Nat) : List (List UInt8) → List (Nat × List UInt8)
  | [] => []
  | bs :: rest => (a, bs) :: blocks (a + bs.length) rest

namespace Memory

@[simp] theorem byte_write (m : Memory) (a : Nat) (bs : List UInt8) :
    (m.write a bs).byte = patch m.byte a bs := rfl

@[simp] theorem log_write (m : Memory) (a : Nat) (bs : List UInt8) : (m.write a bs).log = (a, bs) :: m.log := rfl

@[simp] theorem length_read (m : Memory) (a n : Nat) : (m.read a n).length = n := length_slice _ _ _

theorem read_write_self (m : Memory) (a : Nat) (bs : List UInt8) : (m.write a bs).read a bs.length = bs :=
  slice_patch_self m.byte a bs

theorem read_write_of_apart {m : Memory} {a b n : Nat} {bs : List UInt8} (h : Apart a bs.length b n) :
    (m.write a bs).read b n = m.read b n :=
  slice_patch_of_disjoint (Or.symm h)

@[simp] theorem writeAll_nil (m : Memory) : m.writeAll [] = m := rfl

@[simp] theorem writeAll_cons (m : Memory) (entry : Nat × List UInt8) (rest : List (Nat × List UInt8)) :
    m.writeAll (entry :: rest) = (m.write entry.1 entry.2).writeAll rest := rfl

theorem writeAll_append (m : Memory) (first second : List (Nat × List UInt8)) :
    m.writeAll (first ++ second) = (m.writeAll first).writeAll second := List.foldl_append

theorem log_writeAll (m : Memory) (entries : List (Nat × List UInt8)) :
    (m.writeAll entries).log = entries.reverse ++ m.log := by
  induction entries generalizing m with
  | nil => rfl
  | cons entry rest ih => rw [writeAll_cons, ih, log_write, List.reverse_cons, List.append_assoc]; rfl

theorem writeAll_inj {m : Memory} {first second : List (Nat × List UInt8)}
    (h : m.writeAll first = m.writeAll second) : first = second := by
  have hLog := congrArg log h
  rw [log_writeAll, log_writeAll] at hLog
  exact List.reverse_injective (List.append_cancel_right hLog)

theorem read_writeAll_of_apart {m : Memory} {entries : List (Nat × List UInt8)} {b n : Nat}
    (h : ∀ entry ∈ entries, Apart entry.1 entry.2.length b n) : (m.writeAll entries).read b n = m.read b n := by
  induction entries generalizing m with
  | nil => rfl
  | cons entry rest ih =>
    rw [writeAll_cons, ih (List.forall_mem_of_forall_mem_cons h)]
    exact read_write_of_apart (h entry List.mem_cons_self)

/-- Assignments to stretches that do not meet are all there in the end. -/
theorem read_writeAll_of_pairwise {m : Memory} {entries : List (Nat × List UInt8)}
    (h : entries.Pairwise fun a b => Apart a.1 a.2.length b.1 b.2.length) {entry : Nat × List UInt8}
    (hMem : entry ∈ entries) : (m.writeAll entries).read entry.1 entry.2.length = entry.2 := by
  induction entries generalizing m with
  | nil => cases hMem
  | cons head rest ih =>
    obtain ⟨hHead, hRest⟩ := List.pairwise_cons.mp h
    rw [writeAll_cons]
    rcases List.mem_cons.mp hMem with rfl | hMem
    · rw [read_writeAll_of_apart fun e he => (hHead e he).symm, read_write_self]
    · exact ih hRest hMem

theorem read_writeAll_congr {m m' : Memory} {a n : Nat} (h : m.read a n = m'.read a n)
    (entries : List (Nat × List UInt8)) : (m.writeAll entries).read a n = (m'.writeAll entries).read a n := by
  induction entries generalizing m m' with
  | nil => exact h
  | cons entry rest ih =>
    apply ih
    apply slice_congr
    intro i hlo hhi
    have hByte : m.byte i = m'.byte i := eq_of_slice_eq h hlo hhi
    simp only [byte_write, patch, hByte]

/-- Assignments to stretches that do not meet may be made in any order, and what they cover does not depend on what
was there. -/
theorem read_writeAll_perm {m m' : Memory} {entries entries' : List (Nat × List UInt8)} (hPerm : entries.Perm entries')
    (h : entries'.Pairwise fun a b => Apart a.1 a.2.length b.1 b.2.length) {a n : Nat}
    (hCovered : ∀ i, a ≤ i → i < a + n → ∃ entry ∈ entries', entry.1 ≤ i ∧ i < entry.1 + entry.2.length) :
    (m.writeAll entries).read a n = (m'.writeAll entries').read a n := by
  apply slice_congr
  intro i hlo hhi
  obtain ⟨entry, hMem, hFrom, hTo⟩ := hCovered i hlo hhi
  have hFirst := read_writeAll_of_pairwise (m := m) ((hPerm.pairwise_iff Apart.symm).mpr h) (hPerm.mem_iff.mpr hMem)
  have hSecond := read_writeAll_of_pairwise (m := m') h hMem
  exact eq_of_slice_eq (hFirst.trans hSecond.symm) hFrom hTo

theorem byte_writeAll_blocks (m : Memory) (a : Nat) (bss : List (List UInt8)) :
    (m.writeAll (blocks a bss)).byte = patch m.byte a bss.flatten := by
  induction bss generalizing m a with
  | nil => simp [blocks]
  | cons bs rest ih => rw [blocks, writeAll_cons, ih, byte_write, patch_append, List.flatten_cons]

theorem read_writeAll_blocks (m : Memory) (a : Nat) (bss : List (List UInt8)) :
    (m.writeAll (blocks a bss)).read a bss.flatten.length = bss.flatten := by
  rw [read, byte_writeAll_blocks, slice_patch_self]

theorem written_write (m : Memory) (a : Nat) (bs : List UInt8) (i : Nat) :
    (m.write a bs).written i = true ↔ (a ≤ i ∧ i < a + bs.length) ∨ m.written i = true := by
  simp [written]

/-- A memory starts with nothing written. -/
theorem not_written_new (buf : Buf) (i : Nat) : ¬ (⟨buf, []⟩ : Memory).written i = true := Bool.false_ne_true

theorem allWritten_iff (m : Memory) (a n : Nat) :
    m.allWritten a n = true ↔ ∀ i, a ≤ i → i < a + n → m.written i = true := by
  simp only [allWritten, List.all_eq_true, List.mem_range]
  constructor
  · intro h i hlo hhi
    have := h (i - a) (by omega)
    rwa [show a + (i - a) = i by omega] at this
  · intro h i hi
    exact h (a + i) (by omega) (by omega)

end Memory

theorem Memory.written_writeAll_blocks (m : Memory) (a : Nat) (bss : List (List UInt8)) (i : Nat) :
    (m.writeAll (blocks a bss)).written i = true ↔
      (a ≤ i ∧ i < a + bss.flatten.length) ∨ m.written i = true := by
  induction bss generalizing m a with
  | nil =>
    simp only [blocks, writeAll_nil, List.flatten_nil, List.length_nil, Nat.add_zero]
    exact ⟨Or.inr, fun h => h.resolve_left fun ⟨hlo, hhi⟩ => absurd hlo (Nat.not_le.mpr hhi)⟩
  | cons bs rest ih =>
    rw [blocks, writeAll_cons, ih, written_write, List.flatten_cons, List.length_append, ← or_assoc]
    dsimp only
    refine or_congr_left ⟨?_, ?_⟩
    · rintro (h | h) <;> omega
    · intro h
      omega

theorem blocks_inj {a : Nat} {bss bss' : List (List UInt8)} (h : blocks a bss = blocks a bss') : bss = bss' := by
  have hMap (a : Nat) (bss : List (List UInt8)) : (blocks a bss).map Prod.snd = bss := by
    induction bss generalizing a with
    | nil => rfl
    | cons bs rest ih => rw [blocks, List.map_cons, ih]
  rw [← hMap a bss, h, hMap]

theorem mem_blocks_bounds {a : Nat} {bss : List (List UInt8)} {entry : Nat × List UInt8}
    (h : entry ∈ blocks a bss) : a ≤ entry.1 ∧ entry.1 + entry.2.length ≤ a + bss.flatten.length := by
  induction bss generalizing a with
  | nil => cases h
  | cons bs rest ih =>
    rw [blocks] at h
    rcases List.mem_cons.mp h with rfl | h
    · simp
    · obtain ⟨hlo, hhi⟩ := ih h
      simp only [List.flatten_cons, List.length_append]
      omega

end LibUrx.Bytes
