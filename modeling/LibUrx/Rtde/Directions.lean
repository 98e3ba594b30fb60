import LibUrx.Rtde.Interference
import LibUrx.Rtde.Written

/-! # The direction of a recipe and the kinds of its fields

A recipe changes its direction only while it has no fields, so its fields are always of the kind that its
direction can handle. The loops over the fields are given here once more with the number of fields that they get
through.
-/
namespace LibUrx.Rtde
open Bytes Text
set_option autoImplicit false

/-- A token whose closure handles each byte of its field: an encoder assigns the bytes of the package that belong to
the field and no other, with and without the log of the assignments, and a decoder assigns the bytes of its storage and
no other and leaves the package alone. -/
structure Token.Coded (tok : Token) : Prop where
  size : 0 < tok.numBytes
  encoder : tok.kind = .input → ∀ (m : Memory) (dp : Buf) (i : Nat),
    (Stores.tokenStore tok m ⟨dp, []⟩).written i = true ↔ 4 + tok.offset ≤ i ∧ i < 4 + tok.offset + tok.numBytes
  sameBytes : ∀ (m : Memory) (dp : Buf),
    (Stores.tokenStore tok m ⟨dp, []⟩).byte = withPayload dp (tok.tokenStore m (payload dp))
  encoded : tok.kind = .input → ∀ (m : Memory) (data data' : Buf) (i : Nat),
    tok.tokenStore m data i =
      if tok.offset ≤ i ∧ i < tok.offset + tok.numBytes then tok.tokenStore m data' i else data i
  decoder : tok.kind = .output → ∀ (buf mem : Buf),
    (tok.tokenParser buf ⟨mem, []⟩).1 = buf ∧
      ∀ i, (tok.tokenParser buf ⟨mem, []⟩).2.written i = true ↔ tok.Covers i

theorem Token.WellTyped.coded {tok : Token} (h : tok.WellTyped) : tok.Coded where
  size := h.numBytes_pos
  encoder hKind m dp i := by
    exact (Stores.written_tokenStore h hKind ..).trans (or_iff_left (Memory.not_written_new dp i))
  sameBytes m dp := Stores.byte_tokenStore tok m ⟨dp, []⟩
  encoded hKind := h.tokenStore_apply hKind
  decoder _ buf mem := by
    rw [Token.tokenParser, if_neg h.ne_string]
    refine ⟨rfl, fun i => ?_⟩
    rw [h.written_assignments, or_iff_left (Memory.not_written_new mem i)]

/-- How many fields are parsed until one refuses. -/
def parsedFields : List Token → Buf → Memory → Nat
  | [], _, _ => 0
  | tok :: rest, buf, m =>
    match tok.parse buf m with
    | (false, _, _) => 0
    | (true, buf, m) => parsedFields rest buf m + 1

/-- How many fields are stored until one refuses. -/
def storedFields : List Token → Memory → Buf → Nat
  | [], _, _ => 0
  | tok :: rest, m, buf =>
    match tok.store m buf with
    | (false, _) => 0
    | (true, buf) => storedFields rest m buf + 1

theorem parseFields_true_iff (fields : List Token) (buf : Buf) (m : Memory) :
    (parseFields fields buf m).1 = true ↔ parsedFields fields buf m = fields.length := by
  induction fields generalizing buf m with
  | nil => exact iff_of_true rfl rfl
  | cons tok rest ih =>
    rw [parseFields, parsedFields, List.length_cons]
    rcases tok.parse buf m with ⟨ok, buf, m⟩
    cases ok with
    | false => exact iff_of_false Bool.false_ne_true (Nat.succ_ne_zero _).symm
    | true => exact (ih buf m).trans Nat.succ_inj.symm

theorem storeFields_true_iff (fields : List Token) (m : Memory) (buf : Buf) :
    (storeFields fields m buf).1 = true ↔ storedFields fields m buf = fields.length := by
  induction fields generalizing buf with
  | nil => exact iff_of_true rfl rfl
  | cons tok rest ih =>
    rw [storeFields, storedFields, List.length_cons]
    rcases tok.store m buf with ⟨ok, buf⟩
    cases ok with
    | false => exact iff_of_false Bool.false_ne_true (Nat.succ_ne_zero _).symm
    | true => exact (ih buf).trans Nat.succ_inj.symm

theorem parsedFields_eq {fields : List Token} (hKind : ∀ tok ∈ fields, tok.kind = .output) (buf : Buf) (m : Memory) :
    parsedFields fields buf m = fields.length := by
  induction fields generalizing buf m with
  | nil => rfl
  | cons tok rest ih =>
    rw [parsedFields, Token.parse, hKind tok List.mem_cons_self, List.length_cons]
    exact congrArg Nat.succ (ih (List.forall_mem_of_forall_mem_cons hKind) _ _)

theorem storedFields_eq {fields : List Token} (hKind : ∀ tok ∈ fields, tok.kind = .input) (m : Memory) (buf : Buf) :
    storedFields fields m buf = fields.length := by
  induction fields generalizing buf with
  | nil => rfl
  | cons tok rest ih =>
    rw [storedFields, Token.store, hKind tok List.mem_cons_self, List.length_cons]
    exact congrArg Nat.succ (ih (List.forall_mem_of_forall_mem_cons hKind) _)

namespace RtdeRecipe

/-- How many fields `parse` gets through. -/
def parsed (r : RtdeRecipe) (buf : Buf) (m : Memory) : Nat :=
  if !r.dirOut then 0 else parsedFields r.fields buf m

/-- How many fields `store` gets through. -/
def stored (r : RtdeRecipe) (dp : Buf) (m : Memory) : Nat :=
  if r.dirOut then 0
  else storedFields r.fields m (payload (rtdeDataPackageInit dp r.recipeId r.expectedBytes))

variable {r : RtdeRecipe}

theorem Formed.parse_fst (h : r.Formed) (buf : Buf) (ts : UInt64) (m : Memory) :
    (r.parse buf ts m).1 = r.dirOut ∧ r.parsed buf m = if r.dirOut then r.fields.length else 0 := by
  cases hDir : r.dirOut with
  | false => simp [parse, parsed, hDir]
  | true =>
    have hAll := parsedFields_eq (h.kind_of_dir (by rw [hDir]; rfl)) buf m
    have hTrue := (parseFields_true_iff r.fields buf m).mpr hAll
    simp only [parse, parsed, hDir, Bool.not_true, Bool.false_eq_true, if_false, if_true, hAll, and_true]
    rcases hLoop : parseFields r.fields buf m with ⟨ok, buf, m⟩
    rw [hLoop] at hTrue
    cases hTrue
    cases r.tsNs <;> rfl

theorem Formed.store_fst (h : r.Formed) (dp : Buf) (m : Memory) :
    (r.store dp m).1 = !r.dirOut ∧ r.stored dp m = if r.dirOut then 0 else r.fields.length := by
  cases hDir : r.dirOut with
  | true => simp [store, stored, hDir]
  | false =>
    have hAll := storedFields_eq (h.kind_of_dir (by rw [hDir]; rfl)) m
      (payload (rtdeDataPackageInit dp r.recipeId r.expectedBytes))
    have hTrue := (storeFields_true_iff r.fields m _).mpr hAll
    simp only [store, stored, hDir, Bool.false_eq_true, if_false, hAll, and_true]
    exact hTrue

/-- After any calls the fields are of the kind of the direction and have coders that work, so that parsing and
storing handle all fields in their direction, one after the other, and none in the other direction. -/
theorem direction_decides (m : Memory) (calls : List RecipeCall) :
    (∀ tok ∈ (afterCalls m calls).fields,
      tok.kind = (if (afterCalls m calls).dirOut then .output else .input) ∧ tok.Coded) ∧
    (∀ buf ts mem, ((afterCalls m calls).parse buf ts mem).1 = (afterCalls m calls).dirOut ∧
      (afterCalls m calls).parsed buf mem =
        if (afterCalls m calls).dirOut then (afterCalls m calls).fields.length else 0) ∧
    (∀ dp mem, ((afterCalls m calls).store dp mem).1 = !(afterCalls m calls).dirOut ∧
      (afterCalls m calls).stored dp mem =
        if (afterCalls m calls).dirOut then 0 else (afterCalls m calls).fields.length) ∧
    ((afterCalls m calls).dirOut = true → ∀ buf mem, parseFields (afterCalls m calls).fields buf mem =
      (true, buf, mem.writeAll (decodedWrites (afterCalls m calls).fields buf))) ∧
    ((afterCalls m calls).dirOut = false → ∀ mem data : Memory, storeFields (afterCalls m calls).fields mem data.byte =
      (true, (data.writeAll ((afterCalls m calls).fields.map fun tok => tok.stored mem)).byte)) := by
  have hFormed := formed_afterCalls m calls
  refine ⟨fun tok hMem => ?_, hFormed.parse_fst, hFormed.store_fst, fun hDir => ?_, fun hDir => ?_⟩
  · exact ⟨hFormed.kind tok hMem, (hFormed.wellTyped tok hMem).coded⟩
  · exact parseFields_eq hFormed.wellTyped (hFormed.kind_of_dir (by rw [hDir]; rfl))
  · exact storeFields_eq_writeAll hFormed.wellTyped (hFormed.kind_of_dir (by rw [hDir]; rfl))

end RtdeRecipe

end LibUrx.Rtde
