import LibUrx.Rtde.StalePackage

/-! # Stale bytes in the answer to a registration

The frame size in the answer says how far the type names are checked, its terminator how far they are
read. Where the frame claims more than arrived, what is checked behind the terminator is what the buffer
held before.
-/
namespace LibUrx.Rtde
open Bytes Text
set_option autoImplicit false

theorem cStr_slice_congr {buf buf' : Buf} {off len : Nat} (stop : Nat) (hStop : stop < off + len)
    (hZero : buf stop = 0) (h : ∀ i, off ≤ i → i ≤ stop → buf i = buf' i) (hLe : off ≤ stop) :
    cStr (slice buf off len) = cStr (slice buf' off len) := by
  induction len generalizing off with
  | zero => omega
  | succ len ih =>
    have hCons (buf : Buf) : slice buf off (len + 1) = buf off :: slice buf (off + 1) len := by
      rw [Nat.add_comm len 1, slice_add]
      rfl
    rw [hCons, hCons, cStr, cStr, List.takeWhile_cons, List.takeWhile_cons, ← h off le_rfl hLe]
    rcases Nat.eq_or_lt_of_le hLe with rfl | hLt
    · simp [hZero]
    · have hTail := ih (by omega) (fun i hlo hhi => h i (by omega) hhi) hLt
      simp only [cStr] at hTail
      rw [hTail]

/-- An item that the scan lets through. -/
def isTypeName (name : List UInt8) : Bool :=
  dataNameToType name name.length != .notFound && dataNameToType name name.length != .inUse

section Scan

variable {buf buf' : Buf} {stop known : Nat}

theorem scanTypes_done {rounds start ptr : Nat} (h : stop ≤ ptr) : scanTypes buf stop rounds start ptr = true := by
  cases rounds with
  | zero => rfl
  | succ rounds => rw [scanTypes, if_neg (by omega)]

theorem scanTypes_item {rounds start ptr : Nat} (hLt : ptr < stop) (h : buf ptr = comma ∨ buf (ptr + 1) = 0) :
    scanTypes buf stop (rounds + 1) start ptr =
      (isTypeName (slice buf start (ptr - start)) && scanTypes buf stop rounds (ptr + 1) (ptr + 2)) := by
  have hEnds : (buf ptr == comma || buf (ptr + 1) == 0) = true := by simpa using h
  rw [scanTypes, if_pos hLt, if_pos hEnds, isTypeName, length_slice]
  cases dataNameToType (slice buf start (ptr - start)) (ptr - start) <;> rfl

theorem scanTypes_skip {rounds start ptr : Nat} (hLt : ptr < stop) (hHere : buf ptr ≠ comma)
    (hNext : buf (ptr + 1) ≠ 0) :
    scanTypes buf stop (rounds + 1) start ptr = scanTypes buf stop rounds start (ptr + 1) := by
  have hGoes : (buf ptr == comma || buf (ptr + 1) == 0) = false := by simp [hHere, hNext]
  rw [scanTypes, if_pos hLt, if_neg (by simp [hGoes])]

theorem scanTypes_imp (h : ∀ i, 4 ≤ i → i ≤ known → buf i = buf' i)
    (hTail : ∀ rounds start ptr, 4 ≤ start → known ≤ ptr → ptr < stop →
      scanTypes buf stop rounds start ptr = true → scanTypes buf' stop rounds start ptr = true)
    {rounds start ptr : Nat} (hStart : 4 ≤ start) (hPtr : 4 ≤ ptr) :
    scanTypes buf stop rounds start ptr = true → scanTypes buf' stop rounds start ptr = true := by
  induction rounds generalizing start ptr with
  | zero => exact fun _ => rfl
  | succ rounds ih =>
    cases Nat.lt_or_ge ptr stop with
    | inl hLt =>
      cases Nat.lt_or_ge ptr known with
      | inl hKnown =>
        have hType : slice buf start (ptr - start) = slice buf' start (ptr - start) :=
          slice_congr fun i hlo hhi => h i (by omega) (by omega)
        have hHere := h ptr hPtr (by omega)
        have hNext := h (ptr + 1) (by omega) (by omega)
        cases Classical.em (buf ptr = comma ∨ buf (ptr + 1) = 0) with
        | inl hEnds =>
          have hEnds' : buf' ptr = comma ∨ buf' (ptr + 1) = 0 := by rwa [← hHere, ← hNext]
          rw [scanTypes_item hLt hEnds, scanTypes_item hLt hEnds', hType, Bool.and_eq_true, Bool.and_eq_true]
          exact And.imp_right (ih (by omega) (by omega))
        | inr hGoes =>
          obtain ⟨hComma, hZero⟩ := not_or.mp hGoes
          rw [scanTypes_skip hLt hComma hZero, scanTypes_skip hLt (hHere ▸ hComma) (hNext ▸ hZero)]
          exact ih hStart (by omega)
      | inr hGe => exact hTail _ _ _ hStart hGe hLt
    | inr hDone => exact fun _ => scanTypes_done hDone

theorem scanTypes_congr (h : ∀ i, 4 ≤ i → i ≤ stop → buf i = buf' i) (rounds : Nat) :
    scanTypes buf stop rounds 4 4 = scanTypes buf' stop rounds 4 4 := by
  rw [Bool.eq_iff_iff]
  constructor
  · exact scanTypes_imp h (fun _ _ _ _ hGe hLt => absurd hGe (by omega)) le_rfl le_rfl
  · exact scanTypes_imp (fun i hlo hhi => (h i hlo hhi).symm) (fun _ _ _ _ hGe hLt => absurd hGe (by omega))
      le_rfl le_rfl

/-- Letters behind the known part: no item ends there, so nothing is checked there. -/
theorem scanTypes_letters (hKnown : buf known ≠ comma) (hLetters : ∀ i, known < i → i ≤ stop → buf i = 65)
    (rounds start : Nat) {ptr : Nat} (hPtr : known ≤ ptr) : scanTypes buf stop rounds start ptr = true := by
  induction rounds generalizing start ptr with
  | zero => rfl
  | succ rounds ih =>
    cases Nat.lt_or_ge ptr stop with
    | inl hLt =>
      have hHere : buf ptr ≠ comma := by
        rcases Nat.eq_or_lt_of_le hPtr with rfl | hBehind
        · exact hKnown
        · rw [hLetters ptr hBehind (by omega)]
          decide
      have hNext : buf (ptr + 1) ≠ 0 := by
        rw [hLetters (ptr + 1) (by omega) (by omega)]
        decide
      rw [scanTypes_skip hLt hHere hNext]
      exact ih start (by omega)
    | inr hDone => exact scanTypes_done hDone

/-- Whatever stands behind the known part, letters there are at least as good. -/
theorem scanTypes_letters_of_scan (h : ∀ i, 4 ≤ i → i ≤ known → buf i = buf' i) (hKnown : buf' known ≠ comma)
    (hLetters : ∀ i, known < i → i ≤ stop → buf' i = 65) (rounds : Nat) :
    scanTypes buf stop rounds 4 4 = true → scanTypes buf' stop rounds 4 4 = true :=
  scanTypes_imp h (fun rounds start _ _ hGe _ _ => scanTypes_letters hKnown hLetters rounds start hGe) le_rfl le_rfl

/-- With one byte missing, a terminator in its place is at most as good as anything else. -/
theorem scanTypes_of_zero (h : ∀ i, 4 ≤ i → i ≤ known → buf i = buf' i) (hKnown : buf known ≠ comma)
    (hKnown' : buf' known ≠ comma) (hZero : buf (known + 1) = 0) (rounds : Nat) :
    scanTypes buf (known + 1) rounds 4 4 = true → scanTypes buf' (known + 1) rounds 4 4 = true := by
  refine scanTypes_imp h (fun rounds start ptr hStart hGe hLt hScan => ?_) le_rfl le_rfl
  obtain rfl : ptr = known := by omega
  cases rounds with
  | zero => rfl
  | succ rounds =>
    cases Classical.em (buf' (ptr + 1) = 0) with
    | inl hEnds =>
      have hType : slice buf start (ptr - start) = slice buf' start (ptr - start) :=
        slice_congr fun i hlo hhi => h i (by omega) (by omega)
      rw [scanTypes_item hLt (Or.inr hZero), Bool.and_eq_true, hType] at hScan
      rw [scanTypes_item hLt (Or.inr hEnds), hScan.1, scanTypes_done (by omega)]
      rfl
    | inr hGoes => rw [scanTypes_skip hLt hKnown' hGoes, scanTypes_done le_rfl]

theorem isTypeName_of_zero {name : List UInt8} (hLength : name.length ≤ 4) (hZero : 0 ∈ name) :
    isTypeName name = false := by
  have hShort : (cStr name).length < name.length := by
    apply Nat.lt_of_le_of_ne (List.takeWhile_prefix _).length_le
    intro hEq
    have hWhole : cStr name = name := (List.takeWhile_prefix _).eq_of_length hEq
    exact notMem_cStr name (hWhole.symm ▸ hZero)
  have hNot {full : List UInt8} (hFull : 4 ≤ (cStr full).length) : strncmpEq name full name.length = false := by
    rw [← Bool.not_eq_true, strncmpEq_iff]
    intro hEq
    have hLengths := congrArg List.length hEq
    rw [List.length_take, List.length_take] at hLengths
    omega
  simp only [isTypeName, dataNameToType]
  iterate 12 rw [hNot (by decide)]
  rfl

/-- A separator right behind the terminator ends an item that holds the terminator. -/
theorem scanTypes_comma (hZero : buf known = 0) (hComma : buf (known + 1) = comma) (hStop : known + 2 ≤ stop)
    (rounds start ptr : Nat) (hRounds : stop ≤ ptr + rounds)
    (h : ptr < known ∨ ptr = known ∧ start + 1 = known ∨ ptr = known + 1 ∧ start ≤ known ∧ known ≤ start + 1) :
    scanTypes buf stop rounds start ptr = false := by
  induction rounds generalizing start ptr with
  | zero => omega
  | succ rounds ih =>
    have hLt : ptr < stop := by omega
    rcases h with hBefore | ⟨rfl, hStart⟩ | ⟨rfl, hLo, hHi⟩
    · cases Classical.em (buf ptr = comma ∨ buf (ptr + 1) = 0) with
      | inl hEnds => rw [scanTypes_item hLt hEnds, ih _ _ (by omega) (by omega), Bool.and_false]
      | inr hGoes =>
        obtain ⟨hHere, hNext⟩ := not_or.mp hGoes
        have hMore : ptr + 1 ≠ known := fun hEq => hNext (hEq ▸ hZero)
        rw [scanTypes_skip hLt hHere hNext, ih _ _ (by omega) (by omega)]
    · rw [scanTypes_skip hLt (by rw [hZero]; decide) (by rw [hComma]; decide),
        ih _ _ (by omega) (by omega)]
    · have hName : isTypeName (slice buf start (known + 1 - start)) = false := by
        apply isTypeName_of_zero (by rw [length_slice]; omega)
        rw [slice, List.mem_map]
        exact ⟨known - start, by rw [List.mem_range]; omega, by rw [Nat.add_sub_cancel' hLo, hZero]⟩
      rw [scanTypes_item hLt (Or.inl hComma), hName, Bool.false_and]

end Scan

/-- The answer as the recipe gets to see it. -/
def answerOver (bytes : List UInt8) (b : Buf) : Buf :=
  patch (readOver packetBytes bytes b) (min (bytes.take packetBytes).length (packetBytes - 1)) [0]

namespace RtdeRecipe

/-- The items of an answer name the types of the fields, in their order. -/
def Named (r : RtdeRecipe) (names : List UInt8) : Prop :=
  (getlines comma names).length = r.fields.length ∧
    ((r.fields.zip (getlines comma names)).all fun pair => pair.1.setResponseType pair.2) = true

theorem registerResponse_iff (r : RtdeRecipe) (resp : Buf) : (r.registerResponse resp).1 = true ↔
    rtdeControlPackageRespValidate resp = true ∧ r.Named (respVariables resp) := by
  unfold registerResponse Named
  cases rtdeControlPackageRespValidate resp with
  | false => simp
  | true =>
    dsimp only
    by_cases hLength : (getlines comma (respVariables resp)).length = r.fields.length
    · cases (r.fields.zip (getlines comma (respVariables resp))).all fun pair => pair.1.setResponseType pair.2 <;>
        simp [hLength]
    · simp [hLength]

def bearing (r : RtdeRecipe) (id : Nat) : RtdeRecipe := { r with recipeId := id, active := true }

theorem bearing_eq_self {r : RtdeRecipe} {id : Nat} (hActive : r.active = true) (hId : r.recipeId = id) :
    r.bearing id = r := by
  rw [bearing, ← hActive, ← hId]

def Answerable (r : RtdeRecipe) (size : Nat) : Prop :=
  ∃ resp, hdrSize resp = size ∧ (r.registerResponse resp).1 = true

end RtdeRecipe

namespace World

theorem answer_delivered (w : World) (sent : Nat) (bytes : List UInt8) :
    w.answer ⟨sent, some bytes⟩ = some (answerOver bytes w.buffer) := by
  have hSent : ¬ (sent : Int) < 0 := by omega
  have hCode : ¬ ((doRecv w.buffer packetBytes (some bytes)).1 < 0) := by
    rw [doRecv_some]
    omega
  simp only [answer, doSendRecv, if_neg hSent, if_neg hCode]
  rfl

/-- What an accepted registration leaves behind, the buffer aside. -/
def taken (w : World) (i : Nat) (r : RtdeRecipe) (packet : Buf) (id : Nat) (order : MapOrder)
    (initialSend : Int) : Bool × World :=
  let asked := w.asked i (r.bearing id) packet fun _ => 0
  if r.dirOut then (true, { asked with out := some i }) else (asked.insertRecipe order id i).send id initialSend

/-- The recipe bears the id already, and the map has another entry for it, which hides the recipe. -/
def Unnoticed (w : World) (i : Nat) (id : Nat) : Prop :=
  (w.recipes i).dirOut = false ∧ (w.recipes i).active = true ∧ (w.recipes i).recipeId = id ∧
    (∃ e ∈ w.recipesIn, e.1 = id) ∧ ∀ e ∈ w.recipesIn, (w.recipes e.2).recipeId ≠ id

theorem send_buffer (w : World) (b : Buf) (id sendCode : Int) :
    { w with buffer := b }.send id sendCode =
      ((w.send id sendCode).1, { (w.send id sendCode).2 with buffer := b }) := by
  unfold send
  dsimp only
  split <;> rfl

theorem buffer_self {w : World} {b : Buf} (h : w.buffer = b) : { w with buffer := b } = w := by
  rw [← h]

theorem buffer_send (w : World) (id sendCode : Int) : (w.send id sendCode).2.buffer = w.buffer := by
  unfold send
  split <;> rfl

theorem buffer_insertRecipe (w : World) (order : MapOrder) (id : Int) (i : Nat) :
    (w.insertRecipe order id i).buffer = w.buffer := by
  unfold insertRecipe
  split <;> rfl

theorem wire_insertRecipe (w : World) (order : MapOrder) (id : Int) (i : Nat) :
    (w.insertRecipe order id i).wire = w.wire := by
  unfold insertRecipe
  split <;> rfl

theorem insertRecipe_eq_self_iff (w : World) (order : MapOrder) (id : Int) (i : Nat) :
    (w.insertRecipe order id i).recipesIn = w.recipesIn ↔ ∃ e ∈ w.recipesIn, e.1 = id := by
  have hAny : (w.recipesIn.any fun e => e.1 == id) = true ↔ ∃ e ∈ w.recipesIn, e.1 = id := by simp
  unfold insertRecipe
  split
  · rename_i hKey
    simpa using hAny.mp hKey
  · rename_i hKey
    refine iff_of_false (fun hEq => ?_) (fun h => hKey (hAny.mpr h))
    have hLength := (order.perm ((id, i) :: w.recipesIn)).length_eq
    dsimp only at hEq
    rw [List.length_cons, hEq] at hLength
    omega

theorem insertRecipe_of_mem {w : World} {id : Int} (h : ∃ e ∈ w.recipesIn, e.1 = id) (order : MapOrder) (i : Nat) :
    w.insertRecipe order id i = w := if_pos (by simpa using h)

theorem insertRecipe_buffer (w : World) (b : Buf) (order : MapOrder) (id : Int) (i : Nat) :
    { w with buffer := b }.insertRecipe order id i = { w.insertRecipe order id i with buffer := b } := by
  unfold insertRecipe
  dsimp only
  split <;> rfl

theorem taken_eq_refused_iff {w : World} {i : Nat} {packet : Buf} {r : RtdeRecipe}
    (hMsg : (w.recipes i).getMsg = some (packet, r)) (id : Nat) (order : MapOrder) (initialSend : Int) :
    w.taken i r packet id order initialSend = (false, w.asked i r packet fun _ => 0) ↔ w.Unnoticed i id := by
  obtain ⟨cpo, cpi, hSame⟩ := RtdeRecipe.getMsg_eq_some hMsg
  have hDir : r.dirOut = (w.recipes i).dirOut := by rw [hSame]
  have hActive : r.active = (w.recipes i).active := by rw [hSame]
  have hRecipeId : r.recipeId = (w.recipes i).recipeId := by rw [hSame]
  have hIds (j : Nat) : ((w.asked i r packet fun _ => 0).recipes j).recipeId = (w.recipes j).recipeId := by
    rcases eq_or_ne j i with rfl | hNe
    · rw [← hRecipeId]
      exact congrArg RtdeRecipe.recipeId (setRecipe_self w j r)
    · exact congrArg RtdeRecipe.recipeId (setRecipe_of_ne hNe w r)
  rw [taken, Unnoticed, ← hDir, ← hActive, ← hRecipeId]
  cases hCase : r.dirOut with
  | true => simp
  | false =>
    simp only [Bool.false_eq_true, if_false, true_and]
    constructor
    · intro hEq
      have hAsked : (w.asked i (r.bearing id) packet fun _ => 0).recipes i = r.bearing id :=
        setRecipe_self w i (r.bearing id)
      rcases send_cases ((w.asked i (r.bearing id) packet fun _ => 0).insertRecipe order id i) id initialSend with
        ⟨hSend, hOther⟩ | ⟨e, -, -, -, hSend⟩
      · have hWorld : (w.asked i (r.bearing id) packet fun _ => 0).insertRecipe order id i =
            w.asked i r packet fun _ => 0 := (Prod.mk.inj (hSend.symm.trans hEq)).2
        have hRecipes := congrArg World.recipes hWorld
        rw [insertRecipe_recipes] at hRecipes
        have hRecipesIn := congrArg World.recipesIn hWorld
        have hRecipe : r.bearing id = r :=
          hAsked.symm.trans ((congrFun hRecipes i).trans (setRecipe_self w i r))
        refine ⟨congrArg RtdeRecipe.active hRecipe.symm, congrArg RtdeRecipe.recipeId hRecipe.symm, ?_, ?_⟩
        · exact (insertRecipe_eq_self_iff (w.asked i (r.bearing id) packet fun _ => 0) order id i).mp hRecipesIn
        · intro e hMem
          have hNot := hOther e (hRecipesIn ▸ hMem)
          rwa [insertRecipe_recipes, hRecipes, hIds] at hNot
      · have hWire := congrArg (fun result => result.2.wire.length) (hSend.symm.trans hEq)
        simp only [sentBy, wire_insertRecipe, List.length_append, List.length_singleton, asked] at hWire
        omega
    · rintro ⟨hAlready, hId, ⟨e, hMem, hKey⟩, hOther⟩
      have hInsert := insertRecipe_of_mem (w := w.asked i r packet fun _ => 0) ⟨e, hMem, hKey⟩ order i
      rw [RtdeRecipe.bearing_eq_self hAlready hId, hInsert]
      rcases send_cases (w.asked i r packet fun _ => 0) id initialSend with ⟨hSend, -⟩ | ⟨e, -, hMem, hSame, -⟩
      · exact hSend
      · rw [hIds] at hSame
        exact absurd hSame (hOther e hMem)

end World

namespace ReplyOp

variable (w : World) (sent : Nat) (bytes : List UInt8)

theorem registerRecipe_outcome {i : Nat} {order : MapOrder} {initialSend : Int} {packet : Buf} {r : RtdeRecipe}
    (hMsg : (w.recipes i).getMsg = some (packet, r)) (b : Buf) :
    (registerRecipe i order initialSend).outcome { w with buffer := b } sent bytes =
      if (r.registerResponse (answerOver bytes b)).1 then
        some ((w.taken i r packet (hdrRecipeId (answerOver bytes b)).toNat order initialSend).1, none,
          (w.taken i r packet (hdrRecipeId (answerOver bytes b)).toNat order initialSend).2)
      else some (false, none, w.asked i r packet fun _ => 0) := by
  rw [outcome, run, World.registerRecipe_answered (w := { w with buffer := b })
    (g := ⟨⟨sent, some bytes⟩, order, initialSend⟩) hMsg (World.answer_delivered _ sent bytes)]
  cases hTaken : (r.registerResponse (answerOver bytes b)).1 with
  | false => rfl
  | true =>
    have hAsked : { w with buffer := b }.asked i (r.accepted (answerOver bytes b)) packet (answerOver bytes b) =
        { (w.asked i (r.bearing (hdrRecipeId (answerOver bytes b)).toNat) packet fun _ => 0) with
          buffer := answerOver bytes b } := rfl
    cases hDir : r.dirOut with
    | true =>
      simp only [World.taken, hDir, hAsked, Bool.true_eq_false, if_true, if_false, Option.map_some]
      rfl
    | false =>
      have hBuffer (asked : World) (id : Nat) :
          ((asked.insertRecipe order id i).send id initialSend).2.buffer = asked.buffer := by
        rw [World.buffer_send, World.buffer_insertRecipe]
      simp only [World.taken, hDir, hAsked, World.insertRecipe_buffer, World.send_buffer, Bool.true_eq_false,
        Bool.false_eq_true, if_true, if_false, Option.map_some]
      exact congrArg some (Prod.ext rfl (Prod.ext rfl (World.buffer_self (hBuffer _ _))))

end ReplyOp

end LibUrx.Rtde
