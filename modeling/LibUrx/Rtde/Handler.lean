import LibUrx.Rtde.Connection
import LibUrx.Rtde.Recipe

/-! # The RTDE handler

The handler keeps the output recipe, a map of input recipes and one receive buffer. Recipes are
objects it points to, so the state holds all of them, along with the memory their storage lies in
and the frames handed to the connection so far. `none` stands for undefined behaviour: a recipe
without fields asked for its message, or a data package taken with no output recipe registered.
-/
namespace LibUrx.Rtde
open Bytes Text
set_option autoImplicit false

/-- The order in which an unordered map is walked after an insertion. -/
structure MapOrder where
  arrange : List (Int × Nat) → List (Int × Nat)
  perm : ∀ entries, (arrange entries).Perm entries

def MapOrder.asInserted : MapOrder where
  arrange := id
  perm _ := .rfl

structure World where
  out : Option Nat
  recipesIn : List (Int × Nat)
  buffer : Buf
  recipes : Nat → RtdeRecipe
  mem : Memory
  wire : List (List UInt8)

structure Registration where
  exchange : Exchange
  order : MapOrder
  initialSend : Int

def frameOf (packet : Buf) : List UInt8 := slice packet 0 (hdrSize packet)

namespace World

/-- A new handler. Nobody has written its buffer yet. -/
def fresh (mem : Memory) (buffer : Buf) : World where
  out := none
  recipesIn := []
  buffer := buffer
  recipes := fun _ => RtdeRecipe.init
  mem := mem
  wire := []

def setRecipe (w : World) (i : Nat) (r : RtdeRecipe) : World :=
  { w with recipes := fun j => if j = i then r else w.recipes j }

def exchange (w : World) (packet : Buf) (rsz : Nat) (x : Exchange) : Int × World :=
  let (code, buffer) := doSendRecv w.buffer rsz x
  (code, { w with buffer, wire := w.wire ++ [frameOf packet] })

def setVersion (w : World) (x : Exchange) : Bool × World :=
  let (code, w) := w.exchange (rtdeMkreqProtVersion fun _ => 0) 1024 x
  if code < 0 then (false, w) else (rtdeParseProtVersion w.buffer, w)

def getUrVersion (w : World) (urver : UrVersion) (x : Exchange) : Bool × UrVersion × World :=
  let (code, w) := w.exchange (rtdeMkreqUrctrlVersion fun _ => 0) 1024 x
  if code < 0 then (false, urver, w) else
  match rtdeParseUrctrlResp w.buffer with
  | none => (false, urver, w)
  | some urver => (decide (0 < urver.major) && decide (urver.major < 7), urver, w)

def send (w : World) (recipeId : Int) (sendCode : Int) : Bool × World :=
  match w.recipesIn.find? fun e => (w.recipes e.2).recipeId == recipeId with
  | none => (false, w)
  | some (_, i) =>
    let dp := ((w.recipes i).store (w.recipes i).dp w.mem).2
    let w := w.setRecipe i { w.recipes i with dp }
    (decide (0 < sendCode), { w with wire := w.wire ++ [frameOf dp] })

/-- `insert` leaves an entry that is already there as it is. -/
def insertRecipe (w : World) (order : MapOrder) (recipeId : Int) (i : Nat) : World :=
  if w.recipesIn.any fun e => e.1 == recipeId then w
  else { w with recipesIn := order.arrange ((recipeId, i) :: w.recipesIn) }

def registerRecipe (w : World) (i : Nat) (g : Registration) : Option (Bool × World) :=
  match (w.recipes i).getMsg with
  | none => none
  | some (packet, r) =>
    let (code, w) := (w.setRecipe i r).exchange packet packetBytes g.exchange
    if code < 0 then some (false, w) else
    let w := { w with buffer := patch w.buffer (min code.toNat (packetBytes - 1)) [0] }
    match r.registerResponse w.buffer with
    | (false, _) => some (false, w)
    | (true, r) =>
      let w := w.setRecipe i r
      if r.dirOut then some (true, { w with out := some i })
      else some ((w.insertRecipe g.order r.recipeId i).send r.recipeId g.initialSend)

def start (w : World) (x : Exchange) : Bool × World :=
  let (code, w) := w.exchange (rtdeControlPackage (fun _ => 0) true) 4 x
  if code < 0 then (false, w)
  else if !rtdeControlPackageSpRespValidate w.buffer true then (false, w)
  else (w.buffer 3 != 0, w)

def stop (w : World) (x : Exchange) : Bool × World :=
  let (code, w) := w.exchange (rtdeControlPackage (fun _ => 0) false) 4 x
  if code < 0 then (false, w)
  -- the answer is checked as an answer to a start request here too
  else if !rtdeControlPackageSpRespValidate w.buffer true then (false, w)
  else (w.buffer 3 != 0, w)

def parseIncomingData (w : World) (data : Buf) (rxTs : UInt64) : Option (Bool × Buf × Memory) :=
  if !rtdeParseDataPackage data then some (false, data, w.mem) else
  match w.out with
  | none => none
  | some i =>
    let r := w.recipes i
    if r.recipeId ≠ (hdrRecipeId data).toNat then some (false, data, w.mem)
    else if r.expectedBytes ≠ hdrSize data - 4 then some (false, data, w.mem)
    else
      let (ok, load, mem) := r.parse (payload data) rxTs w.mem
      some (ok, withPayload data load, mem)

def recv (w : World) (reply : Option (List UInt8)) (ts : UInt64) : Option (Bool × World) :=
  let (code, buffer) := doRecv w.buffer packetBytes reply
  let w := { w with buffer }
  if code < 0 then some (false, w)
  else (w.parseIncomingData w.buffer ts).map fun (ok, buffer, mem) => (ok, { w with buffer, mem })

/-- The frame that a registration has to check, as it stands in the buffer by then. -/
def answer (w : World) (x : Exchange) : Option Buf :=
  let (code, buffer) := doSendRecv w.buffer packetBytes x
  if code < 0 then none else some (patch buffer (min code.toNat (packetBytes - 1)) [0])

/-- Recipe `i` has asked for its registration, and something has been read. -/
def asked (w : World) (i : Nat) (r : RtdeRecipe) (packet buffer : Buf) : World :=
  { w.setRecipe i r with buffer, wire := w.wire ++ [frameOf packet] }

/-- Recipe `i` has been stored into its package and the package handed over. -/
def sentBy (w : World) (i : Nat) : World :=
  let dp := ((w.recipes i).store (w.recipes i).dp w.mem).2
  { w.setRecipe i { w.recipes i with dp } with wire := w.wire ++ [frameOf dp] }

@[simp] theorem setRecipe_self (w : World) (i : Nat) (r : RtdeRecipe) : (w.setRecipe i r).recipes i = r := by
  simp [setRecipe]

theorem setRecipe_of_ne {i j : Nat} (h : j ≠ i) (w : World) (r : RtdeRecipe) :
    (w.setRecipe i r).recipes j = w.recipes j := by
  simp [setRecipe, h]

theorem asked_setRecipe (w : World) (i : Nat) (r r' : RtdeRecipe) (packet buffer : Buf) :
    (w.asked i r packet buffer).setRecipe i r' = w.asked i r' packet buffer := by
  simp only [asked, setRecipe]
  congr 1
  funext j
  split <;> rfl

theorem setRecipe_setRecipe (w : World) (i : Nat) (r r' : RtdeRecipe) :
    (w.setRecipe i r).setRecipe i r' = w.setRecipe i r' := by
  simp only [setRecipe]
  congr 1
  funext j
  split <;> rfl

/-- A package goes to the first recipe of the map, in the order of the walk, that bears the id. -/
theorem send_cases (w : World) (id sendCode : Int) :
    (w.send id sendCode = (false, w) ∧ ∀ e ∈ w.recipesIn, (w.recipes e.2).recipeId ≠ id) ∨
      ∃ e, w.recipesIn.find? (fun e => (w.recipes e.2).recipeId == id) = some e ∧ e ∈ w.recipesIn ∧
        (w.recipes e.2).recipeId = id ∧ w.send id sendCode = (decide (0 < sendCode), w.sentBy e.2) := by
  cases hFind : w.recipesIn.find? fun e => (w.recipes e.2).recipeId == id with
  | none =>
    refine Or.inl ⟨by rw [send, hFind], fun e hMem hId => ?_⟩
    have := List.find?_eq_none.mp hFind e hMem
    exact this (beq_iff_eq.mpr hId)
  | some e =>
    have hId := List.find?_some hFind
    exact Or.inr ⟨e, rfl, List.mem_of_find?_eq_some hFind, by simpa using hId, by rw [send, hFind]; rfl⟩

end World

theorem RtdeRecipe.getMsg_eq_some {r r' : RtdeRecipe} {packet : Buf} (h : r.getMsg = some (packet, r')) :
    ∃ cpo cpi, r' = { r with cpo, cpi } := by
  obtain ⟨names, -, hMsg⟩ := Option.map_eq_some_iff.mp h
  split at hMsg
  · exact ⟨_, r.cpi, (Prod.mk.inj hMsg).2.symm⟩
  · exact ⟨r.cpo, _, (Prod.mk.inj hMsg).2.symm⟩

theorem RtdeRecipe.registerResponse_congr (r : RtdeRecipe) (cpo cpi resp : Buf) :
    (({ r with cpo, cpi } : RtdeRecipe).registerResponse resp).1 = (r.registerResponse resp).1 := by
  unfold registerResponse
  dsimp only
  split
  · rfl
  · split
    · rfl
    · split <;> rfl

def RtdeRecipe.accepted (r : RtdeRecipe) (resp : Buf) : RtdeRecipe :=
  { r with recipeId := (hdrRecipeId resp).toNat, active := true }

namespace World

theorem setVersion_world (w : World) (x : Exchange) :
    (w.setVersion x).2 = (w.exchange (rtdeMkreqProtVersion fun _ => 0) 1024 x).2 := by
  unfold setVersion
  dsimp only
  split <;> rfl

theorem getUrVersion_world (w : World) (urver : UrVersion) (x : Exchange) :
    (w.getUrVersion urver x).2.2 = (w.exchange (rtdeMkreqUrctrlVersion fun _ => 0) 1024 x).2 := by
  unfold getUrVersion
  dsimp only
  split
  · rfl
  · split <;> rfl

theorem start_world (w : World) (x : Exchange) :
    (w.start x).2 = (w.exchange (rtdeControlPackage (fun _ => 0) true) 4 x).2 := by
  unfold start
  dsimp only
  split
  · rfl
  · split <;> rfl

theorem stop_world (w : World) (x : Exchange) :
    (w.stop x).2 = (w.exchange (rtdeControlPackage (fun _ => 0) false) 4 x).2 := by
  unfold stop
  dsimp only
  split
  · rfl
  · split <;> rfl

theorem insertRecipe_recipes (w : World) (order : MapOrder) (id : Int) (i : Nat) :
    (w.insertRecipe order id i).recipes = w.recipes := by
  unfold insertRecipe
  split <;> rfl

theorem mem_insertRecipe_iff {w : World} {order : MapOrder} {id : Int} {i : Nat} {e : Int × Nat} :
    e ∈ (w.insertRecipe order id i).recipesIn ↔ e ∈ w.recipesIn ∨ (∀ e ∈ w.recipesIn, e.1 ≠ id) ∧ e = (id, i) := by
  have hAny : (w.recipesIn.any fun e => e.1 == id) = true ↔ ∃ e ∈ w.recipesIn, e.1 = id := by simp
  rw [insertRecipe]
  split
  · rename_i hKey
    obtain ⟨e', hMem, hId⟩ := hAny.mp hKey
    exact (or_iff_left fun h => h.1 e' hMem hId).symm
  · rename_i hKey
    have hNew : ∀ e ∈ w.recipesIn, e.1 ≠ id := fun e hMem hId => hKey (hAny.mpr ⟨e, hMem, hId⟩)
    rw [(order.perm _).mem_iff, List.mem_cons, or_comm]
    exact or_congr_right (and_iff_right hNew).symm

theorem recv_some (w : World) (bytes : List UInt8) (ts : UInt64) :
    w.recv (some bytes) ts =
      (w.parseIncomingData (doRecv w.buffer packetBytes (some bytes)).2 ts).map fun p =>
        (p.1, { w with buffer := p.2.1, mem := p.2.2 }) := by
  have hCode : ¬ (doRecv w.buffer packetBytes (some bytes)).1 < 0 := by
    rw [doRecv_some]
    omega
  simp only [recv, if_neg hCode]
  rfl

theorem recv_eq_some {w w' : World} {reply : Option (List UInt8)} {ts : UInt64} {ok : Bool}
    (h : w.recv reply ts = some (ok, w')) : ∃ buffer mem, w' = { w with buffer, mem } := by
  unfold recv at h
  dsimp only at h
  split at h
  · exact ⟨_, w.mem, (Prod.mk.inj (Option.some.inj h)).2.symm⟩
  · obtain ⟨parsed, -, hWorld⟩ := Option.map_eq_some_iff.mp h
    exact ⟨_, _, (Prod.mk.inj hWorld).2.symm⟩

theorem registerRecipe_answered {w : World} {i : Nat} {g : Registration} {packet resp : Buf} {r : RtdeRecipe}
    (hMsg : (w.recipes i).getMsg = some (packet, r)) (hAnswer : w.answer g.exchange = some resp) :
    w.registerRecipe i g = some (
      if (r.registerResponse resp).1 = false then (false, w.asked i r packet resp)
      else if r.dirOut then (true, { w.asked i (r.accepted resp) packet resp with out := some i })
      else ((w.asked i (r.accepted resp) packet resp).insertRecipe g.order (hdrRecipeId resp).toNat i).send
        (hdrRecipeId resp).toNat g.initialSend) := by
  unfold answer at hAnswer
  dsimp only at hAnswer
  split at hAnswer
  · cases hAnswer
  · rename_i hCode
    obtain rfl := Option.some.inj hAnswer
    have hBuffer : (w.setRecipe i r).buffer = w.buffer := rfl
    unfold registerRecipe
    simp only [hMsg, exchange, hBuffer, if_neg hCode]
    rcases RtdeRecipe.registerResponse_cases r (patch (doSendRecv w.buffer packetBytes g.exchange).2
        (min (doSendRecv w.buffer packetBytes g.exchange).1.toNat (packetBytes - 1)) [0]) with hRefused | hAccepted
    · rw [hRefused]
      rfl
    · rw [hAccepted]
      simp only [Bool.true_eq_false, if_false]
      split
      · rw [← asked_setRecipe w i r]
        rfl
      · rw [← asked_setRecipe w i r]
        rfl

/-- Without an answer nothing has been read. -/
theorem registerRecipe_unanswered {w : World} {i : Nat} {g : Registration} {packet : Buf} {r : RtdeRecipe}
    (hMsg : (w.recipes i).getMsg = some (packet, r)) (hAnswer : w.answer g.exchange = none) :
    w.registerRecipe i g = some (false, w.asked i r packet w.buffer) := by
  unfold answer at hAnswer
  dsimp only at hAnswer
  split at hAnswer
  · rename_i hCode
    have hBuffer : (doSendRecv w.buffer packetBytes g.exchange).2 = w.buffer := by
      rw [doSendRecv] at hCode ⊢
      split
      · rfl
      · rename_i hSent
        rw [if_neg hSent] at hCode
        cases hReply : g.exchange.reply with
        | none => rfl
        | some bytes =>
          rw [hReply, doRecv_some] at hCode
          omega
    have hSame : (w.setRecipe i r).buffer = w.buffer := rfl
    simp only [registerRecipe, hMsg, exchange, hSame, if_pos hCode, hBuffer]
    rfl
  · cases hAnswer

/-- What a registration can do: nothing has been sent, refused, or accepted in one of two directions. -/
theorem registerRecipe_cases {w w' : World} {i : Nat} {g : Registration} {ok : Bool}
    (h : w.registerRecipe i g = some (ok, w')) :
    ∃ packet r, (w.recipes i).getMsg = some (packet, r) ∧
      ((ok = false ∧ ∃ buffer, w' = w.asked i r packet buffer) ∨
        ∃ resp, w.answer g.exchange = some resp ∧ r.registerResponse resp = (true, r.accepted resp) ∧
          (r.dirOut = true ∧ ok = true ∧
              w' = { w.asked i (r.accepted resp) packet resp with out := some i } ∨
            r.dirOut = false ∧
              (ok, w') = ((w.asked i (r.accepted resp) packet resp).insertRecipe g.order
                (hdrRecipeId resp).toNat i).send (hdrRecipeId resp).toNat g.initialSend)) := by
  cases hMsg : (w.recipes i).getMsg with
  | none => simp [registerRecipe, hMsg] at h
  | some asks =>
    obtain ⟨packet, r⟩ := asks
    refine ⟨packet, r, rfl, ?_⟩
    cases hAnswer : w.answer g.exchange with
    | none =>
      have hCode : (doSendRecv w.buffer packetBytes g.exchange).1 < 0 := by
        unfold answer at hAnswer
        dsimp only at hAnswer
        split at hAnswer
        · assumption
        · cases hAnswer
      have hBuffer : (w.setRecipe i r).buffer = w.buffer := rfl
      simp only [registerRecipe, hMsg, exchange, hBuffer, if_pos hCode] at h
      obtain ⟨rfl, rfl⟩ := Prod.mk.inj (Option.some.inj h)
      exact Or.inl ⟨rfl, _, rfl⟩
    | some resp =>
      rw [registerRecipe_answered hMsg hAnswer] at h
      have hResult := Option.some.inj h
      cases RtdeRecipe.registerResponse_cases r resp with
      | inl hRefused =>
        rw [hRefused, if_pos rfl] at hResult
        obtain ⟨rfl, rfl⟩ := Prod.mk.inj hResult
        exact Or.inl ⟨rfl, _, rfl⟩
      | inr hAccepted =>
        refine Or.inr ⟨resp, rfl, hAccepted, ?_⟩
        simp only [hAccepted, Bool.true_eq_false, if_false] at hResult
        cases hDir : r.dirOut with
        | true =>
          rw [if_pos hDir] at hResult
          obtain ⟨rfl, rfl⟩ := Prod.mk.inj hResult
          exact Or.inl ⟨rfl, rfl, rfl⟩
        | false =>
          rw [if_neg (by simp [hDir])] at hResult
          exact Or.inr ⟨rfl, hResult.symm⟩

end World

end LibUrx.Rtde
