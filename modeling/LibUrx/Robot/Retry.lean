import LibUrx.Base.Runs
import LibUrx.Robot.Initialise

/-! # Setting a robot up again after failures

A failed attempt that reached the controller leaves something behind: the byte counter of the output
recipe, or the fields of the input recipe.
-/
namespace LibUrx
open Bytes Text Rtde Runs
set_option autoImplicit false

inductive Attempt where
  | initOutput (connected : Bool) (g : Registration)
  | initInput (g : Registration)

/-- What a user of a running robot does and sees: receptions and speed commands. -/
inductive TrafficCall where
  | recv (reply : Option (List UInt8)) (ts : UInt64) (now : Int)
  | updateW (newW : List UInt64) (sendCode : Int)

/-- The verdict on a call, the state it leaves, and the frames it handed over. -/
structure Observation where
  accepted : Bool
  state : RobotState
  frames : List (List UInt8)

namespace Robot

def attempt (b : Robot) : Attempt → Option (Bool × Robot)
  | .initOutput connected g => b.initOutput connected g
  | .initInput g => b.initInput g

def FailedAttempt (b : Robot) (a : Attempt) (b' : Robot) : Prop := b.attempt a = some (false, b')

def observe (b : Robot) : TrafficCall → Option (Observation × Robot)
  | .recv reply ts now => (b.recv reply ts now).map fun (ok, b') => (⟨ok, b'.urState, []⟩, b')
  | .updateW newW sendCode =>
    let (ok, b') := b.updateW newW sendCode
    some (⟨ok, b'.urState, b'.handler.wire.drop b.handler.wire.length⟩, b')

def traffic (b : Robot) : List TrafficCall → List Observation
  | [] => []
  | c :: rest =>
    match b.observe c with
    | none => []
    | some (seen, b) => seen :: b.traffic rest

end Robot

def outputTypesOf : List DataType := [.int32, .double, .vector6d, .vector6d, .vector6d, .vector6d]

def inputTypesOf : List DataType := [.int32, .int32, .double, .double, .double, .double, .double, .double]

set_option maxRecDepth 100000 in
theorem types_outputFields : typesOf true outputFields = outputTypesOf := by decide +kernel

set_option maxRecDepth 100000 in
theorem types_inputFields : typesOf false inputFields = inputTypesOf := by decide +kernel

set_option maxRecDepth 100000 in
theorem fieldBytes_outputFields : fieldBytes true outputFields = 204 := by decide +kernel

/-- Once the controller answers, both set-ups succeed, and from then on `b` cannot be told from `b₀`. -/
def RetryEquivalent (b₀ b : Robot) : Prop :=
  ∀ out input : Registration, AnswersWith out .setupOutputs outputTypesOf →
    AnswersWith input .setupInputs inputTypesOf → 0 < input.initialSend →
    ∃ b₁ b₂ c₁ c₂, b.initOutput true out = some (true, b₁) ∧ b₁.initInput input = some (true, b₂) ∧
      b₀.initOutput true out = some (true, c₁) ∧ c₁.initInput input = some (true, c₂) ∧
      ∀ calls, b₂.traffic calls = c₂.traffic calls

namespace Robot

/-- A robot whose set-ups all failed: `k` of them asked the output recipe for its types, and `j` the input
recipe. -/
structure Attempted (b : Robot) (j k : Nat) : Prop extends Sound b where
  outInitialized : b.outInitialized = false
  outFields : b.outRecipe.fields = []
  outBytes : b.outRecipe.bytes = 204 * k
  inFields : b.inRecipe.fields.length = 8 * j

theorem attempted_init (storage buffer : Buf) (x : Exchange) : (init storage buffer x).Attempted 0 0 where
  toSound := sound_init storage buffer x
  outInitialized := rfl
  outFields := by
    rw [outRecipe_init]
    rfl
  outBytes := by
    rw [outRecipe_init]
    rfl
  inFields := by
    rw [inRecipe_init]
    rfl

/-- A failed attempt leaves no trace only if it did not reach the controller. -/
theorem Attempted.step {b b' : Robot} {j k : Nat} (h : b.Attempted j k) {a : Attempt} (hFail : FailedAttempt b a b') :
    (b' = b ∧ ∃ g, a = .initOutput false g) ∨
      ((∀ g, a ≠ .initOutput false g) ∧ (b'.Attempted j (k + 1) ∨ b'.Attempted (j + 1) k)) := by
  cases a with
  | initOutput connected g =>
    have hSound := h.toSound.initOutputWith known_outputFields hFail
    rcases initOutputWith_cases known_outputFields h.outDir hFail with
      ⟨rfl, ⟨-, hOk⟩ | ⟨-, -, hLost | hFields⟩⟩ | ⟨-, rfl, -, packet, r, hMsg, ⟨-, buffer, rfl⟩ | ⟨hOk, -⟩⟩
    · cases hOk
    · exact Or.inl ⟨rfl, g, by rw [hLost]⟩
    · exact absurd h.outFields hFields
    · refine Or.inr ⟨by simp, Or.inl ⟨hSound, h.outInitialized, ?_, ?_, ?_⟩⟩
      · exact congrArg RtdeRecipe.fields (World.asked_self _ _ _ _ _)
      · have hBytes : r.bytes = 204 * (k + 1) := by
          rw [(RtdeRecipe.alike_getMsg hMsg).bytes, RtdeRecipe.extended, h.outDir, fieldBytes_outputFields, h.outBytes]
          exact (Nat.mul_succ 204 k).symm
        exact (congrArg RtdeRecipe.bytes (World.asked_self _ _ _ _ _)).trans hBytes
      · exact h.inFields
    · cases hOk
  | initInput g =>
    have hSound := h.toSound.initInputWith known_inputFields hFail
    obtain ⟨packet, r, hMsg, hCases⟩ := initInputWith_cases known_inputFields h.onlyInput h.inDir hFail
    have hFields : r.fields.length = 8 * (j + 1) := by
      rw [(RtdeRecipe.alike_getMsg hMsg).fields, RtdeRecipe.extended, List.length_append, length_placed, h.inFields]
      rfl
    rcases hCases with ⟨-, buffer, rfl⟩ | ⟨resp, filed, -, -, -, -, -, rfl⟩
    · exact Or.inr ⟨by simp, Or.inr ⟨hSound, h.outInitialized, h.outFields, h.outBytes, hFields⟩⟩
    · exact Or.inr ⟨by simp, Or.inr ⟨hSound, h.outInitialized, h.outFields, h.outBytes, hFields⟩⟩

/-- After any failed attempts: either nothing has changed, or something is left behind. -/
theorem Attempted.run {b b' : Robot} {attempts : List Attempt} (h : Path FailedAttempt b attempts b') {j k : Nat}
    (hStart : b.Attempted j k) :
    (b' = b ∧ ∀ a ∈ attempts, ∃ g, a = .initOutput false g) ∨
      (¬ (∀ a ∈ attempts, ∃ g, a = .initOutput false g) ∧ ∃ j' k', b'.Attempted j' k' ∧ j + k < j' + k') := by
  induction h generalizing j k with
  | nil => exact Or.inl ⟨rfl, fun a hMem => absurd hMem List.not_mem_nil⟩
  | cons head _ ih =>
    rcases hStart.step head with ⟨rfl, g, rfl⟩ | ⟨hReached, hLeft⟩
    · refine (ih hStart).imp (fun ⟨hSame, hAll⟩ => ⟨hSame, fun a hMem => ?_⟩) fun ⟨hSome, hLater⟩ => ⟨?_, hLater⟩
      · rcases List.mem_cons.mp hMem with rfl | hRest
        · exact ⟨g, rfl⟩
        · exact hAll a hRest
      · exact fun hAll => hSome (List.forall_mem_of_forall_mem_cons hAll)
    · obtain ⟨j₁, k₁, hNext, hMore⟩ : ∃ j₁ k₁, Attempted _ j₁ k₁ ∧ j + k < j₁ + k₁ := by
        cases hLeft with
        | inl hOut => exact ⟨j, k + 1, hOut, by omega⟩
        | inr hIn => exact ⟨j + 1, k, hIn, by omega⟩
      refine Or.inr ⟨fun hAll => ?_, ?_⟩
      · obtain ⟨g, hFirst⟩ := hAll _ List.mem_cons_self
        exact hReached g hFirst
      · rcases ih hNext with ⟨rfl, -⟩ | ⟨-, j₂, k₂, hLater, hEven⟩
        · exact ⟨j₁, k₁, hNext, hMore⟩
        · exact ⟨j₂, k₂, hLater, by omega⟩

theorem Attempted.initOutput {b : Robot} {j k : Nat} (h : b.Attempted j k) {g : Registration} {sent : Nat} {id : UInt8}
    (hAnswer : g.exchange = ⟨sent, some (typesAnswer .setupOutputs id outputTypesOf)⟩) :
    ∃ b₁ : Robot, b.initOutput true g = some (true, b₁) ∧ b₁.Sound ∧ b₁.outInitialized = true ∧
      b₁.outRecipe.recipeId = id.toNat ∧ b₁.outRecipe.bytes = 204 * (k + 1) ∧ b₁.inRecipe = b.inRecipe := by
  obtain ⟨packet, r, resp, hMsg, hResp, hTaken, hFiledId⟩ :=
    h.accepts_types (i := 0) (h.outDir ▸ known_outputFields) h.outFields (h.outDir ▸ types_outputFields) (by decide)
      (by decide) (Or.inl rfl) hAnswer
  have hBytes : r.bytes = 204 * (k + 1) := by
    apply (RtdeRecipe.alike_getMsg hMsg).bytes.trans
    change b.outRecipe.bytes + fieldBytes b.outRecipe.dirOut outputFields = 204 * (k + 1)
    rw [h.outDir, fieldBytes_outputFields, h.outBytes]
    exact (Nat.mul_succ 204 k).symm
  have hInit := initOutputWith_answered known_outputFields h.outDir h.outInitialized h.outFields hMsg hResp hTaken
  have hRecipe := World.asked_self b.handler 0 (r.accepted resp) packet resp
  have hId : (r.accepted resp).recipeId = id.toNat := by rw [RtdeRecipe.accepted, hFiledId]
  exact ⟨_, hInit, h.toSound.initOutputWith known_outputFields hInit, rfl,
    (congrArg RtdeRecipe.recipeId hRecipe).trans hId, (congrArg RtdeRecipe.bytes hRecipe).trans hBytes, rfl⟩

theorem initInput_answered {b : Robot} (h : b.Sound) (hFresh : b.inRecipe.fields = []) {g : Registration}
    (hAnswer : AnswersWith g .setupInputs inputTypesOf) (hSend : 0 < g.initialSend) :
    ∃ b₁ : Robot, b.initInput g = some (true, b₁) ∧ b₁.Sound ∧ b₁.inInitialized = true ∧
      b₁.outInitialized = b.outInitialized ∧ b₁.outRecipe = b.outRecipe :=
  h.initInput_types known_inputFields hFresh types_inputFields (by decide) (by decide) hAnswer hSend

theorem inRecipe_fresh_of_initInput {b b' : Robot} (h : b.Sound) {g : Registration} {sent : Nat} {id : UInt8}
    (hAnswer : g.exchange = ⟨sent, some (typesAnswer .setupInputs id inputTypesOf)⟩)
    (hInit : b.initInput g = some (true, b')) : b.inRecipe.fields = [] := by
  obtain ⟨packet, r, hMsg, ⟨hOk, -⟩ | ⟨resp, filed, hResp, hTaken, -⟩⟩ :=
    initInputWith_cases known_inputFields h.onlyInput h.inDir hInit
  · cases hOk
  · rw [hAnswer, World.answer_delivered] at hResp
    obtain rfl := Option.some.inj hResp
    obtain ⟨-, -, hLength, -⟩ := (r.registerResponse_true_iff _).mp hTaken
    have hItems : (getlines comma (typeNames inputTypesOf)).length = 8 := by decide
    rw [respVariables_answer _ _ _ (by decide) _ (by decide), hItems, (RtdeRecipe.alike_getMsg hMsg).fields,
      RtdeRecipe.extended, List.length_append, length_placed] at hLength
    have hEight : inputFields.length = 8 := rfl
    exact List.eq_nil_of_length_eq_zero (by omega)

/-- A package of the six output fields with recipe id 1 and every value zero. -/
def zeroPackage : List UInt8 := [0, 208, 85, 1] ++ List.replicate 204 0

theorem recv_zeroPackage {b : Robot} (h : b.Sound) (hOut : b.outInitialized = true)
    (hId : b.outRecipe.recipeId = 1) :
    ∃ b', b.recv (some zeroPackage) 0 0 = some (decide (b.outRecipe.bytes = 204), b') := by
  have hSource : b.handler.out = some 0 := by rw [h.out, if_pos hOut]
  obtain ⟨data, hData⟩ : ∃ data, (doRecv b.handler.buffer packetBytes (some zeroPackage)).2 = data := ⟨_, rfl⟩
  have hHead (i : Nat) (hLt : i < 4) : data i = ofBytes zeroPackage i := by
    rw [← hData]
    refine doRecv_known b.handler.buffer ?_ (by unfold packetBytes; omega)
    have hLength : (zeroPackage.take packetBytes).length = 208 := rfl
    omega
  have hSize : hdrSize data = 208 := by
    rw [hdrSize_eq, hHead 0 (by decide), hHead 1 (by decide)]
    rfl
  have hAccepts : World.Accepts (b.handler.recipes 0) data ↔ b.outRecipe.bytes = 204 := by
    unfold World.Accepts
    rw [hdrType, hdrRecipeId, hHead 2 (by decide), hHead 3 (by decide), hSize]
    constructor
    · rintro ⟨-, -, -, hBytes⟩
      have : (208 : Int) - 4 = (b.outRecipe.bytes : Int) := hBytes
      omega
    · intro hBytes
      refine ⟨rfl, by decide, hId.symm, ?_⟩
      change (208 : Int) - 4 = (b.outRecipe.bytes : Int)
      rw [hBytes]
      rfl
  simp only [recv, takeFrame, World.recv_some, hData, Option.map_map]
  cases Classical.em (b.outRecipe.bytes = 204) with
  | inl hBytes =>
    rw [World.parseIncomingData_accepted hSource (h.formed 0) h.outDir (hAccepts.mpr hBytes), decide_eq_true hBytes]
    simp [publish, hOut]
  | inr hBytes =>
    rw [World.parseIncomingData_refused hSource (fun hTaken => hBytes (hAccepts.mp hTaken)), decide_eq_false hBytes]
    simp

/-- What a failed attempt leaves behind can be seen: in the set-up of the input or in the first package. -/
theorem Attempted.not_equivalent {storage buffer : Buf} {x : Exchange} {b : Robot} {j k : Nat} (h : b.Attempted j k)
    (hLeft : 0 < j + k) : ¬ RetryEquivalent (init storage buffer x) b := by
  intro hEquivalent
  obtain ⟨b₁, b₂, c₁, c₂, hOut, hIn, hOut', hIn', hTraffic⟩ :=
    hEquivalent (answeredWith .setupOutputs outputTypesOf) (answeredWith .setupInputs inputTypesOf)
      (answersWith_answeredWith _ _) (answersWith_answeredWith _ _) Int.one_pos
  obtain ⟨b₁', hOut₁, hSound₁, hReady₁, hId₁, hBytes₁, hInput₁⟩ := h.initOutput (g := answeredWith _ _) rfl
  obtain rfl := (Prod.mk.inj (Option.some.inj (hOut₁.symm.trans hOut))).2
  obtain ⟨c₁', hOut₂, hSound₂, hReady₂, hId₂, hBytes₂, -⟩ :=
    (attempted_init storage buffer x).initOutput (g := answeredWith _ _) rfl
  obtain rfl := (Prod.mk.inj (Option.some.inj (hOut₂.symm.trans hOut'))).2
  -- the input could be set up only because none of the failed attempts was about it
  have hFresh : b₁'.inRecipe.fields = [] := inRecipe_fresh_of_initInput hSound₁ (g := answeredWith _ _) rfl hIn
  have hNoInput : j = 0 := by
    have hFields := h.inFields
    rw [← hInput₁, hFresh, List.length_nil] at hFields
    omega
  have hAhead : 204 * (k + 1) ≠ 204 := by omega
  have hFresh' : c₁'.inRecipe.fields = [] := inRecipe_fresh_of_initInput hSound₂ (g := answeredWith _ _) rfl hIn'
  obtain ⟨b₂', hIn₁, hSound₃, -, hReady₃, hRecipe₃⟩ :=
    initInput_answered hSound₁ hFresh (answersWith_answeredWith _ _) Int.one_pos
  obtain rfl := (Prod.mk.inj (Option.some.inj (hIn₁.symm.trans hIn))).2
  obtain ⟨c₂', hIn₂, hSound₄, -, hReady₄, hRecipe₄⟩ :=
    initInput_answered hSound₂ hFresh' (answersWith_answeredWith _ _) Int.one_pos
  obtain rfl := (Prod.mk.inj (Option.some.inj (hIn₂.symm.trans hIn'))).2
  obtain ⟨b₃, hRecv⟩ := recv_zeroPackage hSound₃ (hReady₃.trans hReady₁) (by rw [hRecipe₃]; exact hId₁)
  obtain ⟨c₃, hRecv'⟩ := recv_zeroPackage hSound₄ (hReady₄.trans hReady₂) (by rw [hRecipe₄]; exact hId₂)
  rw [hRecipe₃, hBytes₁, decide_eq_false hAhead] at hRecv
  rw [hRecipe₄, hBytes₂, decide_eq_true (by rfl)] at hRecv'
  have hSeen := hTraffic [.recv (some zeroPackage) 0 0]
  simp [traffic, observe, hRecv, hRecv'] at hSeen

theorem equivalent_init (storage buffer : Buf) (x : Exchange) : RetryEquivalent (init storage buffer x) (init storage buffer x) := by
  rintro out input ⟨sent, id, hOut⟩ ⟨sent', id', hIn⟩ hSend
  obtain ⟨b₁, hFirst, hSound, -, -, -, hInput⟩ := (attempted_init storage buffer x).initOutput hOut
  have hFresh : b₁.inRecipe.fields = [] := by
    rw [hInput]
    exact List.eq_nil_of_length_eq_zero (attempted_init storage buffer x).inFields
  obtain ⟨b₂, hSecond, -⟩ := initInput_answered hSound hFresh ⟨sent', id', hIn⟩ hSend
  exact ⟨b₁, b₂, b₁, b₂, hFirst, hSecond, hFirst, hSecond, fun _ => rfl⟩

/-- Failed attempts can be made up for if and only if all of them failed for want of a connection. -/
theorem retry_equivalent_iff {storage buffer : Buf} {x : Exchange} {attempts : List Attempt} {b : Robot}
    (h : Path FailedAttempt (init storage buffer x) attempts b) :
    RetryEquivalent (init storage buffer x) b ↔ ∀ a ∈ attempts, ∃ g, a = .initOutput false g := by
  rcases (attempted_init storage buffer x).run h with ⟨rfl, hAll⟩ | ⟨hSome, j, k, hLeft, hPos⟩
  · exact iff_of_true (equivalent_init storage buffer x) hAll
  · exact iff_of_false (hLeft.not_equivalent hPos) hSome

/-- The request cannot be sent. -/
def unsent : Registration where
  exchange := ⟨-1, none⟩
  order := .asInserted
  initialSend := 0

theorem retry_equivalent_iff_unconnected :
    RetryEquivalent (init (fun _ => 0) (fun _ => 0) ⟨-1, none⟩) (init (fun _ => 0) (fun _ => 0) ⟨-1, none⟩) := by
  have hRun : Path FailedAttempt (init (fun _ => 0) (fun _ => 0) ⟨-1, none⟩) [.initOutput false unsent]
      (init (fun _ => 0) (fun _ => 0) ⟨-1, none⟩) := .cons rfl (.nil _)
  refine (retry_equivalent_iff hRun).mpr fun a hMem => ⟨unsent, ?_⟩
  exact List.mem_singleton.mp hMem

set_option maxRecDepth 100000 in
/-- A request for the output types that cannot be sent is never made up for. -/
theorem failed_request_is_noticed : ¬ ∀ (storage buffer : Buf) (x : Exchange) (attempts : List Attempt) (b : Robot),
    Path FailedAttempt (init storage buffer x) attempts b → RetryEquivalent (init storage buffer x) b := by
  intro h
  have hFails : ((init (fun _ => 0) (fun _ => 0) ⟨-1, none⟩).attempt (.initOutput true unsent)).map Prod.fst = some false := by
    decide +kernel
  obtain ⟨⟨ok, b⟩, hAttempt, rfl⟩ := Option.map_eq_some_iff.mp hFails
  rcases (attempted_init (fun _ => 0) (fun _ => 0) ⟨-1, none⟩).step hAttempt with ⟨-, g, hNot⟩ | ⟨-, hOut | hIn⟩
  · cases hNot
  · exact hOut.not_equivalent Nat.one_pos (h _ _ _ [_] b (.cons hAttempt (.nil b)))
  · exact hIn.not_equivalent Nat.one_pos (h _ _ _ [_] b (.cons hAttempt (.nil b)))

end Robot

end LibUrx
