import LibUrx.Rtde.DataPackage
import LibUrx.Rtde.HandlerRun

/-! # Data without an output recipe

The handler has no output recipe until a registration in that direction succeeds. A data package that
arrives before is looked at through a null pointer, unless its head is refused first.
-/
namespace LibUrx.Rtde
open Bytes Text Runs
set_option autoImplicit false

namespace World

/-- The call registers an output recipe, and the registration succeeds. -/
def AcceptsOutput (w : World) (c : HandlerCall) : Prop :=
  ∃ i g w', c = .register i g ∧ (w.recipes i).dirOut = true ∧ w.registerRecipe i g = some (true, w')

/-- Nothing is dereferenced, and without an output recipe nothing is taken. -/
def ParsesSafely (w : World) (data : Buf) (rxTs : UInt64) : Prop :=
  ∃ ok parsed, w.parseIncomingData data rxTs = some (ok, parsed) ∧ (w.out = none → ok = false)

def RecvsSafely (w : World) (reply : Option (List UInt8)) (ts : UInt64) : Prop :=
  ∃ ok w', w.recv reply ts = some (ok, w') ∧ (w.out = none → ok = false)

theorem send_out (w : World) (id sendCode : Int) : (w.send id sendCode).2.out = w.out := by
  cases send_cases w id sendCode with
  | inl hNone => rw [hNone.1]
  | inr hSent =>
    obtain ⟨e, -, -, -, hSend⟩ := hSent
    rw [hSend]
    rfl

theorem insertRecipe_out (w : World) (order : MapOrder) (id : Int) (i : Nat) :
    (w.insertRecipe order id i).out = w.out := by
  unfold insertRecipe
  split <;> rfl

theorem registerRecipe_out {w w' : World} {i : Nat} {g : Registration} {ok : Bool}
    (h : w.registerRecipe i g = some (ok, w')) :
    w'.out = if ok = true ∧ (w.recipes i).dirOut = true then some i else w.out := by
  obtain ⟨packet, r, hMsg, hCases⟩ := registerRecipe_cases h
  obtain ⟨cpo, cpi, hSame⟩ := RtdeRecipe.getMsg_eq_some hMsg
  have hDir : r.dirOut = (w.recipes i).dirOut := by rw [hSame]
  rcases hCases with ⟨rfl, buffer, rfl⟩ | ⟨resp, -, -, ⟨hOut, rfl, rfl⟩ | ⟨hIn, hSend⟩⟩
  · rw [if_neg (by simp)]
    rfl
  · rw [if_pos ⟨rfl, hDir ▸ hOut⟩]
  · have hWorld : w' = _ := congrArg Prod.snd hSend
    rw [if_neg (by simp [← hDir, hIn]), hWorld, send_out, insertRecipe_out]
    rfl

theorem handlerStep_out {w w' : World} {c : HandlerCall} (h : HandlerStep w c w') :
    w'.out = none ↔ w.out = none ∧ ¬ w.AcceptsOutput c := by
  have hOther (hNot : ∀ i g, c ≠ .register i g) (hSame : w'.out = w.out) :
      w'.out = none ↔ w.out = none ∧ ¬ w.AcceptsOutput c := by
    rw [hSame]
    exact (and_iff_left fun ⟨i, g, _, hCall, _⟩ => hNot i g hCall).symm
  cases h with
  | @register _ i g ok hRegister =>
    have hResult : w.AcceptsOutput (.register i g) ↔ ok = true ∧ (w.recipes i).dirOut = true := by
      constructor
      · rintro ⟨i', g', w'', hCall, hDir, hTrue⟩
        cases hCall
        exact ⟨(Prod.mk.inj (Option.some.inj (hRegister.symm.trans hTrue))).1, hDir⟩
      · rintro ⟨rfl, hDir⟩
        exact ⟨i, g, w', rfl, hDir, hRegister⟩
    rw [registerRecipe_out hRegister, hResult]
    split
    · rename_i hAccepted
      exact iff_of_false (by simp) fun h => h.2 hAccepted
    · rename_i hNot
      exact (and_iff_left hNot).symm
  | send => exact hOther (by simp) (send_out _ _ _)
  | recv hRecv =>
    obtain ⟨buffer, mem, rfl⟩ := recv_eq_some hRecv
    exact hOther (by simp) rfl
  | setVersion x => exact hOther (by simp) (by rw [setVersion_world]; rfl)
  | getUrVersion urver x => exact hOther (by simp) (by rw [getUrVersion_world]; rfl)
  | start x => exact hOther (by simp) (by rw [start_world]; rfl)
  | stop x => exact hOther (by simp) (by rw [stop_world]; rfl)
  | recipe => exact hOther (by simp) rfl
  | assign => exact hOther (by simp) rfl

theorem handlerStep_unique {w w' w'' : World} {c : HandlerCall} (h : HandlerStep w c w') (h' : HandlerStep w c w'') :
    w' = w'' := by
  cases h with
  | register hRegister =>
    cases h' with
    | register hAgain => exact (Prod.mk.inj (Option.some.inj (hRegister.symm.trans hAgain))).2
  | recv hRecv =>
    cases h' with
    | recv hAgain => exact (Prod.mk.inj (Option.some.inj (hRecv.symm.trans hAgain))).2
  | send | setVersion | getUrVersion | start | stop | recipe | assign =>
    cases h'
    rfl

/-- There is no output recipe exactly as long as none has been accepted. -/
theorem out_eq_none_iff {w w' : World} {calls : List HandlerCall} (hRun : Path HandlerStep w calls w') :
    w'.out = none ↔ w.out = none ∧ Path (Restrict (fun w c => ¬ w.AcceptsOutput c) HandlerStep) w calls w' := by
  induction hRun with
  | nil w => exact (and_iff_left (.nil w)).symm
  | @cons w u w' c rest head _ ih =>
    rw [ih, handlerStep_out head, and_assoc]
    apply and_congr_right
    intro _
    constructor
    · rintro ⟨hNot, hRest⟩
      exact .cons ⟨hNot, head⟩ hRest
    · intro hPath
      cases hPath with
      | cons first second =>
        obtain rfl := handlerStep_unique first.2 head
        exact ⟨first.1, second⟩

theorem parsesSafely_iff (w : World) (data : Buf) (rxTs : UInt64) :
    w.ParsesSafely data rxTs ↔ w.out ≠ none ∨ rtdeParseDataPackage data = false := by
  cases hHead : rtdeParseDataPackage data with
  | false =>
    apply iff_of_true _ (Or.inr rfl)
    exact ⟨false, (data, w.mem), by simp [parseIncomingData, hHead], fun _ => rfl⟩
  | true =>
    cases hOut : w.out with
    | none =>
      apply iff_of_false
      · rintro ⟨ok, parsed, hParse, -⟩
        simp [parseIncomingData, hHead, hOut] at hParse
      · simp
    | some i =>
      apply iff_of_true
      · obtain ⟨⟨ok, parsed⟩, hParse⟩ : ∃ result, w.parseIncomingData data rxTs = some result := by
          simp only [parseIncomingData, hHead, hOut]
          split
          · exact ⟨_, rfl⟩
          · split
            · exact ⟨_, rfl⟩
            · split
              · exact ⟨_, rfl⟩
              · exact ⟨_, rfl⟩
        exact ⟨ok, parsed, hParse, fun hNone => by simp [hOut] at hNone⟩
      · simp

theorem recvsSafely_iff (w : World) (reply : Option (List UInt8)) (ts : UInt64) :
    w.RecvsSafely reply ts ↔ w.out ≠ none ∨
      ∀ bytes, reply = some bytes → rtdeParseDataPackage (doRecv w.buffer packetBytes (some bytes)).2 = false := by
  cases reply with
  | none =>
    apply iff_of_true
    · exact ⟨false, _, rfl, fun _ => rfl⟩
    · exact Or.inr fun bytes hBytes => nomatch hBytes
  | some bytes =>
    have hParse := parsesSafely_iff w (doRecv w.buffer packetBytes (some bytes)).2 ts
    simp only [Option.some.injEq, forall_eq']
    rw [← hParse, RecvsSafely, ParsesSafely, recv_some]
    constructor
    · rintro ⟨ok, w', hRecv, hNone⟩
      obtain ⟨⟨ok', parsed⟩, hParsed, hSame⟩ := Option.map_eq_some_iff.mp hRecv
      obtain ⟨rfl, -⟩ := Prod.mk.inj hSame
      exact ⟨_, parsed, hParsed, hNone⟩
    · rintro ⟨ok, parsed, hParsed, hNone⟩
      exact ⟨ok, _, by rw [hParsed]; rfl, hNone⟩

end World

/-- In every state of every run: a frame does no harm exactly if an output recipe has been accepted before, or
the frame does not begin as a data package with a recipe id does. -/
theorem null_output_iff {mem : Memory} {buffer : Buf} {calls : List HandlerCall} {w : World}
    (hRun : Path HandlerStep (World.fresh mem buffer) calls w) :
    (∀ (data : Buf) (rxTs : UInt64), w.ParsesSafely data rxTs ↔
      ¬ Path (Restrict (fun w c => ¬ w.AcceptsOutput c) HandlerStep) (World.fresh mem buffer) calls w ∨
        ¬ (hdrRecipeId data ≠ 0 ∧ hdrType data = PackageType.dataPackage.code ∧ 4 ≤ hdrSize data)) ∧
    ∀ (reply : Option (List UInt8)) (ts : UInt64), w.RecvsSafely reply ts ↔
      ¬ Path (Restrict (fun w c => ¬ w.AcceptsOutput c) HandlerStep) (World.fresh mem buffer) calls w ∨
        ∀ bytes, reply = some bytes → rtdeParseDataPackage (doRecv w.buffer packetBytes (some bytes)).2 = false := by
  have hOut : w.out ≠ none ↔
      ¬ Path (Restrict (fun w c => ¬ w.AcceptsOutput c) HandlerStep) (World.fresh mem buffer) calls w :=
    not_congr ((World.out_eq_none_iff hRun).trans (and_iff_right rfl))
  constructor
  · intro data rxTs
    rw [World.parsesSafely_iff, hOut, ← rtdeParseDataPackage_iff, Bool.not_eq_true]
  · intro reply ts
    rw [World.recvsSafely_iff, hOut]

def earlyPackage : List UInt8 := [0, 4, 85, 1]

theorem null_output_iff_refused : (World.fresh ⟨fun _ => 0, []⟩ fun _ => 0).ParsesSafely (ofBytes [0, 4, 85, 0]) 0 := by
  apply ((null_output_iff (.nil (World.fresh ⟨fun _ => 0, []⟩ fun _ => 0))).1 (ofBytes [0, 4, 85, 0]) 0).mpr
  apply Or.inr
  decide

/-- A data package that arrives before anything has been registered. -/
theorem early_package_dereferences_null : ¬ ∀ (mem : Memory) (buffer : Buf) (calls : List HandlerCall) (w : World)
    (reply : Option (List UInt8)) (ts : UInt64), Path HandlerStep (World.fresh mem buffer) calls w →
    w.RecvsSafely reply ts := by
  intro h
  have hSafe := h ⟨fun _ => 0, []⟩ (fun _ => 0) [] _ (some earlyPackage) 0 (.nil _)
  cases (World.recvsSafely_iff _ _ _).mp hSafe with
  | inl hOut => exact hOut rfl
  | inr hRefused =>
    have hHead := hRefused earlyPackage rfl
    revert hHead
    decide

end LibUrx.Rtde
