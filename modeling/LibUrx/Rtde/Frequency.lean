import LibUrx.Base.Runs
import LibUrx.Rtde.Requests

/-! # The update frequency of a request

The frequency is put into the packet when the packet is made. Setting a list of names clears the head of the
packet first, and the frequency is in the head.
-/
namespace LibUrx.Rtde
open Bytes Text Runs
set_option autoImplicit false

def updateFreq (cpo : Buf) : UInt64 := UInt64.ofNat (leNat (slice cpo 3 8))

/-- A number from 1 to 125. -/
def Documented (freq : UInt64) : Prop :=
  (freq = one ∨ doubleLt one freq = true) ∧ (freq = oneHundredTwentyFive ∨ doubleLt freq oneHundredTwentyFive = true)

instance (freq : UInt64) : Decidable (Documented freq) := inferInstanceAs (Decidable (_ ∧ _))

/-- The lists of names that are set on a packet, one after the other. -/
def setPayloads (cpo : Buf) (payloads : List (List UInt8)) : Buf :=
  payloads.foldl (fun cpo payload => (rtdeControlMsgOut cpo payload).2) cpo

/-- More names than the block of a request has place for. -/
def TooLong (payload : List UInt8) : Prop := packetBytes - headBytes true < (cStr payload).length

theorem rtdeControlMsgGet_eq_some {freq : UInt64} {cpo : Buf} (h : rtdeControlMsgGet freq = some cpo) :
    doubleLt freq one = false ∧ updateFreq cpo = freq := by
  unfold rtdeControlMsgGet at h
  split at h
  · cases h
  · rename_i hRange
    obtain rfl := Option.some.inj h
    constructor
    · by_contra hLow
      simp [Bool.eq_true_of_not_eq_false hLow] at hRange
    · have hRead := slice_patch_self (putSize (rtdeHdrGet .setupOutputs) 11) 3 (leBytes 8 freq.toNat)
      rw [length_leBytes] at hRead
      rw [updateFreq, hRead, leNat_leBytes_of_lt freq.toNat_lt, UInt64.ofNat_toNat]

theorem rtdeControlMsgGet_oneHundredTwentyFive : ∃ cpo, rtdeControlMsgGet oneHundredTwentyFive = some cpo :=
  Option.isSome_iff_exists.mp (by decide)

theorem rtdeControlMsgOut_of_tooLong {payload : List UInt8} (h : TooLong payload) (cpo : Buf) :
    rtdeControlMsgOut cpo payload = (false, cpo) := if_pos h

/-- Names that fit take the frequency with them. -/
theorem updateFreq_of_fits {payload : List UInt8} (h : ¬ TooLong payload) (cpo : Buf) :
    updateFreq (rtdeControlMsgOut cpo payload).2 = 0 := by
  have hMsg : rtdeControlMsgOut cpo payload = _ := (rtdeControlMsg_eq true cpo payload).trans (if_neg h)
  have hHead : headBytes true = 11 := rfl
  have hText : slice (copied true cpo payload) 3 8 = slice (rtdeControlMsgClear cpo true) 3 8 := by
    rw [copied, slice_patch_of_disjoint (Or.inl (by omega)), slice_patch_of_disjoint (Or.inl (by omega))]
  have hZero : slice (rtdeControlMsgClear cpo true) 3 8 = leBytes 8 0 := by
    rw [rtdeControlMsgClear, if_pos rfl, slice_patch_of_disjoint (Or.inl (by decide))]
    exact slice_patch_self (putSize (putType cpo .setupOutputs) 11) 3 (leBytes 8 0)
  rw [hMsg, updateFreq, putSize, slice_patch_of_disjoint (Or.inr (by rw [length_leBytes]; omega)), hText, hZero]
  rfl

theorem setPayloads_of_tooLong {payloads : List (List UInt8)} (h : ∀ payload ∈ payloads, TooLong payload) (cpo : Buf) :
    setPayloads cpo payloads = cpo := by
  induction payloads with
  | nil => rfl
  | cons payload rest ih =>
    rw [setPayloads, List.foldl_cons, rtdeControlMsgOut_of_tooLong (h payload List.mem_cons_self)]
    exact ih (List.forall_mem_of_forall_mem_cons h)

theorem updateFreq_setPayloads_iff {freq : UInt64} {cpo : Buf} (h : rtdeControlMsgGet freq = some cpo)
    (payloads : List (List UInt8)) :
    (∀ before, before <+: payloads → updateFreq (setPayloads cpo before) = freq) ↔
      ∀ payload ∈ payloads, TooLong payload := by
  obtain ⟨hLow, hFreq⟩ := rtdeControlMsgGet_eq_some h
  constructor
  · intro hKept payload hMem
    obtain ⟨before, after, rfl⟩ := List.append_of_mem hMem
    by_contra hFits
    have hLost := hKept (before ++ [payload]) ⟨after, by simp⟩
    rw [setPayloads, List.foldl_concat, updateFreq_of_fits hFits] at hLost
    rw [← hLost] at hLow
    revert hLow
    decide
  · intro hLong before hPrefix
    rw [setPayloads_of_tooLong fun payload hMem => hLong payload (hPrefix.subset hMem)]
    exact hFreq

/-- A recipe is changed by a call, or asked for its request. -/
inductive RecipeUse where
  | change (c : RecipeCall)
  | ask

namespace RtdeRecipe

inductive UseStep : RtdeRecipe × Memory → RecipeUse → RtdeRecipe × Memory → Prop where
  | change (s : RtdeRecipe × Memory) (c : RecipeCall) : UseStep s (.change c) (call s c)
  | ask {r r' : RtdeRecipe} {packet : Buf} (m : Memory) (msg : r.getMsg = some (packet, r')) :
      UseStep (r, m) .ask (r', m)

/-- The request of the recipe still has the frequency that it was made with. -/
def HasFrequency (s : RtdeRecipe × Memory) : Prop := updateFreq s.1.cpo = oneHundredTwentyFive

/-- A request for outputs, if this is one, carries a documented frequency. -/
def AsksDocumented (s : RtdeRecipe × Memory) (u : RecipeUse) : Prop :=
  u = .ask → s.1.dirOut = true → ∀ packet r', s.1.getMsg = some (packet, r') → Documented (updateFreq packet)

/-- A request for outputs, if this is one, has too many names to be built. -/
def AsksTooMuch (s : RtdeRecipe × Memory) (u : RecipeUse) : Prop :=
  u = .ask → s.1.dirOut = true → TooLong s.1.fieldNames

theorem Called.cpo_eq {r r' : RtdeRecipe} {c : RecipeCall} (h : r.Called c r') : r'.cpo = r.cpo := by
  cases h with
  | same | turned | cleared | tracked | answered => rfl
  | added hAdd =>
    obtain ⟨tok, -, -, -, -, -, hSame⟩ := addField_eq_true hAdd
    rw [hSame]

theorem fields_ne_nil_of_getMsg {r r' : RtdeRecipe} {packet : Buf} (h : r.getMsg = some (packet, r')) :
    r.fields ≠ [] := by
  intro hFields
  simp [getMsg, getFields, hFields] at h

theorem getMsg_output {r r' : RtdeRecipe} {packet : Buf} (hDir : r.dirOut = true) (h : r.getMsg = some (packet, r')) :
    packet = (rtdeControlMsgOut r.cpo r.fieldNames).2 ∧ r'.cpo = packet := by
  rw [getMsg, getFields_eq (fields_ne_nil_of_getMsg h), Option.map_some, if_pos hDir] at h
  obtain ⟨rfl, rfl⟩ := Prod.mk.inj (Option.some.inj h)
  exact ⟨rfl, rfl⟩

theorem getMsg_input {r r' : RtdeRecipe} {packet : Buf} (hDir : r.dirOut = false) (h : r.getMsg = some (packet, r')) :
    r'.cpo = r.cpo := by
  rw [getMsg, getFields_eq (fields_ne_nil_of_getMsg h), Option.map_some, if_neg (by simp [hDir])] at h
  obtain ⟨-, rfl⟩ := Prod.mk.inj (Option.some.inj h)
  rfl

/-- As long as the packet has its frequency, a request carries it exactly if its names do not fit. -/
theorem asks_iff {s t : RtdeRecipe × Memory} {u : RecipeUse} (hFreq : HasFrequency s)
    (hStep : UseStep s u t) : (AsksDocumented s u ↔ AsksTooMuch s u) ∧ (AsksTooMuch s u → HasFrequency t) := by
  unfold HasFrequency at hFreq ⊢
  cases hStep with
  | change _ c =>
    refine ⟨iff_of_true ?_ ?_, fun _ => by rw [(called_call s c).cpo_eq, hFreq]⟩
    · exact fun hAsk => nomatch hAsk
    · exact fun hAsk => nomatch hAsk
  | @ask r r' packet m msg =>
    cases hDir : r.dirOut with
    | false =>
      refine ⟨iff_of_true ?_ ?_, fun _ => by rw [getMsg_input hDir msg, hFreq]⟩
      · exact fun _ hOut => absurd (hDir.symm.trans hOut) Bool.false_ne_true
      · exact fun _ hOut => absurd (hDir.symm.trans hOut) Bool.false_ne_true
    | true =>
      obtain ⟨hPacket, hNext⟩ := getMsg_output hDir msg
      by_cases hLong : TooLong r.fieldNames
      · rw [rtdeControlMsgOut_of_tooLong hLong] at hPacket
        have hSame : packet = r.cpo := hPacket
        refine ⟨iff_of_true (fun _ _ packet' r'' hMsg => ?_) (fun _ _ => hLong), fun _ => by rw [hNext, hSame, hFreq]⟩
        obtain ⟨rfl, -⟩ := Prod.mk.inj (Option.some.inj (msg.symm.trans hMsg))
        rw [hSame, hFreq]
        decide
      · have hLost : updateFreq packet = 0 := hPacket ▸ updateFreq_of_fits hLong r.cpo
        refine ⟨iff_of_false (fun hDocumented => ?_) (fun hTooMuch => hLong (hTooMuch rfl hDir)), fun hTooMuch =>
          absurd (hTooMuch rfl hDir) hLong⟩
        have hZero := hDocumented rfl hDir packet r' msg
        rw [hLost] at hZero
        revert hZero
        decide

theorem documented_run_iff {s t : RtdeRecipe × Memory} (h : HasFrequency s) (uses : List RecipeUse) :
    Path (Restrict AsksDocumented UseStep) s uses t ↔ Path (Restrict AsksTooMuch UseStep) s uses t := by
  apply Path.restrict_iff _ h
  intro s a t hFreq hStep
  exact asks_iff hFreq hStep

theorem updateFreq_init : updateFreq init.cpo = oneHundredTwentyFive := by
  obtain ⟨cpo, hGet⟩ := rtdeControlMsgGet_oneHundredTwentyFive
  have hCpo : init.cpo = cpo := congrArg (fun c : Option Buf => c.getD fun _ => 0) hGet
  exact hCpo ▸ (rtdeControlMsgGet_eq_some hGet).2

end RtdeRecipe

/-- A frequency survives exactly the calls that set nothing, on any packet that was made for one. In the same way
a recipe sends documented frequencies exactly as long as its names do not fit into a request. -/
theorem frequency_kept_iff {freq : UInt64} {cpo : Buf} (h : rtdeControlMsgGet freq = some cpo) :
    (∀ payloads : List (List UInt8), (∀ before, before <+: payloads → updateFreq (setPayloads cpo before) = freq) ↔
      ∀ payload ∈ payloads, 2037 < (cStr payload).length) ∧
    ∀ (m : Memory) (uses : List RecipeUse) (s : RtdeRecipe × Memory),
      Path (Restrict RtdeRecipe.AsksDocumented RtdeRecipe.UseStep) (RtdeRecipe.init, m) uses s ↔
        Path (Restrict RtdeRecipe.AsksTooMuch RtdeRecipe.UseStep) (RtdeRecipe.init, m) uses s :=
  ⟨updateFreq_setPayloads_iff h, fun m uses _ =>
    RtdeRecipe.documented_run_iff (s := (RtdeRecipe.init, m)) RtdeRecipe.updateFreq_init uses⟩

theorem length_cStr_replicate {c : UInt8} (h : c ≠ 0) (n : Nat) : (cStr (List.replicate n c)).length = n := by
  rw [cStr_eq_self_iff.mpr fun hZero => h (List.eq_of_mem_replicate hZero).symm, List.length_replicate]

theorem frequency_kept_iff_none : ∃ cpo, rtdeControlMsgGet oneHundredTwentyFive = some cpo ∧
    updateFreq (setPayloads cpo [List.replicate 2038 97, List.replicate 3000 98]) = oneHundredTwentyFive := by
  obtain ⟨cpo, hGet⟩ := rtdeControlMsgGet_oneHundredTwentyFive
  refine ⟨cpo, hGet, ((frequency_kept_iff hGet).1 _).mpr ?_ _ List.prefix_rfl⟩
  rw [List.forall_mem_cons, List.forall_mem_singleton, length_cStr_replicate (by decide),
    length_cStr_replicate (by decide)]
  exact ⟨by omega, by omega⟩

/-- A single short list of names loses the frequency. -/
theorem names_lose_the_frequency : ¬ ∀ (freq : UInt64) (cpo : Buf), rtdeControlMsgGet freq = some cpo →
    ∀ payloads before : List (List UInt8), before <+: payloads → updateFreq (setPayloads cpo before) = freq := by
  intro h
  obtain ⟨cpo, hGet⟩ := rtdeControlMsgGet_oneHundredTwentyFive
  have hKept := h _ cpo hGet [text "timestamp"] _ List.prefix_rfl
  have hLost : updateFreq (setPayloads cpo [text "timestamp"]) = 0 :=
    updateFreq_of_fits (by unfold TooLong; decide) cpo
  rw [hLost] at hKept
  revert hKept
  decide

end LibUrx.Rtde
