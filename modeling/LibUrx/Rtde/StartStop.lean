import LibUrx.Rtde.Handler

/-! # The answers to start and pause requests

Both requests are answered with four bytes: the size, the type of the request, and whether it is accepted.
-/
namespace LibUrx.Rtde
open Bytes Text
set_option autoImplicit false

namespace World

/-- The reply says that a request of this type has been accepted. -/
def Acknowledges (type : PackageType) (reply : List UInt8) : Prop :=
  hdrSize (ofBytes reply) = 4 ∧ hdrType (ofBytes reply) = type.code ∧ ofBytes reply 3 ≠ 0

instance (type : PackageType) (reply : List UInt8) : Decidable (Acknowledges type reply) :=
  inferInstanceAs (Decidable (_ ∧ _))

/-- Both calls check the answer in the same way. -/
def checked (w : World) (packet : Buf) (x : Exchange) : Bool × World :=
  let (code, w) := w.exchange packet 4 x
  if code < 0 then (false, w)
  else if !rtdeControlPackageSpRespValidate w.buffer true then (false, w)
  else (w.buffer 3 != 0, w)

theorem start_eq_checked (w : World) (x : Exchange) :
    w.start x = w.checked (rtdeControlPackage (fun _ => 0) true) x := rfl

theorem stop_eq_checked (w : World) (x : Exchange) :
    w.stop x = w.checked (rtdeControlPackage (fun _ => 0) false) x := rfl

variable {reply : List UInt8} {sendCode : Int}

/-- A reply of four bytes stands in the buffer as it was sent. -/
theorem exchange_reply (w : World) (packet : Buf) (hLength : reply.length = 4) (hSent : 0 ≤ sendCode) :
    (w.exchange packet 4 ⟨sendCode, some reply⟩).1 = 4 ∧
      ∀ i < 4, (w.exchange packet 4 ⟨sendCode, some reply⟩).2.buffer i = ofBytes reply i := by
  have hTake : reply.take 4 = reply := List.take_of_length_le hLength.le
  have hKnown {i : Nat} (hLt : i < 4) : (doRecv w.buffer 4 (some reply)).2 i = ofBytes (reply.take 4) i :=
    doRecv_known w.buffer (by rw [hTake]; omega) hLt
  have hExchange : doSendRecv w.buffer 4 ⟨sendCode, some reply⟩ = doRecv w.buffer 4 (some reply) :=
    if_neg (by dsimp only; omega)
  simp only [exchange, hExchange]
  constructor
  · rw [doRecv_some, hTake, hLength]
    rfl
  · intro i hLt
    rw [hKnown hLt, hTake]

theorem checked_iff (w : World) (packet : Buf) (hLength : reply.length = 4) (hSent : 0 ≤ sendCode) :
    (w.checked packet ⟨sendCode, some reply⟩).1 = true ↔ Acknowledges .start reply := by
  obtain ⟨hCode, hBuffer⟩ := w.exchange_reply packet hLength hSent
  have hSize := hdrSize_congr (hBuffer 0 (by decide)) (hBuffer 1 (by decide))
  have hValid : rtdeControlPackageSpRespValidate (w.exchange packet 4 ⟨sendCode, some reply⟩).2.buffer true = true ↔
      hdrSize (ofBytes reply) = 4 ∧ hdrType (ofBytes reply) = PackageType.start.code := by
    rw [rtdeControlPackageSpRespValidate, hSize, hdrType, hBuffer 2 (by decide), Bool.and_eq_true, beq_iff_eq,
      beq_iff_eq]
    rfl
  rw [checked, Acknowledges, ← and_assoc, ← hValid]
  simp only [hCode, hBuffer 3 (by decide)]
  cases rtdeControlPackageSpRespValidate (w.exchange packet 4 ⟨sendCode, some reply⟩).2.buffer true with
  | true => simp
  | false => simp

theorem start_acknowledged_iff (w : World) (hLength : reply.length = 4) (hSent : 0 ≤ sendCode) :
    (w.start ⟨sendCode, some reply⟩).1 = true ↔ Acknowledges .start reply := by
  rw [start_eq_checked]
  exact w.checked_iff _ hLength hSent

theorem stop_acknowledged_iff (w : World) (hLength : reply.length = 4) (hSent : 0 ≤ sendCode) :
    (w.stop ⟨sendCode, some reply⟩).1 = true ↔ Acknowledges .start reply := by
  rw [stop_eq_checked]
  exact w.checked_iff _ hLength hSent

theorem Acknowledges.type_unique {type type' : PackageType} (h : Acknowledges type reply)
    (h' : Acknowledges type' reply) : type.code = type'.code := h.2.1.symm.trans h'.2.1

/-- A start is acknowledged as it should be. A stop is as long as the reply acknowledges neither of the two. -/
theorem acknowledgements_iff (w : World) (hLength : reply.length = 4) (hSent : 0 ≤ sendCode) :
    ((w.start ⟨sendCode, some reply⟩).1 = true ↔ Acknowledges .start reply) ∧
      (((w.stop ⟨sendCode, some reply⟩).1 = true ↔ Acknowledges .pause reply) ↔
        ¬ (Acknowledges .start reply ∨ Acknowledges .pause reply)) := by
  refine ⟨w.start_acknowledged_iff hLength hSent, ?_⟩
  rw [w.stop_acknowledged_iff hLength hSent, not_or]
  constructor
  · intro hSame
    have hNot : ¬ Acknowledges .start reply := by
      intro hStart
      exact absurd (hStart.type_unique (hSame.mp hStart)) (by decide)
    exact ⟨hNot, mt hSame.mpr hNot⟩
  · rintro ⟨hStart, hPause⟩
    exact iff_of_false hStart hPause

theorem acknowledgements_iff_refused :
    ((World.fresh ⟨fun _ => 0, []⟩ fun _ => 0).stop ⟨1, some [0, 4, 80, 0]⟩).1 = true ↔ Acknowledges .pause [0, 4, 80, 0] := by
  have hLength : [(0 : UInt8), 4, 80, 0].length = 4 := rfl
  apply ((World.fresh ⟨fun _ => 0, []⟩ fun _ => 0).acknowledgements_iff hLength Int.one_pos.le).2.mpr
  decide

/-- A pause that has been acknowledged is not taken for one. -/
theorem pause_is_not_acknowledged : ¬ ∀ (w : World) (sendCode : Int) (reply : List UInt8), reply.length = 4 →
    0 ≤ sendCode → ((w.stop ⟨sendCode, some reply⟩).1 = true ↔ Acknowledges .pause reply) := by
  intro h
  have hSame := h (World.fresh ⟨fun _ => 0, []⟩ fun _ => 0) 1 [0, 4, 80, 1] rfl (by decide)
  rw [stop_acknowledged_iff _ rfl (by decide)] at hSame
  revert hSame
  decide

end World

end LibUrx.Rtde
