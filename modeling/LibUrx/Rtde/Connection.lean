import LibUrx.Rtde.Packet

/-! # The connection

What the socket does is the environment's choice: a code for the bytes handed over, and for a read
either a failure or the bytes that arrive. A read never takes more than was asked for.
-/
namespace LibUrx.Rtde
open Bytes Text
set_option autoImplicit false

/-- One request and the answer to it, as the socket deals with them. -/
structure Exchange where
  sendCode : Int
  reply : Option (List UInt8)
  deriving DecidableEq, Repr

def doRecv (rbuf : Buf) (rsz : Nat) (reply : Option (List UInt8)) : Int × Buf :=
  match reply with
  | none => (-1, rbuf)
  | some bytes =>
    let read := bytes.take rsz
    let rbuf := patch rbuf 0 read
    (read.length, if read.length < rsz then patch rbuf read.length [0] else rbuf)

def doSendRecv (rbuf : Buf) (rsz : Nat) (x : Exchange) : Int × Buf :=
  if x.sendCode < 0 then (x.sendCode, rbuf) else doRecv rbuf rsz x.reply

theorem doRecv_some (rbuf : Buf) (rsz : Nat) (bytes : List UInt8) :
    (doRecv rbuf rsz (some bytes)).1 = (bytes.take rsz).length := rfl

/-- Up to its own terminator the buffer holds what the read has delivered. -/
theorem doRecv_known {rsz i : Nat} {bytes : List UInt8} (rbuf : Buf) (hLe : i ≤ (bytes.take rsz).length)
    (hLt : i < rsz) : (doRecv rbuf rsz (some bytes)).2 i = ofBytes (bytes.take rsz) i := by
  cases Nat.lt_or_eq_of_le hLe with
  | inl hRead =>
    have hPatch : patch rbuf 0 (bytes.take rsz) i = ofBytes (bytes.take rsz) i := by
      rw [ofBytes_of_lt hRead]
      simp [patch, List.getElem?_eq_getElem hRead]
    simp only [doRecv]
    split
    · rw [patch_outside (Or.inl hRead), hPatch]
    · exact hPatch
  | inr hEnd =>
    have hShort : (bytes.take rsz).length < rsz := hEnd ▸ hLt
    rw [ofBytes_of_le hEnd.ge, hEnd]
    simp only [doRecv, if_pos hShort]
    simp [patch]

theorem doRecv_byte_of_gt {rsz i : Nat} {bytes : List UInt8} (rbuf : Buf)
    (h : (bytes.take rsz).length < i) : (doRecv rbuf rsz (some bytes)).2 i = rbuf i := by
  have hPatch : patch rbuf 0 (bytes.take rsz) i = rbuf i := patch_outside (Or.inr (by omega))
  simp only [doRecv]
  split
  · rw [patch_outside (Or.inr (by simp only [List.length_singleton]; omega)), hPatch]
  · exact hPatch

theorem doRecv_beyond {rsz i : Nat} (bytes : List UInt8) (rbuf : Buf) (h : rsz ≤ i) :
    (doRecv rbuf rsz (some bytes)).2 i = rbuf i := by
  have hLength : (bytes.take rsz).length ≤ rsz := List.length_take_le rsz bytes
  have hPatch : patch rbuf 0 (bytes.take rsz) i = rbuf i := patch_outside (Or.inr (by omega))
  simp only [doRecv]
  split
  · rw [patch_outside (Or.inr (by simp only [List.length_singleton]; omega)), hPatch]
  · exact hPatch

end LibUrx.Rtde
