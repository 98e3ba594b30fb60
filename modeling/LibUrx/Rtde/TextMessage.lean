import LibUrx.Rtde.Requests

/-! # Text messages

A text message holds two strings, each behind a byte with its length, and a byte that says how severe it is.
-/
namespace LibUrx.Text
set_option autoImplicit false

/-- A string behind its length, as far as a byte holds the length. -/
def counted (s : List UInt8) : List UInt8 := UInt8.ofNat s.length :: s

/-- The string that starts a text, and what follows it. -/
def takeCounted : List UInt8 → Option (List UInt8 × List UInt8)
  | [] => none
  | n :: rest => if n.toNat ≤ rest.length then some (rest.take n.toNat, rest.drop n.toNat) else none

theorem length_counted (s : List UInt8) : (counted s).length = s.length + 1 := List.length_cons

theorem takeCounted_append {s : List UInt8} (h : s.length ≤ 0xff) (rest : List UInt8) :
    takeCounted (counted s ++ rest) = some (s, rest) := by
  have hLength : (UInt8.ofNat s.length).toNat = s.length := UInt8.toNat_ofNat_of_lt (show s.length < 256 by omega)
  rw [counted, List.cons_append, takeCounted, hLength, if_pos (by simp), List.take_left, List.drop_left]

end LibUrx.Text

namespace LibUrx.Rtde
open Bytes Text
set_option autoImplicit false

inductive MessageType where
  | exception | error | warning | info

def MessageType.code : MessageType → UInt8
  | .exception => 0
  | .error => 1
  | .warning => 2
  | .info => 3

namespace Stores

/-- The strings are given by an address and a number of bytes. -/
def rtdeMkreqMsgOut (rtde : Memory) (msg : Buf) (msgsz : Nat) (src : Buf) (srcsz : Nat) : Bool × Memory :=
  if msgsz > 0xff ∨ srcsz > 0xff then (false, rtde) else
  let size := 3 + msgsz + srcsz + 3
  let rtde := putType rtde .textMessage
  let rtde := putSize rtde size
  let rtde := rtde.write 3 [UInt8.ofNat msgsz]
  let dst := 4
  let rtde := rtde.writeAll (blocks dst ((slice msg 0 msgsz).map fun c => [c]))
  let rtde := rtde.write (dst + msgsz) [UInt8.ofNat srcsz]
  let rtde := rtde.writeAll (blocks (dst + msgsz + 1) ((slice src 0 srcsz).map fun c => [c]))
  let rtde := rtde.write (dst + msgsz + 1 + srcsz) [MessageType.exception.code]
  (true, rtde)

end Stores

/-- What a message says, as its reader sees it. -/
structure TextMessage where
  message : List UInt8
  source : List UInt8
  level : UInt8

/-- The message that starts a text, and what follows it. -/
def readTextMessage (body : List UInt8) : Option (TextMessage × List UInt8) :=
  match takeCounted body with
  | none => none
  | some (message, rest) =>
    match takeCounted rest with
    | some (source, level :: rest) => some (⟨message, source, level⟩, rest)
    | _ => none

/-- The bytes of a message behind the header. -/
def messageBody (t : TextMessage) : List UInt8 := counted t.message ++ (counted t.source ++ [t.level])

theorem length_messageBody (t : TextMessage) : (messageBody t).length = t.message.length + t.source.length + 3 := by
  simp only [messageBody, List.length_append, length_counted, List.length_singleton]
  omega

theorem readTextMessage_messageBody {t : TextMessage} (hMessage : t.message.length ≤ 0xff)
    (hSource : t.source.length ≤ 0xff) : readTextMessage (messageBody t) = some (t, []) := by
  rw [readTextMessage, messageBody, takeCounted_append hMessage]
  dsimp only
  rw [takeCounted_append hSource]

/-- A packet that holds a message: it counts the bytes that have been assigned, and these say the message and
nothing else. -/
structure Says (t : TextMessage) (packet : Memory) : Prop where
  type : hdrType packet.byte = PackageType.textMessage.code
  inside : hdrSize packet.byte ≤ packetBytes
  written : ∀ i, packet.written i = true ↔ i < hdrSize packet.byte
  read : readTextMessage (slice packet.byte 3 (hdrSize packet.byte - 3)) = some (t, [])

namespace Stores

variable {msg src : Buf} {msgsz srcsz : Nat}

/-- The offsets of the two loops follow each other. -/
theorem byte_mkreqMsgOut (rtde : Memory) (hMsg : msgsz ≤ 0xff) (hSrc : srcsz ≤ 0xff) :
    (rtdeMkreqMsgOut rtde msg msgsz src srcsz).2.byte =
      patch (Rtde.putSize (Rtde.putType rtde.byte .textMessage) (3 + msgsz + srcsz + 3)) 3
        (messageBody ⟨slice msg 0 msgsz, slice src 0 srcsz, MessageType.exception.code⟩) := by
  have hBody : messageBody ⟨slice msg 0 msgsz, slice src 0 srcsz, MessageType.exception.code⟩ =
      [UInt8.ofNat msgsz] ++ slice msg 0 msgsz ++ [UInt8.ofNat srcsz] ++ slice src 0 srcsz ++
        [MessageType.exception.code] := by
    simp [messageBody, counted]
  rw [rtdeMkreqMsgOut, if_neg (by omega), hBody]
  simp only [Memory.byte_write, Memory.byte_writeAll_blocks, flatten_bytes]
  rw [← patch_append, ← patch_append, ← patch_append, ← patch_append]
  simp only [List.length_append, List.length_singleton, length_slice, ← Nat.add_assoc]
  rfl

theorem written_mkreqMsgOut (rtde : Memory) (hMsg : msgsz ≤ 0xff) (hSrc : srcsz ≤ 0xff) (i : Nat) :
    (rtdeMkreqMsgOut rtde msg msgsz src srcsz).2.written i = true ↔
      i < 3 + msgsz + srcsz + 3 ∨ rtde.written i = true := by
  rw [rtdeMkreqMsgOut, if_neg (by omega)]
  simp only [putSize, putType, Memory.written_write, Memory.written_writeAll_blocks, flatten_bytes, List.length_singleton,
    length_leBytes, length_slice, ← or_assoc]
  apply or_congr_left
  omega

theorem says_mkreqMsgOut (rtde : Buf) (hMsg : msgsz ≤ 0xff) (hSrc : srcsz ≤ 0xff) :
    Says ⟨slice msg 0 msgsz, slice src 0 srcsz, MessageType.exception.code⟩
      (rtdeMkreqMsgOut ⟨rtde, []⟩ msg msgsz src srcsz).2 := by
  have hByte : (rtdeMkreqMsgOut ⟨rtde, []⟩ msg msgsz src srcsz).2.byte = _ := byte_mkreqMsgOut ⟨rtde, []⟩ hMsg hSrc
  have hSize : hdrSize (rtdeMkreqMsgOut ⟨rtde, []⟩ msg msgsz src srcsz).2.byte = 3 + msgsz + srcsz + 3 := by
    rw [hByte, hdrSize_patch _ _ (by omega), hdrSize_putSize, Nat.mod_eq_of_lt (by omega)]
  constructor
  · rw [hByte, hdrType, patch_outside (Or.inl (by omega)), putSize_of_le _ _ le_rfl]
    rfl
  · have hPacket : packetBytes = 2048 := rfl
    omega
  · intro i
    rw [hSize, written_mkreqMsgOut _ hMsg hSrc, or_iff_left (Memory.not_written_new rtde i)]
  · have hLength := length_messageBody ⟨slice msg 0 msgsz, slice src 0 srcsz, MessageType.exception.code⟩
    simp only [length_slice] at hLength
    have hRest : 3 + msgsz + srcsz + 3 - 3 = msgsz + srcsz + 3 := by omega
    rw [hSize, hByte, hRest, ← hLength, slice_patch_self]
    apply readTextMessage_messageBody
    · rwa [length_slice]
    · rwa [length_slice]

/-- Strings of up to 255 bytes are sent as they are, others are refused. -/
theorem mkreqMsgOut_faithful (rtde msg src : Buf) (msgsz srcsz : Nat) :
    if msgsz ≤ 0xff ∧ srcsz ≤ 0xff then
      (rtdeMkreqMsgOut ⟨rtde, []⟩ msg msgsz src srcsz).1 = true ∧
        Says ⟨slice msg 0 msgsz, slice src 0 srcsz, MessageType.exception.code⟩
          (rtdeMkreqMsgOut ⟨rtde, []⟩ msg msgsz src srcsz).2
    else rtdeMkreqMsgOut ⟨rtde, []⟩ msg msgsz src srcsz = (false, ⟨rtde, []⟩) := by
  split
  · rename_i hShort
    refine ⟨?_, says_mkreqMsgOut rtde hShort.1 hShort.2⟩
    rw [rtdeMkreqMsgOut, if_neg (by omega)]
  · rename_i hLong
    rw [rtdeMkreqMsgOut, if_pos (by omega)]

end Stores

end LibUrx.Rtde
