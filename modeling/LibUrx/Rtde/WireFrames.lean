import LibUrx.Base.Framing
import LibUrx.Rtde.Frames
import LibUrx.Rtde.HandlerRun
import LibUrx.Rtde.Requests
import LibUrx.Rtde.TextMessage

/-! # What a handler hands to the connection

Everything that a handler sends is a frame that begins with its size in two bytes.
-/
namespace LibUrx.Rtde
open Bytes Text Framing
set_option autoImplicit false

def wireFormat : Format UInt8 where
  size s := if 2 ≤ s.length then some (beNat (s.take 2)) else none
  stable s t n h := by
    split at h
    · rename_i hTwo
      rw [if_pos (by rw [List.length_append]; omega), List.take_append_of_le_length hTwo, h]
    · cases h

/-- Nothing at all, or a frame. -/
def Sendable (frame : List UInt8) : Prop := frame = [] ∨ wireFormat.Whole frame

theorem whole_frameOf {packet : Buf} (h : 2 ≤ hdrSize packet) : wireFormat.Whole (frameOf packet) := by
  have hLength : (frameOf packet).length = hdrSize packet := length_slice _ _ _
  refine ⟨List.ne_nil_of_length_pos (by omega), ?_⟩
  have hTwo : (frameOf packet).take 2 = slice packet 0 2 := by
    obtain ⟨n, hN⟩ := Nat.exists_eq_add_of_le h
    rw [frameOf, hN, slice_add, List.take_left' (length_slice _ _ _)]
  have hSwap := swap_leNat (slice packet 0 2)
  rw [length_slice] at hSwap
  change (if 2 ≤ (frameOf packet).length then some (beNat ((frameOf packet).take 2)) else none) = _
  rw [hLength, if_pos h, hTwo, ← hSwap]
  rfl

theorem sendable_frameOf {packet : Buf} (h : hdrSize packet = 0 ∨ 2 ≤ hdrSize packet) : Sendable (frameOf packet) := by
  rcases h with hZero | hTwo
  · exact Or.inl (List.eq_nil_of_length_eq_zero ((length_slice _ _ _).trans hZero))
  · exact Or.inr (whole_frameOf hTwo)

/-- `send_emerg_msg` as far as its packet. Both strings go out with their zero byte. -/
def sendEmergMsg (msg : List UInt8) : Option (List UInt8) :=
  let msg := cStr msg ++ [0]
  let src := text "the World" ++ [0]
  match Stores.rtdeMkreqMsgOut ⟨rtdeHdrGet .textMessage, []⟩ (ofBytes msg) msg.length (ofBytes src) src.length with
  | (false, _) => none
  | (true, rtde) => some (frameOf rtde.byte)

theorem whole_sendEmergMsg {msg frame : List UInt8} (h : sendEmergMsg msg = some frame) : wireFormat.Whole frame := by
  have hFaithful := Stores.mkreqMsgOut_faithful (rtdeHdrGet .textMessage) (ofBytes (cStr msg ++ [0]))
    (ofBytes (text "the World" ++ [0])) (cStr msg ++ [0]).length (text "the World" ++ [0]).length
  unfold sendEmergMsg at h
  dsimp only at h
  split at h
  · cases h
  · rename_i rtde hMade
    obtain rfl := Option.some.inj h
    split at hFaithful
    · apply whole_frameOf
      have hRead := hFaithful.2.read
      rw [hMade] at hRead
      by_contra hShort
      have hNone : hdrSize rtde.byte - 3 = 0 := by omega
      rw [hNone] at hRead
      cases hRead
    · rw [hMade] at hFaithful
      cases (Prod.mk.inj hFaithful).1

/-- The blocks of a recipe as its calls leave them, and room for its values. -/
structure RtdeRecipe.Framed (r : RtdeRecipe) : Prop where
  cpo : 2 ≤ hdrSize r.cpo
  cpi : 2 ≤ hdrSize r.cpi
  dp : hdrSize r.dp = 0 ∨ 2 ≤ hdrSize r.dp
  room : 4 + r.bytes ≤ packetBytes

namespace RtdeRecipe

theorem Framed.called {r r' : RtdeRecipe} {c : RecipeCall} (h : r.Framed) (hCalled : r.Called c r')
    (hRoom : 4 + r'.bytes ≤ packetBytes) : r'.Framed := by
  cases hCalled with
  | same | turned | cleared | tracked | answered => exact ⟨h.cpo, h.cpi, h.dp, hRoom⟩
  | added hAdd =>
    obtain ⟨tok, -, -, -, -, -, rfl⟩ := addField_eq_true hAdd
    exact ⟨h.cpo, h.cpi, h.dp, hRoom⟩

theorem two_le_hdrSize_controlMsg {hdr : Buf} (h : 2 ≤ hdrSize hdr) (dirOut : Bool) (names : List UInt8) :
    2 ≤ hdrSize (rtdeControlMsg dirOut hdr names).2 := by
  cases Nat.lt_or_ge (packetBytes - headBytes dirOut) (cStr names).length with
  | inl hGt => rwa [rtdeControlMsg_eq, if_pos hGt]
  | inr hLe =>
    obtain ⟨packet, hMsg, -, -, hSize⟩ := rtdeControlMsg_of_le dirOut hdr names hLe
    have hHead := (headBytes_bounds dirOut).1
    rw [hMsg, hSize]
    omega

theorem Framed.getMsg {r r' : RtdeRecipe} {packet : Buf} (h : r.Framed) (hMsg : r.getMsg = some (packet, r')) :
    wireFormat.Whole (frameOf packet) ∧ r'.Framed := by
  obtain ⟨names, -, hMade⟩ := Option.map_eq_some_iff.mp hMsg
  have hOut := two_le_hdrSize_controlMsg h.cpo true names
  have hIn := two_le_hdrSize_controlMsg h.cpi false names
  split at hMade
  · obtain ⟨rfl, rfl⟩ := Prod.mk.inj hMade
    exact ⟨whole_frameOf hOut, hOut, h.cpi, h.dp, h.room⟩
  · obtain ⟨rfl, rfl⟩ := Prod.mk.inj hMade
    exact ⟨whole_frameOf hIn, h.cpo, hIn, h.dp, h.room⟩

theorem Framed.store {r : RtdeRecipe} (h : r.Framed) (m : Memory) :
    hdrSize (r.store r.dp m).2 = 0 ∨ 2 ≤ hdrSize (r.store r.dp m).2 := by
  have hPacket : packetBytes = 2048 := rfl
  have hRoom := h.room
  cases hDir : r.dirOut with
  | true =>
    rw [RtdeRecipe.store, if_pos hDir]
    exact h.dp
  | false =>
    obtain ⟨-, -, hSize⟩ := store_header hDir r.dp m
    rw [hSize, expectedBytes, Nat.mod_eq_of_lt (by omega)]
    exact Or.inr (by omega)

end RtdeRecipe

namespace World

def Framed (w : World) : Prop := ∀ i, (w.recipes i).Framed

def sentIn (w w' : World) : List (List UInt8) := w'.wire.drop w.wire.length

/-- What has been sent on the way from `w`, and the blocks now. -/
structure Sends (w w' : World) : Prop where
  framed : w'.Framed
  wire : w.wire <+: w'.wire
  sendable : ∀ frame ∈ w.sentIn w', Sendable frame

theorem Framed.setRecipe {w : World} (h : w.Framed) (i : Nat) {r : RtdeRecipe} (hFramed : r.Framed) :
    (w.setRecipe i r).Framed := by
  intro j
  rcases eq_or_ne j i with rfl | hNe
  · rw [setRecipe_self]
    exact hFramed
  · rw [setRecipe_of_ne hNe]
    exact h j

theorem sends_of_wire {w w' : World} (frames : List (List UInt8)) (hFramed : w'.Framed)
    (hWire : w'.wire = w.wire ++ frames) (h : ∀ frame ∈ frames, Sendable frame) : Sends w w' := by
  refine ⟨hFramed, ⟨frames, hWire.symm⟩, ?_⟩
  rwa [sentIn, hWire, List.drop_left]

theorem Framed.sends_nothing {w w' : World} (h : w'.Framed) (hWire : w'.wire = w.wire) : Sends w w' :=
  sends_of_wire [] h (hWire.trans (List.append_nil _).symm) (List.forall_mem_nil _)

theorem Sends.trans {w w' w'' : World} (h : Sends w w') (h' : Sends w' w'') : Sends w w'' := by
  obtain ⟨frames, hWire⟩ := h.wire
  obtain ⟨frames', hWire'⟩ := h'.wire
  have hFirst := h.sendable
  have hSecond := h'.sendable
  rw [sentIn, ← hWire, List.drop_left] at hFirst
  rw [sentIn, ← hWire', List.drop_left] at hSecond
  refine sends_of_wire (frames ++ frames') h'.framed ?_ ?_
  · rw [← hWire', ← hWire, List.append_assoc]
  · intro frame hMem
    rcases List.mem_append.mp hMem with hOld | hNew
    · exact hFirst frame hOld
    · exact hSecond frame hNew

theorem Framed.exchange {w : World} (h : w.Framed) {packet : Buf} (hPacket : 2 ≤ hdrSize packet) (rsz : Nat)
    (x : Exchange) : Sends w (w.exchange packet rsz x).2 := by
  refine sends_of_wire [frameOf packet] h rfl ?_
  rintro frame hMem
  exact List.mem_singleton.mp hMem ▸ Or.inr (whole_frameOf hPacket)

theorem Framed.asked {w : World} (h : w.Framed) {i : Nat} {r : RtdeRecipe} {packet : Buf}
    (hMsg : (w.recipes i).getMsg = some (packet, r)) (r' : RtdeRecipe) (hSame : r'.cpo = r.cpo ∧ r'.cpi = r.cpi ∧ r'.dp = r.dp ∧
      r'.bytes = r.bytes) (buffer : Buf) : Sends w (w.asked i r' packet buffer) := by
  obtain ⟨hCpo, hCpi, hDp, hBytes⟩ := hSame
  obtain ⟨hWhole, hFramed⟩ := (h i).getMsg hMsg
  have hFramed' : r'.Framed :=
    ⟨hCpo ▸ hFramed.cpo, hCpi ▸ hFramed.cpi, hDp ▸ hFramed.dp, hBytes ▸ hFramed.room⟩
  refine sends_of_wire [frameOf packet] (h.setRecipe i hFramed') rfl ?_
  rintro frame hMem
  exact List.mem_singleton.mp hMem ▸ Or.inr hWhole

theorem Framed.send {w : World} (h : w.Framed) (id sendCode : Int) : Sends w (w.send id sendCode).2 := by
  rcases send_cases w id sendCode with ⟨hSend, -⟩ | ⟨e, -, -, -, hSend⟩
  · rw [hSend]
    exact h.sends_nothing rfl
  · rw [hSend]
    have hStore := (h e.2).store w.mem
    refine sends_of_wire [frameOf ((w.recipes e.2).store (w.recipes e.2).dp w.mem).2]
      (h.setRecipe e.2 ⟨(h e.2).cpo, (h e.2).cpi, hStore, (h e.2).room⟩) rfl ?_
    rintro frame hMem
    exact List.mem_singleton.mp hMem ▸ sendable_frameOf hStore

theorem Framed.registerRecipe {w w' : World} (h : w.Framed) {i : Nat} {g : Registration} {ok : Bool}
    (hRegister : w.registerRecipe i g = some (ok, w')) : Sends w w' := by
  obtain ⟨packet, r, hMsg, ⟨-, buffer, rfl⟩ | ⟨resp, -, -, ⟨-, -, rfl⟩ | ⟨-, hSend⟩⟩⟩ := registerRecipe_cases hRegister
  · exact h.asked hMsg r ⟨rfl, rfl, rfl, rfl⟩ buffer
  · have hAsked := h.asked hMsg (r.accepted resp) ⟨rfl, rfl, rfl, rfl⟩ resp
    exact ⟨hAsked.framed, hAsked.wire, hAsked.sendable⟩
  · have hAsked := h.asked hMsg (r.accepted resp) ⟨rfl, rfl, rfl, rfl⟩ resp
    have hFiled : Sends (w.asked i (r.accepted resp) packet resp)
        ((w.asked i (r.accepted resp) packet resp).insertRecipe g.order (hdrRecipeId resp).toNat i) := by
      refine Framed.sends_nothing (fun j => ?_) ?_
      · rw [insertRecipe_recipes]
        exact hAsked.framed j
      · rw [insertRecipe]
        split <;> rfl
    rw [(Prod.mk.inj hSend).2]
    exact hAsked.trans (hFiled.trans (hFiled.framed.send _ _))

/-- A recipe that is put together keeps to its packages. -/
def InRoom (w : World) : HandlerCall → Prop
  | .recipe i c => 4 + (RtdeRecipe.call (w.recipes i, w.mem) c).1.bytes ≤ packetBytes
  | _ => True

/-- What any call hands to the connection is a frame. -/
theorem Framed.step {w w' : World} {c : HandlerCall} (h : w.Framed) (hRoom : w.InRoom c) (hStep : HandlerStep w c w') :
    Sends w w' := by
  have hRequest (buf : Buf) {n : Nat} (hTwo : 2 ≤ n % 65536) (t : PackageType) :
      2 ≤ hdrSize (putType (putSize buf n) t) := by
    rwa [putType, hdrSize_patch _ _ le_rfl, hdrSize_putSize]
  cases hStep with
  | register hRegister => exact h.registerRecipe hRegister
  | send id sendCode => exact h.send id sendCode
  | recv hRecv =>
    obtain ⟨buffer, mem, rfl⟩ := recv_eq_some hRecv
    exact Framed.sends_nothing h rfl
  | setVersion x =>
    rw [setVersion_world]
    refine h.exchange ?_ 1024 x
    rw [rtdeMkreqProtVersion, hdrSize_patch _ _ (by omega)]
    exact hRequest _ (by decide) _
  | getUrVersion urver x =>
    rw [getUrVersion_world]
    exact h.exchange (hRequest _ (by decide) _) 1024 x
  | start x =>
    rw [start_world]
    exact h.exchange (hRequest _ (by decide) _) 4 x
  | stop x =>
    rw [stop_world]
    exact h.exchange (hRequest _ (by decide) _) 4 x
  | recipe i =>
    have hCalled := RtdeRecipe.called_call (w.recipes i, w.mem)
    exact Framed.sends_nothing (h.setRecipe i ((h i).called (hCalled _) hRoom)) rfl
  | assign => exact Framed.sends_nothing h rfl

end World

end LibUrx.Rtde
