import LibUrx.Rtde.Handler
import LibUrx.Rtde.RoundTrip

/-! # Frames on the wire

Requests and data packages share the wire and are told apart by their type.
-/
namespace LibUrx.Rtde
open Bytes Text
set_option autoImplicit false

def isPackage (frame : List UInt8) : Bool := frame[2]? == some PackageType.dataPackage.code

/-- The word in front of a package, which is where the sequence number of a command stands. -/
def seqnrOf (frame : List UInt8) : UInt32 := UInt32.ofNat (beNat ((frame.drop 4).take 4))

theorem getElem_frameOf (packet : Buf) :
    (frameOf packet)[2]? = if 2 < hdrSize packet then some (hdrType packet) else none := by
  rw [frameOf, slice_getElem?]
  rfl

theorem isPackage_of_type {packet : Buf} (hType : hdrType packet = PackageType.dataPackage.code)
    (hSize : 2 < hdrSize packet) : isPackage (frameOf packet) = true := by
  rw [isPackage, getElem_frameOf, if_pos hSize, hType, beq_self_eq_true]

theorem not_isPackage_of_type {packet : Buf} (hType : hdrType packet ≠ PackageType.dataPackage.code) :
    isPackage (frameOf packet) = false := by
  rw [isPackage, getElem_frameOf]
  split
  · simpa using hType
  · rfl

namespace RtdeRecipe

/-- Both of the request buffers bear the type of a request. -/
structure Asks (r : RtdeRecipe) : Prop where
  cpo : hdrType r.cpo = PackageType.setupOutputs.code
  cpi : hdrType r.cpi = PackageType.setupInputs.code

theorem asks_init : init.Asks := ⟨rfl, rfl⟩

theorem hdrType_controlMsgOut {cpo : Buf} (h : hdrType cpo = PackageType.setupOutputs.code) (names : List UInt8) :
    hdrType (rtdeControlMsgOut cpo names).2 = PackageType.setupOutputs.code := by
  unfold rtdeControlMsgOut
  dsimp only
  split
  · exact h
  · dsimp only
    rw [hdrType, putSize_of_le _ _ le_rfl, patch_outside (Or.inl (by omega)), patch_outside (by simp)]
    simp only [rtdeControlMsgClear, if_true]
    rw [patch_outside (by simp), patch_outside (by simp), putSize_of_le _ _ le_rfl]
    rfl

theorem hdrType_controlMsgIn {cpi : Buf} (h : hdrType cpi = PackageType.setupInputs.code) (names : List UInt8) :
    hdrType (rtdeControlMsgIn cpi names).2 = PackageType.setupInputs.code := by
  unfold rtdeControlMsgIn
  dsimp only
  split
  · exact h
  · dsimp only
    rw [hdrType, putSize_of_le _ _ le_rfl, patch_outside (Or.inl (by omega)), patch_outside (by simp)]
    simp only [rtdeControlMsgClear, Bool.false_eq_true, if_false]
    rw [patch_outside (by simp)]
    rfl

theorem Asks.getMsg {r r' : RtdeRecipe} {packet : Buf} (h : r.Asks) (hMsg : r.getMsg = some (packet, r')) :
    isPackage (frameOf packet) = false ∧ r'.Asks := by
  obtain ⟨names, -, hMade⟩ := Option.map_eq_some_iff.mp hMsg
  have hOut := hdrType_controlMsgOut h.cpo names
  have hIn := hdrType_controlMsgIn h.cpi names
  split at hMade
  · obtain ⟨rfl, rfl⟩ := Prod.mk.inj hMade
    exact ⟨not_isPackage_of_type (by rw [hOut]; decide), hOut, h.cpi⟩
  · obtain ⟨rfl, rfl⟩ := Prod.mk.inj hMade
    exact ⟨not_isPackage_of_type (by rw [hIn]; decide), h.cpo, hIn⟩

theorem isPackage_store {r : RtdeRecipe} (hDir : r.dirOut = false) (hSmall : 4 + r.bytes < 65536) (dp : Buf) (m : Memory) :
    isPackage (frameOf (r.store dp m).2) = true := by
  obtain ⟨hType, -, hSize⟩ := store_header hDir dp m
  rw [expectedBytes, Nat.mod_eq_of_lt hSmall] at hSize
  exact isPackage_of_type hType (by omega)

theorem seqnrOf_store {r : RtdeRecipe} {tok : Token} {rest : List Token} (hLayout : r.Layout) (hFormed : r.Formed)
    (hDir : r.dirOut = false) (hFields : r.fields = tok :: rest) (hWord : tok.numBytes = 4)
    (hSmall : 4 + r.bytes < 65536) (dp : Buf) (m : Memory) :
    seqnrOf (frameOf (r.store dp m).2) = UInt32.ofNat (leNat (m.read tok.storage 4)) := by
  obtain ⟨-, -, hSize⟩ := store_header hDir dp m
  rw [expectedBytes, Nat.mod_eq_of_lt hSmall] at hSize
  have hTotal : r.bytes = totalBytes r.fields := hLayout.expected
  have hBytes : 4 ≤ r.bytes := by
    rw [hTotal, hFields, totalBytes_cons, hWord]
    omega
  have hPayload := store_payload hLayout hFormed hDir dp m
  have hFirst : ((frameOf (r.store dp m).2).drop 4).take 4 = (m.read tok.storage 4).reverse := by
    rw [frameOf, hSize, slice_add, List.drop_left' (length_slice _ _ _)]
    change (slice (r.store dp m).2 4 r.expectedBytes).take 4 = _
    rw [hPayload, hFields, wireBytes_cons, hWord, List.take_left' (by simp)]
  rw [seqnrOf, hFirst, beNat, List.reverse_reverse]

end RtdeRecipe

end LibUrx.Rtde
