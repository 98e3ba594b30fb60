import LibUrx.Base.Bytes
import LibUrx.Rtde.Magic

/-! # Packets: headers, requests and the checks of replies

Every packet lives in a block of 2048 bytes and is handled through byte offsets, as the packed
structs of `header.hpp` lay it out: the size in bytes 0 and 1, the type in byte 2, and in setup
replies and data packages the recipe id in byte 3. Pointers are never null here; the null checks
of the source guard calls that these types exclude.
-/
namespace LibUrx.Rtde
open Bytes Text
set_option autoImplicit false

def packetBytes : Nat := 2048

def htons (n : Nat) : Nat := swap 2 n

def ntohs (n : Nat) : Nat := swap 2 n

def ntohl (n : Nat) : Nat := swap 4 n

def hdrSize (buf : Buf) : Nat := ntohs (leNat (slice buf 0 2))

def hdrType (buf : Buf) : UInt8 := buf 2

def hdrRecipeId (buf : Buf) : UInt8 := buf 3

def putSize (buf : Buf) (n : Nat) : Buf := patch buf 0 (leBytes 2 (htons n))

def putType (buf : Buf) (t : PackageType) : Buf := patch buf 2 [t.code]

def rtdeHdrGet (t : PackageType) : Buf := putType (fun _ => 0) t

def basicHdrValidate (buf : Buf) (t : PackageType) : Bool :=
  decide (3 ≤ hdrSize buf) && decide (hdrSize buf ≤ 2000) && hdrType buf == t.code

def rtdeMkreqProtVersion (buf : Buf) : Buf :=
  patch (putType (putSize buf 5) .requestProtocolVersion) 3 (leBytes 2 (htons supportedProtocolVersion))

def rtdeParseProtVersion (buf : Buf) : Bool :=
  hdrSize buf == 4 && hdrType buf == PackageType.requestProtocolVersion.code && buf 3 != 0

def rtdeMkreqUrctrlVersion (buf : Buf) : Buf := putType (putSize buf 3) .getUrcontrolVersion

structure UrVersion where
  major : Nat
  minor : Nat
  bugfix : Nat
  build : Nat
  deriving DecidableEq, Repr

def rtdeParseUrctrlResp (buf : Buf) : Option UrVersion :=
  if hdrSize buf = 19 ∧ hdrType buf = PackageType.getUrcontrolVersion.code then
    some ⟨ntohl (leNat (slice buf 3 4)), ntohl (leNat (slice buf 7 4)),
      ntohl (leNat (slice buf 11 4)), ntohl (leNat (slice buf 15 4))⟩
  else none

/-- Doubles are their 64-bit patterns; the comparison of two patterns as numbers. -/
def doubleLt (a b : UInt64) : Bool :=
  let magnitude (d : UInt64) : Nat := d.toNat % 2 ^ 63
  let signed (d : UInt64) : Int := if d.toNat < 2 ^ 63 then magnitude d else -magnitude d
  let isNaN (d : UInt64) : Bool := decide (0x7FF0000000000000 < magnitude d)
  !isNaN a && !isNaN b && decide (signed a < signed b)

def one : UInt64 := 0x3FF0000000000000

def oneHundredTwentyFive : UInt64 := 0x405F400000000000

def rtdeControlMsgGet (freq : UInt64) : Option Buf :=
  if doubleLt freq one || doubleLt oneHundredTwentyFive freq then none
  else some (patch (putSize (rtdeHdrGet .setupOutputs) 11) 3 (leBytes 8 freq.toNat))

def rtdeControlGetIn : Buf := putSize (rtdeHdrGet .setupInputs) 3

def rtdeControlMsgClear (hdr : Buf) (dirOut : Bool) : Buf :=
  if dirOut then
    patch (patch (putSize (putType hdr .setupOutputs) 11) 3 (leBytes 8 0)) 11 [0]
  else
    patch (putType (putSize hdr 3) .setupInputs) 3 [0]

def rtdeControlMsgIn (cpi : Buf) (payload : List UInt8) : Bool × Buf :=
  let len := (cStr payload).length
  if packetBytes - 3 < len then (false, cpi) else
  let cpi := rtdeControlMsgClear cpi false
  let cpi := patch (patch cpi 3 (cStr payload)) (3 + len) [0]
  (true, putSize cpi (hdrSize cpi + len))

def rtdeControlMsgOut (cpo : Buf) (payload : List UInt8) : Bool × Buf :=
  let len := (cStr payload).length
  if packetBytes - 11 < len then (false, cpo) else
  let cpo := rtdeControlMsgClear cpo true
  let cpo := patch (patch cpo 11 (cStr payload)) (11 + len) [0]
  (true, putSize cpo (hdrSize cpo + len))

/-- The `while` loop of `rtde_control_package_resp_validate`, on the pointers `start` and `ptr` as
offsets. The pointer moves in every round, so as many rounds as there are bytes are enough. -/
def scanTypes (buf : Buf) (stop : Nat) : Nat → Nat → Nat → Bool
  | 0, _, _ => true
  | rounds + 1, start, ptr =>
    if ptr < stop then
      if buf ptr == comma || buf (ptr + 1) == 0 then
        let type := dataNameToType (slice buf start (ptr - start)) (ptr - start)
        if type == .notFound || type == .inUse then false
        else scanTypes buf stop rounds (ptr + 1) (ptr + 2)
      else scanTypes buf stop rounds start (ptr + 1)
    else true

def rtdeControlPackageRespValidate (resp : Buf) : Bool :=
  (basicHdrValidate resp .setupOutputs || basicHdrValidate resp .setupInputs) &&
    scanTypes resp (4 + hdrSize resp - 4) (hdrSize resp) 4 4

def respVariables (resp : Buf) : List UInt8 := cStr (slice resp 4 (packetBytes - 4))

def rtdeDataPackageInit (dp : Buf) (recipeId : Int) (bytes : Nat) : Buf :=
  patch (putSize (putType dp .dataPackage) (4 + bytes)) 3 [UInt8.ofNat (recipeId % 256).toNat]

def rtdeParseDataPackage (data : Buf) : Bool :=
  hdrRecipeId data != 0 && hdrType data == PackageType.dataPackage.code && decide (4 ≤ hdrSize data)

def rtdeControlPackage (sp : Buf) (start : Bool) : Buf :=
  putType (putSize sp 3) (if start then .start else .pause)

def rtdeControlPackageSpRespValidate (resp : Buf) (start : Bool) : Bool :=
  hdrSize resp == 4 && hdrType resp == (if start then PackageType.start else PackageType.pause).code

theorem hdrSize_eq (buf : Buf) : hdrSize buf = 256 * (buf 0).toNat + (buf 1).toNat := by
  have h := swap_leNat (slice buf 0 2)
  rw [length_slice] at h
  rw [hdrSize, ntohs, h]
  simp [slice, List.range_succ, beNat, leNat]
  omega

theorem hdrSize_congr {buf buf' : Buf} (h0 : buf 0 = buf' 0) (h1 : buf 1 = buf' 1) :
    hdrSize buf = hdrSize buf' := by
  rw [hdrSize_eq, hdrSize_eq, h0, h1]

theorem hdrSize_putSize (buf : Buf) (n : Nat) : hdrSize (putSize buf n) = n % 65536 := by
  have hRead := slice_patch_self buf 0 (leBytes 2 (htons n))
  rw [length_leBytes] at hRead
  have hSwap : swap 2 n < 256 ^ 2 := by simpa [swap] using beNat_lt (leBytes 2 n)
  have hWord : leNat (leBytes 2 n) = n % 65536 := leNat_leBytes 2 n
  rw [hdrSize, putSize, hRead, htons, leNat_leBytes_of_lt hSwap, ntohs, swap, leBytes_swap, beNat,
    List.reverse_reverse, hWord]

theorem putSize_of_le (buf : Buf) (n : Nat) {i : Nat} (h : 2 ≤ i) : putSize buf n i = buf i :=
  patch_outside (Or.inr (by simpa using h))

theorem hdrSize_patch (buf : Buf) {off : Nat} (bs : List UInt8) (h : 2 ≤ off) :
    hdrSize (patch buf off bs) = hdrSize buf :=
  hdrSize_congr (patch_outside (Or.inl (by omega))) (patch_outside (Or.inl (by omega)))

theorem hdrSize_dataPackageInit (dp : Buf) (recipeId : Int) (bytes : Nat) :
    hdrSize (rtdeDataPackageInit dp recipeId bytes) = (4 + bytes) % 65536 := by
  rw [rtdeDataPackageInit, hdrSize_patch _ _ (by omega), hdrSize_putSize]

theorem hdrType_dataPackageInit (dp : Buf) (recipeId : Int) (bytes : Nat) :
    hdrType (rtdeDataPackageInit dp recipeId bytes) = PackageType.dataPackage.code := by
  rw [hdrType, rtdeDataPackageInit, patch_outside (by simp), putSize_of_le _ _ le_rfl]
  rfl

end LibUrx.Rtde
