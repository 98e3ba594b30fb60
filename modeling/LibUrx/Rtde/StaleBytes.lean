import LibUrx.Rtde.DataPackage
import LibUrx.Rtde.HandlerRun

/-! # What earlier frames leave in the buffer

The handler never clears its buffer, and a read overwrites the front of it only. An operation is
settled by the bytes it was given if no earlier content makes a difference to what it returns and to
what it leaves behind, the buffer itself aside.
-/
namespace LibUrx.Rtde
open Bytes Text
set_option autoImplicit false

/-- The operations that read a reply, with the arguments of their callers. -/
inductive ReplyOp where
  | recv (ts : UInt64)
  | setVersion
  | getUrVersion (urver : UrVersion)
  | start
  | stop
  | registerRecipe (i : Nat) (order : MapOrder) (initialSend : Int)

namespace ReplyOp

/-- The operation when `sent` bytes of its request went out and `bytes` arrive. -/
def run (w : World) (sent : Nat) (bytes : List UInt8) : ReplyOp → Option (Bool × Option UrVersion × World)
  | recv ts => (w.recv (some bytes) ts).map fun (ok, w) => (ok, none, w)
  | setVersion => let (ok, w) := w.setVersion ⟨sent, some bytes⟩; some (ok, none, w)
  | getUrVersion urver => let (ok, urver, w) := w.getUrVersion urver ⟨sent, some bytes⟩; some (ok, some urver, w)
  | start => let (ok, w) := w.start ⟨sent, some bytes⟩; some (ok, none, w)
  | stop => let (ok, w) := w.stop ⟨sent, some bytes⟩; some (ok, none, w)
  | registerRecipe i order initialSend =>
    (w.registerRecipe i ⟨⟨sent, some bytes⟩, order, initialSend⟩).map fun (ok, w) => (ok, none, w)

/-- What a caller can see: the results, the storage, the recipes, the map and the frames sent. -/
def outcome (op : ReplyOp) (w : World) (sent : Nat) (bytes : List UInt8) :
    Option (Bool × Option UrVersion × World) :=
  (op.run w sent bytes).map fun (ok, urver, w) => (ok, urver, { w with buffer := fun _ => 0 })

/-- No earlier content of the buffer makes a difference. -/
def Settled (op : ReplyOp) (w : World) (sent : Nat) (bytes : List UInt8) : Prop :=
  ∀ b b' : Buf, (∀ i, packetBytes ≤ i → b i = b' i) →
    op.outcome { w with buffer := b } sent bytes = op.outcome { w with buffer := b' } sent bytes

end ReplyOp

def readOver (rsz : Nat) (bytes : List UInt8) (b : Buf) : Buf := (doRecv b rsz (some bytes)).2

/-- A content of the buffer, with whatever memory there is behind it. -/
def fill (w : World) (f : Nat → UInt8) : Buf := fun i => if i < packetBytes then f i else w.buffer i

theorem fill_beyond (w : World) (f g : Nat → UInt8) : ∀ i, packetBytes ≤ i → fill w f i = fill w g i := by
  intro i h
  rw [fill, fill, if_neg (by omega), if_neg (by omega)]

theorem fill_of_lt {w : World} {f : Nat → UInt8} {i : Nat} (h : i < packetBytes) : fill w f i = f i := if_pos h

section Read

variable (rsz : Nat) (bytes : List UInt8)

theorem readOver_known (b : Buf) {i : Nat} (hLe : i ≤ (bytes.take rsz).length) (hLt : i < rsz) :
    readOver rsz bytes b i = ofBytes (bytes.take rsz) i := doRecv_known b hLe hLt

theorem readOver_fill {w : World} {f : Nat → UInt8} {i : Nat} (hGt : (bytes.take rsz).length < i)
    (hLt : i < packetBytes) : readOver rsz bytes (fill w f) i = f i := by
  rw [readOver, doRecv_byte_of_gt _ hGt, fill_of_lt hLt]

end Read

theorem World.exchange_delivered (w : World) (packet : Buf) (rsz sent : Nat) (bytes : List UInt8) :
    w.exchange packet rsz ⟨sent, some bytes⟩ = (((bytes.take rsz).length : Int),
      { w with buffer := readOver rsz bytes w.buffer, wire := w.wire ++ [frameOf packet] }) := by
  have hSent : ¬ (sent : Int) < 0 := by omega
  simp only [World.exchange, doSendRecv, if_neg hSent]
  rfl

/-- The check of the short replies: size 4, the given type, and a last byte that says yes. -/
def shortReply (type : UInt8) (buf : Buf) : Bool := hdrSize buf == 4 && hdrType buf == type && buf 3 != 0

theorem shortReply_congr {buf buf' : Buf} (type : UInt8) (h : ∀ i < 4, buf i = buf' i) :
    shortReply type buf = shortReply type buf' := by
  rw [shortReply, shortReply, hdrSize_congr (h 0 (by decide)) (h 1 (by decide)), hdrType, hdrType,
    h 2 (by decide), h 3 (by decide)]

/-- One byte makes the size a multiple of 256, two make the type zero. -/
theorem shortReply_eq_false {type : UInt8} (hType : type ≠ 0) {buf : Buf} (h : buf 1 = 0 ∨ buf 2 = 0) :
    shortReply type buf = false := by
  cases h with
  | inl hSecond =>
    have hSize : hdrSize buf ≠ 4 := by
      rw [hdrSize_eq, hSecond]
      simp only [UInt8.toNat_zero]
      omega
    simp [shortReply, hSize]
  | inr hThird => simp [shortReply, hdrType, hThird, hType.symm]

theorem shortReply_settled_iff (w : World) {rsz : Nat} (bytes : List UInt8) {type : UInt8} (hType : type ≠ 0)
    (hLo : 4 ≤ rsz) :
    (∀ b b' : Buf, (∀ i, packetBytes ≤ i → b i = b' i) →
        shortReply type (readOver rsz bytes b) = shortReply type (readOver rsz bytes b')) ↔
      0 < (bytes.take rsz).length := by
  constructor
  · intro h
    apply Nat.pos_of_ne_zero
    intro hZero
    have hEmpty : bytes.take rsz = [] := List.eq_nil_of_length_eq_zero hZero
    have hSame := h (fill w fun _ => 0) (fill w fun i => if i = 1 then 4 else if i = 2 then type else 1)
      (fill_beyond w _ _)
    have hBytes (f : Nat → UInt8) : ∀ i, 0 < i → i < 4 → readOver rsz bytes (fill w f) i = f i :=
      fun i hPos hLt => readOver_fill rsz bytes (by omega) (by unfold packetBytes; omega)
    have hFirst (f : Nat → UInt8) : readOver rsz bytes (fill w f) 0 = 0 := by
      rw [readOver_known rsz bytes _ (by omega) (by omega), hEmpty]
      rfl
    simp [shortReply, hdrSize_eq, hdrType, hFirst, hBytes] at hSame
  · intro hPos b b' _
    cases Nat.lt_or_ge (bytes.take rsz).length 3 with
    | inl hFew =>
      have hFalse (b : Buf) : shortReply type (readOver rsz bytes b) = false := by
        apply shortReply_eq_false hType
        cases Nat.lt_or_ge (bytes.take rsz).length 2 with
        | inl hOne =>
          left
          rw [readOver_known rsz bytes b (by omega) (by omega), ofBytes_of_le (by omega)]
        | inr hTwo =>
          right
          rw [readOver_known rsz bytes b (by omega) (by omega), ofBytes_of_le (by omega)]
      rw [hFalse b, hFalse b']
    | inr hMany =>
      apply shortReply_congr type
      intro i hLt
      rw [readOver_known rsz bytes b (by omega) (by omega), readOver_known rsz bytes b' (by omega) (by omega)]

namespace ReplyOp

variable (w : World) (sent : Nat) (bytes : List UInt8)

theorem not_neg_length (rsz : Nat) : ¬ ((bytes.take rsz).length : Int) < 0 := by omega

theorem setVersion_outcome (b : Buf) :
    setVersion.outcome { w with buffer := b } sent bytes =
      some (shortReply PackageType.requestProtocolVersion.code (readOver 1024 bytes b), none,
        { w with
          buffer := fun _ => 0
          wire := w.wire ++ [frameOf (rtdeMkreqProtVersion fun _ => 0)] }) := by
  simp only [outcome, run, World.setVersion, World.exchange_delivered, if_neg (not_neg_length bytes 1024)]
  rfl

theorem start_outcome (b : Buf) :
    start.outcome { w with buffer := b } sent bytes =
      some (shortReply PackageType.start.code (readOver 4 bytes b), none,
        { w with
          buffer := fun _ => 0
          wire := w.wire ++ [frameOf (rtdeControlPackage (fun _ => 0) true)] }) := by
  simp only [outcome, run, World.start, World.exchange_delivered, if_neg (not_neg_length bytes 4)]
  cases hValid : rtdeControlPackageSpRespValidate (readOver 4 bytes b) true with
  | false => simp_all [shortReply, rtdeControlPackageSpRespValidate]
  | true => simp_all [shortReply, rtdeControlPackageSpRespValidate]

theorem stop_outcome (b : Buf) :
    stop.outcome { w with buffer := b } sent bytes =
      some (shortReply PackageType.start.code (readOver 4 bytes b), none,
        { w with
          buffer := fun _ => 0
          wire := w.wire ++ [frameOf (rtdeControlPackage (fun _ => 0) false)] }) := by
  simp only [outcome, run, World.stop, World.exchange_delivered, if_neg (not_neg_length bytes 4)]
  cases hValid : rtdeControlPackageSpRespValidate (readOver 4 bytes b) true with
  | false => simp_all [shortReply, rtdeControlPackageSpRespValidate]
  | true => simp_all [shortReply, rtdeControlPackageSpRespValidate]

theorem settled_short_iff {op : ReplyOp} {type : UInt8} {rsz : Nat} {world : World} (hType : type ≠ 0)
    (hLo : 4 ≤ rsz) (hOutcome : ∀ b, op.outcome { w with buffer := b } sent bytes =
      some (shortReply type (readOver rsz bytes b), none, world)) :
    op.Settled w sent bytes ↔ 0 < (bytes.take rsz).length := by
  rw [← shortReply_settled_iff w bytes hType hLo]
  constructor
  · intro h b b' hSame
    have hEq := h b b' hSame
    rw [hOutcome, hOutcome] at hEq
    exact (Prod.mk.inj (Option.some.inj hEq)).1
  · intro h b b' hSame
    rw [hOutcome, hOutcome, h b b' hSame]

def versionResult (urver : UrVersion) (buf : Buf) : Bool × UrVersion :=
  match rtdeParseUrctrlResp buf with
  | none => (false, urver)
  | some urver => (decide (0 < urver.major) && decide (urver.major < 7), urver)

theorem getUrVersion_outcome (urver : UrVersion) (b : Buf) :
    (getUrVersion urver).outcome { w with buffer := b } sent bytes =
      some ((versionResult urver (readOver 1024 bytes b)).1,
        some (versionResult urver (readOver 1024 bytes b)).2,
        { w with
          buffer := fun _ => 0
          wire := w.wire ++ [frameOf (rtdeMkreqUrctrlVersion fun _ => 0)] }) := by
  simp only [outcome, run, World.getUrVersion, World.exchange_delivered, if_neg (not_neg_length bytes 1024),
    versionResult]
  cases rtdeParseUrctrlResp (readOver 1024 bytes b) with
  | none => rfl
  | some _ => rfl

end ReplyOp

def VersionHead (buf : Buf) : Prop :=
  hdrSize buf = 19 ∧ hdrType buf = PackageType.getUrcontrolVersion.code

theorem rtdeParseUrctrlResp_congr {buf buf' : Buf} (h : ∀ i < 19, buf i = buf' i) :
    rtdeParseUrctrlResp buf = rtdeParseUrctrlResp buf' := by
  have hWord {off : Nat} (hOff : off + 4 ≤ 19) : slice buf off 4 = slice buf' off 4 :=
    slice_congr fun i _ hhi => h i (by omega)
  rw [rtdeParseUrctrlResp, rtdeParseUrctrlResp, hdrSize_congr (h 0 (by decide)) (h 1 (by decide)), hdrType,
    hdrType, h 2 (by decide), hWord (by decide), hWord (by decide), hWord (by decide), hWord (by decide)]

theorem VersionHead.congr {buf buf' : Buf} (h : ∀ i < 3, buf i = buf' i) (hHead : VersionHead buf) :
    VersionHead buf' := by
  obtain ⟨hSize, hType⟩ := hHead
  rw [hdrSize_congr (h 0 (by decide)) (h 1 (by decide))] at hSize
  rw [hdrType, h 2 (by decide)] at hType
  exact ⟨hSize, hType⟩

theorem VersionHead.nonzero {buf : Buf} (h : VersionHead buf) : buf 1 ≠ 0 ∧ buf 2 ≠ 0 := by
  obtain ⟨hSize, hType⟩ := h
  constructor
  · intro hZero
    rw [hdrSize_eq, hZero] at hSize
    simp only [UInt8.toNat_zero] at hSize
    omega
  · intro hZero
    rw [hdrType, hZero] at hType
    cases hType

theorem ntohl_mod (buf : Buf) (off : Nat) : ntohl (leNat (slice buf off 4)) % 256 = (buf (off + 3)).toNat := by
  have hSwap := swap_leNat (slice buf off 4)
  rw [length_slice] at hSwap
  have hLt : (buf (off + 3)).toNat < 256 := (buf (off + 3)).toNat_lt
  rw [ntohl, hSwap]
  simp [slice, List.range_succ, beNat, leNat]

theorem rtdeParseUrctrlResp_of_version {buf : Buf} (h : VersionHead buf) :
    rtdeParseUrctrlResp buf = some ⟨ntohl (leNat (slice buf 3 4)), ntohl (leNat (slice buf 7 4)),
      ntohl (leNat (slice buf 11 4)), ntohl (leNat (slice buf 15 4))⟩ := if_pos h

theorem rtdeParseUrctrlResp_of_head {buf : Buf} (h : ¬ VersionHead buf) : rtdeParseUrctrlResp buf = none :=
  if_neg h

namespace ReplyOp

variable (w : World) (sent : Nat) (bytes : List UInt8)

/-- A reply of no byte says nothing, and one that announces a version must bring all of it. -/
theorem getUrVersion_settled_iff (urver : UrVersion) :
    (getUrVersion urver).Settled w sent bytes ↔ 0 < (bytes.take 1024).length ∧
      (VersionHead (ofBytes (bytes.take 1024)) → 18 ≤ (bytes.take 1024).length) := by
  have hSettled : (getUrVersion urver).Settled w sent bytes ↔ ∀ b b' : Buf,
      (∀ i, packetBytes ≤ i → b i = b' i) →
        versionResult urver (readOver 1024 bytes b) = versionResult urver (readOver 1024 bytes b') := by
    constructor
    · intro h b b' hSame
      have hEq := h b b' hSame
      rw [getUrVersion_outcome, getUrVersion_outcome] at hEq
      simp only [Option.some.injEq, Prod.mk.injEq, and_true] at hEq
      exact Prod.ext hEq.1 hEq.2
    · intro h b b' hSame
      rw [getUrVersion_outcome, getUrVersion_outcome, h b b' hSame]
  have hKnown (b : Buf) {i : Nat} (hLe : i ≤ (bytes.take 1024).length) (hLt : i < 19) :
      readOver 1024 bytes b i = ofBytes (bytes.take 1024) i := readOver_known 1024 bytes b hLe (by omega)
  rw [hSettled]
  constructor
  · intro h
    constructor
    · apply Nat.pos_of_ne_zero
      intro hZero
      have hEmpty : bytes.take 1024 = [] := List.eq_nil_of_length_eq_zero hZero
      have hFill {f : Nat → UInt8} (hFirst : f 0 = 0) :
          ∀ i < 19, readOver 1024 bytes (fill w f) i = f i := by
        intro i hLt
        rcases Nat.eq_zero_or_pos i with rfl | hPos
        · rw [hKnown _ (by omega) (by omega), hEmpty, hFirst]
          rfl
        · exact readOver_fill 1024 bytes (by omega) (by unfold packetBytes; omega)
      have hSame := h _ _ (fill_beyond w (ofBytes []) (ofBytes [0, 19, 118, 0, 0, 0, 1]))
      have hNothing : rtdeParseUrctrlResp (ofBytes []) = none := by decide
      have hVersion : rtdeParseUrctrlResp (ofBytes [0, 19, 118, 0, 0, 0, 1]) = some ⟨1, 0, 0, 0⟩ := by decide
      rw [versionResult, versionResult, rtdeParseUrctrlResp_congr (hFill rfl),
        rtdeParseUrctrlResp_congr (hFill rfl), hNothing, hVersion] at hSame
      cases congrArg Prod.fst hSame
    · intro hHead
      have hThree : 2 < (bytes.take 1024).length := by
        refine Nat.lt_of_not_le fun hLe => hHead.nonzero.2 (ofBytes_of_le hLe)
      apply Nat.le_of_not_lt
      intro hFew
      have hHeads (f : Nat → UInt8) : VersionHead (readOver 1024 bytes (fill w f)) :=
        hHead.congr fun i hLt => (hKnown _ (by omega) (by omega)).symm
      have hLast (f : Nat → UInt8) : readOver 1024 bytes (fill w f) 18 = f 18 :=
        readOver_fill 1024 bytes hFew (by decide)
      have hSame := h _ _ (fill_beyond w (fun _ => 0) fun _ => 1)
      rw [versionResult, versionResult, rtdeParseUrctrlResp_of_version (hHeads _),
        rtdeParseUrctrlResp_of_version (hHeads _)] at hSame
      have hBuild := congrArg (fun result => result.2.build % 256) hSame
      simp only [ntohl_mod, hLast] at hBuild
      cases hBuild
  · rintro ⟨hPos, hWhole⟩ b b' -
    have hNone {b : Buf} (hHead : ¬ VersionHead (ofBytes (bytes.take 1024))) :
        rtdeParseUrctrlResp (readOver 1024 bytes b) = none := by
      refine rtdeParseUrctrlResp_of_head fun hRead => hHead ?_
      have hSecond : 1 < (bytes.take 1024).length := by
        refine Nat.lt_of_not_le fun hLe => hRead.nonzero.1 ?_
        rw [hKnown b (by omega) (by omega), ofBytes_of_le hLe]
      have hThird : 2 < (bytes.take 1024).length := by
        refine Nat.lt_of_not_le fun hLe => hRead.nonzero.2 ?_
        rw [hKnown b (by omega) (by omega), ofBytes_of_le hLe]
      exact hRead.congr fun i hLt => hKnown b (by omega) (by omega)
    cases Classical.em (VersionHead (ofBytes (bytes.take 1024))) with
    | inl hHead =>
      have hMany := hWhole hHead
      rw [versionResult, versionResult, rtdeParseUrctrlResp_congr fun i hLt =>
        (hKnown b (by omega) hLt).trans (hKnown b' (by omega) hLt).symm]
    | inr hHead => rw [versionResult, versionResult, hNone hHead, hNone hHead]

end ReplyOp

end LibUrx.Rtde
