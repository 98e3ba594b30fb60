import LibUrx.Controller.Program
import LibUrx.Robot.Armed
import LibUrx.Robot.PoseCommand
import LibUrx.Robot.Snapshot

/-! # The registers in packages

A package of the input with poses sets the controller's input registers to what the members of the robot held when it
was sent. A package of the output with poses sets the members to what the output registers held.
-/
namespace LibUrx.Controller
open Bytes Text Rtde
set_option autoImplicit false

def wordAt (package : List UInt8) (offset : Nat) : UInt32 :=
  UInt32.ofNat (beNat ((package.drop (4 + offset)).take 4))

def doubleAt (package : List UInt8) (offset : Nat) : UInt64 :=
  UInt64.ofNat (beNat ((package.drop (4 + offset)).take 8))

namespace Inputs

/-- The registers that a package of the input with poses sets, field behind field. -/
def ofPackage (package : List UInt8) : Inputs where
  seqnr := wordAt package 0
  cmd := wordAt package 4
  qd i := doubleAt package (8 + 8 * i)
  tcpPose i := doubleAt package (56 + 8 * i)

/-- The members of a robot that its input recipe refers to. -/
def held (m : Memory) : Inputs where
  seqnr := getWord m Member.inSeqnr
  cmd := getWord m Member.cmd
  qd i := getDouble m (Member.setQd + 8 * i)
  tcpPose i := getDouble m (Member.tcpPoseRef + 8 * i)

end Inputs

/-- Where an entry of a set-up stands behind the head of a package. -/
def entryOffset (entries : List Entry) (k : Nat) : Nat := ((entries.take k).map fun e => e.2.2).sum

theorem length_entryBytes (m : Memory) (entries : List Entry) :
    (entries.flatMap fun e => (m.read e.2.1 e.2.2).reverse).length = (entries.map fun e => e.2.2).sum := by
  induction entries with
  | nil => rfl
  | cons e rest ih => simp [ih]

theorem take_entryBytes (m : Memory) {entries : List Entry} {k : Nat} {e : Entry} (hGet : entries[k]? = some e) :
    ((entries.flatMap fun e => (m.read e.2.1 e.2.2).reverse).drop (entryOffset entries k)).take e.2.2 =
      (m.read e.2.1 e.2.2).reverse := by
  obtain ⟨hLt, rfl⟩ := List.getElem?_eq_some_iff.mp hGet
  have hSplit : entries = entries.take k ++ entries[k] :: entries.drop (k + 1) := by
    rw [← List.drop_eq_getElem_cons hLt, List.take_append_drop]
  have hBefore := length_entryBytes m (entries.take k)
  have hBytes : (entries.flatMap fun e => (m.read e.2.1 e.2.2).reverse) =
      ((entries.take k).flatMap fun e => (m.read e.2.1 e.2.2).reverse) ++
        ((m.read entries[k].2.1 entries[k].2.2).reverse ++
          (entries.drop (k + 1)).flatMap fun e => (m.read e.2.1 e.2.2).reverse) := by
    conv_lhs => rw [hSplit]
    rw [List.flatMap_append, List.flatMap_cons]
  rw [hBytes, entryOffset, List.drop_left' hBefore, List.take_left' (by simp)]

namespace Inputs

/-- The bytes of an entry in a package of the input with poses. -/
theorem entry_of_frame {r : RtdeRecipe} (h : r.Combines [true]) (dp : Buf) (m : Memory) {k : Nat} {e : Entry}
    (hGet : (setUpEntries true)[k]? = some e) :
    ((frameOf (r.store dp m).2).drop (4 + entryOffset (setUpEntries true) k)).take e.2.2 =
      (m.read e.2.1 e.2.2).reverse := by
  have hSmall : 4 + r.bytes < 65536 := Robot.bytes_of_fitsBlock h (by decide)
  have hEntries : r.fields.map Token.entry = setUpEntries true := by
    rw [h.entries, List.flatMap_singleton]
  have hWire : wireBytes m r.fields = (setUpEntries true).flatMap fun e => (m.read e.2.1 e.2.2).reverse := by
    rw [← hEntries, wireBytes, List.flatMap_map]
    rfl
  rw [RtdeRecipe.frameOf_store h.layout h.formed h.dirIn hSmall, hWire, ← List.drop_drop]
  exact take_entryBytes m hGet

set_option maxRecDepth 100000 in
theorem entries_place : (setUpEntries true)[0]? = some (text "input_int_register_0", Member.inSeqnr, 4) ∧
    (setUpEntries true)[1]? = some (text "input_int_register_1", Member.cmd, 4) ∧
    (∀ i : Fin 6, ((setUpEntries true)[2 + i.val]?.map fun e => e.2) = some (Member.setQd + 8 * i, 8) ∧
      entryOffset (setUpEntries true) (2 + i) = 8 + 8 * i) ∧
    ∀ i : Fin 6, ((setUpEntries true)[8 + i.val]?.map fun e => e.2) = some (Member.tcpPoseRef + 8 * i, 8) ∧
      entryOffset (setUpEntries true) (8 + i) = 56 + 8 * i := by
  decide +kernel

theorem ofPackage_store {r : RtdeRecipe} (h : r.Combines [true]) (dp : Buf) (m : Memory) :
    ofPackage (frameOf (r.store dp m).2) = held m := by
  obtain ⟨hSeqnr, hCmd, hSpeeds, hPoses⟩ := entries_place
  have hDouble {k offset a : Nat} (hGet : ((setUpEntries true)[k]?.map fun e => e.2) = some (a, 8))
      (hOffset : entryOffset (setUpEntries true) k = offset) :
      doubleAt (frameOf (r.store dp m).2) offset = getDouble m a := by
    obtain ⟨⟨name, a', n⟩, hSome, hPair⟩ := Option.map_eq_some_iff.mp hGet
    obtain ⟨rfl, rfl⟩ := Prod.mk.inj hPair
    have hBytes := entry_of_frame h dp m hSome
    rw [hOffset] at hBytes
    rw [doubleAt, hBytes, beNat, List.reverse_reverse]
    rfl
  have hFirst := entry_of_frame h dp m hSeqnr
  have hSecond := entry_of_frame h dp m hCmd
  rw [ofPackage, held, Inputs.mk.injEq]
  refine ⟨?_, ?_, funext fun i => hDouble (hSpeeds i).1 (hSpeeds i).2, funext fun i => hDouble (hPoses i).1 (hPoses i).2⟩
  · rw [wordAt]
    change UInt32.ofNat (beNat (((frameOf (r.store dp m).2).drop (4 + entryOffset (setUpEntries true) 0)).take 4)) = _
    rw [hFirst, beNat, List.reverse_reverse]
    rfl
  · rw [wordAt]
    change UInt32.ofNat (beNat (((frameOf (r.store dp m).2).drop (4 + entryOffset (setUpEntries true) 1)).take 4)) = _
    rw [hSecond, beNat, List.reverse_reverse]
    rfl

end Inputs

theorem beNat_beBytes {w n : Nat} (h : n < 256 ^ w) : beNat (beBytes w n) = n := by
  rw [beNat, beBytes, List.reverse_reverse, leNat_leBytes_of_lt h]

theorem takeWord_beBytes {w n : Nat} (h : n < 256 ^ w) (rest : List UInt8) :
    takeWord w (beBytes w n ++ rest) = some (n, rest) := by
  rw [takeWord_append (by simp [beBytes]), beNat_beBytes h]

theorem takeWords_beBytes (w : Nat) (ns : List Nat) (h : ∀ n ∈ ns, n < 256 ^ w) (rest : List UInt8) :
    takeWords w ns.length (ns.flatMap (beBytes w) ++ rest) = some (ns, rest) := by
  induction ns with
  | nil => rfl
  | cons n ns ih =>
    rw [List.flatMap_cons, List.append_assoc, List.length_cons, takeWords,
      takeWord_beBytes (h n List.mem_cons_self)]
    simp only [ih fun n' hN => h n' (List.mem_cons_of_mem _ hN), Option.map_some]

/-- Doubles one after the other are the doubles of a vector. -/
theorem decodeSeq_doubles (ns : List Nat) (h : ∀ n ∈ ns, n < 256 ^ 8) (rest : List UInt8) :
    decodeSeq (List.replicate ns.length .double) (ns.flatMap (beBytes 8) ++ rest) =
      some (ns.map WireValue.double, rest) := by
  induction ns with
  | nil => rfl
  | cons n ns ih =>
    rw [List.flatMap_cons, List.append_assoc, List.length_cons, List.replicate_succ, decodeSeq, decodeValue,
      takeWord_beBytes (h n List.mem_cons_self)]
    simp only [Option.map_some, ih fun n' hN => h n' (List.mem_cons_of_mem _ hN), List.map_cons]

/-- The bits of six doubles. -/
def Vec.bits (v : Vec) : List Nat := List.ofFn fun i => (v i).toNat

theorem Vec.bits_lt (v : Vec) : ∀ n ∈ v.bits, n < 256 ^ 8 := by
  intro n hN
  obtain ⟨i, rfl⟩ := List.mem_ofFn.mp hN
  exact (v i).toNat_lt

theorem Vec.length_bits (v : Vec) : v.bits.length = 6 := List.length_ofFn

/-- What else the controller says in a package of the output with poses. -/
structure Telemetry where
  timestamp : UInt64
  targetQ : Vec
  targetQd : Vec
  targetQdd : Vec
  targetMoment : Vec
  targetTcpPose : Vec

namespace Outputs

def payload (t : Telemetry) (o : Outputs) : List UInt8 :=
  beBytes 4 o.seqnr.toNat ++ (beBytes 8 t.timestamp.toNat ++ (t.targetQ.bits.flatMap (beBytes 8) ++
    (t.targetQd.bits.flatMap (beBytes 8) ++ (t.targetQdd.bits.flatMap (beBytes 8) ++
      (t.targetMoment.bits.flatMap (beBytes 8) ++ (t.targetTcpPose.bits.flatMap (beBytes 8) ++
        (beBytes 4 o.qRefSeqnr.toNat ++ (o.qRef.bits.flatMap (beBytes 8) ++ []))))))))

/-- A package of the output with poses: its size, its type, the number of the recipe, and the fields. -/
def package (id : UInt8) (t : Telemetry) (o : Outputs) : List UInt8 := [1, 52, 85, id] ++ o.payload t

theorem decodeSeq_payload (t : Telemetry) (o : Outputs) :
    decodeSeq poseTypesOf (o.payload t) = some ([.int32 (signed32 o.seqnr.toNat), .double t.timestamp.toNat,
      .vector6d t.targetQ.bits, .vector6d t.targetQd.bits, .vector6d t.targetQdd.bits, .vector6d t.targetMoment.bits,
      .vector6d t.targetTcpPose.bits, .int32 (signed32 o.qRefSeqnr.toNat)] ++ o.qRef.bits.map WireValue.double, []) := by
  have hVector (v : Vec) (rest : List UInt8) : takeWords 8 6 (v.bits.flatMap (beBytes 8) ++ rest) = some (v.bits, rest) := by
    have hWords := takeWords_beBytes 8 v.bits v.bits_lt rest
    rwa [v.length_bits] at hWords
  have hDoubles := decodeSeq_doubles o.qRef.bits o.qRef.bits_lt []
  rw [o.qRef.length_bits] at hDoubles
  have hTypes : poseTypesOf = [.int32, .double, .vector6d, .vector6d, .vector6d, .vector6d, .vector6d, .int32] ++
      List.replicate 6 .double := rfl
  have hSeqnr : o.seqnr.toNat < 256 ^ 4 := o.seqnr.toNat_lt
  have hQRef : o.qRefSeqnr.toNat < 256 ^ 4 := o.qRefSeqnr.toNat_lt
  have hTime : t.timestamp.toNat < 256 ^ 8 := t.timestamp.toNat_lt
  simp only [hTypes, payload, List.cons_append, List.nil_append, decodeSeq, decodeValue, takeWord_beBytes hSeqnr,
    takeWord_beBytes hQRef, takeWord_beBytes hTime, hVector, hDoubles, Option.map_some]

theorem length_payload (t : Telemetry) (o : Outputs) : (o.payload t).length = 304 := by
  have hVector (v : Vec) : (v.bits.flatMap (beBytes 8)).length = 48 := by
    simp [Vec.bits, beBytes]
  simp [payload, hVector, beBytes]

theorem take_package (id : UInt8) (t : Telemetry) (o : Outputs) :
    ((o.package id t).drop 4).take 304 = o.payload t := by
  change ((o.payload t)).take 304 = _
  rw [← o.length_payload t, List.take_length]

theorem signed32_inj {n m : Nat} (hN : n < 2 ^ 32) (hM : m < 2 ^ 32) (h : signed32 n = signed32 m) : n = m := by
  unfold signed32 at h
  split at h <;> split at h <;> omega

/-- What a member memory holds of the output registers. -/
def Held (m : Memory) (o : Outputs) : Prop :=
  getWord m Member.outSeqnr = o.seqnr ∧ getWord m Member.qRefOutSeqnrBuf = o.qRefSeqnr ∧
    getDoubles m Member.qRefBuf = List.ofFn o.qRef

/-- A whole package of the output with poses leaves the output registers in the members. -/
theorem held_of_parsed {r : RtdeRecipe} (h : (RtdeRecipe.init.extended outputFieldsTcpPose).Alike r)
    (hFormed : r.Formed) {load : Buf} {id : UInt8} {t : Telemetry} {o : Outputs}
    (hLoad : slice load 0 304 = ((o.package id t).drop 4).take 304) (ts : UInt64) (m : Memory) :
    Held (r.parsedMemory load ts m) o := by
  have hFields : r.fields = placed true 0 outputFieldsTcpPose := h.fields
  have hLayout : r.Layout := RtdeRecipe.layout_congr h.bytes h.fields
    (RtdeRecipe.Layout.extended (RtdeRecipe.layout_of_nil rfl rfl) known_outputFieldsTcpPose)
  have hApart : r.DisjointTargets := by
    rw [RtdeRecipe.DisjointTargets, RtdeRecipe.targets, h.fields, h.tsNs]
    exact disjointTargets_outputFieldsTcpPose
  have hBytes : r.expectedBytes = 304 := h.bytes.trans bytes_outputFieldsTcpPose
  have hTypes : r.fields.map Token.type = poseTypesOf := by
    rw [hFields, types_placed, types_outputFieldsTcpPose]
  obtain ⟨vs, hDecode, hHost⟩ := RtdeRecipe.parsedMemory_fields hLayout hFormed hApart load ts m
  rw [hTypes, hBytes, hLoad, take_package, decodeSeq_payload] at hDecode
  rw [← (Prod.mk.inj (Option.some.inj hDecode)).1] at hHost
  obtain ⟨mem, hMem⟩ : ∃ mem, r.parsedMemory load ts m = mem := ⟨_, rfl⟩
  have hMembers : r.fields.map (fun tok => hostValue tok.type (mem.read tok.storage tok.numBytes)) =
      (r.fields.map fun tok => (tok.type, tok.storage, tok.numBytes)).map
        fun p => hostValue p.1 (mem.read p.2.1 p.2.2) := by
    rw [List.map_map]
    rfl
  have hValues := hMembers.symm.trans (hMem ▸ hHost)
  rw [hFields, members_outputFieldsTcpPose, List.map_append, List.map_append] at hValues
  obtain ⟨hHeads, hDoubles⟩ := List.append_inj hValues (by simp)
  simp only [List.map_cons, List.cons.injEq, hostValue, Option.some.injEq, WireValue.int32.injEq] at hHeads
  have hWord {a : Nat} {n : UInt32} (hSigned : signed32 (leNat (mem.read a 4)) = signed32 n.toNat) :
      getWord mem a = n := by
    have hLt := leNat_lt (mem.read a 4)
    rw [Memory.length_read] at hLt
    rw [getWord, signed32_inj hLt n.toNat_lt hSigned, UInt32.ofNat_toNat]
  have hQRef : getDoubles mem Member.qRefBuf = List.ofFn o.qRef := by
    have hBits : (List.range dof).map (fun i => leNat (mem.read (Member.qRefBuf + 8 * i) 8)) = o.qRef.bits := by
      rw [List.map_map, List.map_map] at hDoubles
      have hInjective : Function.Injective (some ∘ WireValue.double) := fun n n' hSame => by simpa using hSame
      apply List.map_injective_iff.mpr hInjective
      rw [List.map_map, ← hDoubles]
      rfl
    calc getDoubles mem Member.qRefBuf
        = ((List.range dof).map fun i => leNat (mem.read (Member.qRefBuf + 8 * i) 8)).map UInt64.ofNat := by
          rw [List.map_map]
          rfl
      _ = List.ofFn o.qRef := by
          rw [hBits, Vec.bits, List.map_ofFn]
          simp [Function.comp_def]
  rw [hMem]
  exact ⟨hWord hHeads.1, hWord hHeads.2.2.2.2.2.2.2.1, hQRef⟩

end Outputs

end LibUrx.Controller
