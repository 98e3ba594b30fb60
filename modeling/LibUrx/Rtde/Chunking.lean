import LibUrx.Rtde.DataPackage

/-! # A stream of data packages, read by read

Every read starts the search for a package anew at the front of the buffer, and takes one package at
most. Whole packages that arrive together with another one in front of them are dropped.
-/
namespace LibUrx.Rtde
open Bytes Text
set_option autoImplicit false

/-- A whole data package for recipe `r` as the stream carries it. -/
structure DataPackage (r : RtdeRecipe) where
  bytes : List UInt8
  accepted : World.Accepts r (ofBytes bytes)
  length : bytes.length = hdrSize (ofBytes bytes)

/-- What applying a package at time `ts` writes. -/
def DataPackage.writes {r : RtdeRecipe} (p : DataPackage r) (ts : UInt64) : List (Nat × List UInt8) :=
  decodedWrites r.fields (payload (ofBytes p.bytes)) ++ r.tsNs.toList.map fun a => (a, leBytes 8 ts.toNat)

def streamOf {r : RtdeRecipe} (packages : List (DataPackage r)) : List UInt8 :=
  (packages.map DataPackage.bytes).flatten

namespace World

def recvAll (w : World) : List (List UInt8 × UInt64) → Option World
  | [] => some w
  | (bytes, ts) :: rest => (w.recv (some bytes) ts).bind fun p => p.2.recvAll rest

end World

theorem DataPackage.length_eq {r : RtdeRecipe} (p : DataPackage r) : p.bytes.length = 4 + r.expectedBytes := by
  have hSize := p.accepted.2.2.2
  rw [p.length]
  omega

theorem doRecv_front {front rest : List UInt8} (rbuf : Buf) (hFits : (front ++ rest).length ≤ packetBytes)
    {i : Nat} (h : i < front.length) : (doRecv rbuf packetBytes (some (front ++ rest))).2 i = ofBytes front i := by
  have hTake : (front ++ rest).take packetBytes = front ++ rest := List.take_of_length_le hFits
  have hLt : i < (front ++ rest).length := by
    rw [List.length_append]
    omega
  rw [doRecv_known rbuf (by rw [hTake]; omega) (by omega), hTake, ofBytes_of_lt hLt, ofBytes_of_lt h,
    List.getElem_append_left h]

structure Read (r : RtdeRecipe) where
  first : DataPackage r
  more : List (DataPackage r)
  ts : UInt64

def Read.packages {r : RtdeRecipe} (read : Read r) : List (DataPackage r) := read.first :: read.more

theorem streamOf_cons {r : RtdeRecipe} (p : DataPackage r) (packages : List (DataPackage r)) :
    streamOf (p :: packages) = p.bytes ++ streamOf packages := by
  rw [streamOf, List.map_cons, List.flatten_cons, streamOf]

namespace World

/-- A read that starts with a whole package applies that package, whatever comes behind it. -/
theorem recv_package {w : World} {i : Nat} {r : RtdeRecipe} (hOut : w.out = some i) (hRecipe : w.recipes i = r)
    (hBounded : r.Bounded) (hFormed : r.Formed) (hDir : r.dirOut = true) (p : DataPackage r)
    {rest : List UInt8} (hFits : (p.bytes ++ rest).length ≤ packetBytes) (ts : UInt64) :
    ∃ buffer, w.recv (some (p.bytes ++ rest)) ts =
      some (true, { w with buffer, mem := w.mem.writeAll (p.writes ts) }) := by
  subst hRecipe
  have hFront {j : Nat} (hLt : j < 4 + (w.recipes i).expectedBytes) :
      ofBytes p.bytes j = (doRecv w.buffer packetBytes (some (p.bytes ++ rest))).2 j :=
    (doRecv_front w.buffer hFits (p.length_eq ▸ hLt)).symm
  have hAccepts := p.accepted.congr fun j hLt => hFront (Nat.lt_add_right _ hLt)
  have hParsed := RtdeRecipe.parsedMemory_congr hBounded hFormed (fun j hLt => (hFront hLt).symm) ts w.mem
  refine ⟨(doRecv w.buffer packetBytes (some (p.bytes ++ rest))).2, ?_⟩
  rw [recv_some, parseIncomingData_accepted hOut hFormed hDir hAccepts ts, hParsed]
  rfl

theorem recvAll_reads {w : World} {i : Nat} {r : RtdeRecipe} (hOut : w.out = some i) (hRecipe : w.recipes i = r)
    (hBounded : r.Bounded) (hFormed : r.Formed) (hDir : r.dirOut = true) (reads : List (Read r))
    (hFits : ∀ read ∈ reads, (streamOf read.packages).length ≤ packetBytes) :
    ∃ w', w.recvAll (reads.map fun read => (streamOf read.packages, read.ts)) = some w' ∧
      w'.mem = w.mem.writeAll (reads.flatMap fun read => read.first.writes read.ts) := by
  induction reads generalizing w with
  | nil => exact ⟨w, rfl, rfl⟩
  | cons read reads ih =>
    have hStream : streamOf read.packages = read.first.bytes ++ streamOf read.more := streamOf_cons _ _
    have hHead := hFits read List.mem_cons_self
    rw [hStream] at hHead
    obtain ⟨buffer, hRecv⟩ := recv_package hOut hRecipe hBounded hFormed hDir read.first hHead read.ts
    obtain ⟨w', hAll, hMem⟩ := ih (w := { w with buffer, mem := w.mem.writeAll (read.first.writes read.ts) })
      hOut hRecipe (List.forall_mem_of_forall_mem_cons hFits)
    refine ⟨w', ?_, ?_⟩
    · rw [List.map_cons, recvAll, hStream, hRecv]
      exact hAll
    · rw [hMem, List.flatMap_cons, Memory.writeAll_append]

end World

def writeCount (r : RtdeRecipe) : Nat := (decodedWrites r.fields fun _ => 0).length + r.tsNs.toList.length

theorem DataPackage.length_writes {r : RtdeRecipe} (p : DataPackage r) (ts : UInt64) :
    (p.writes ts).length = writeCount r := by
  rw [DataPackage.writes, List.length_append, List.length_map, writeCount, decodedWrites, decodedWrites,
    List.length_flatMap, List.length_flatMap]
  simp only [Token.length_assignments_congr _ _ fun _ => 0]

theorem writeCount_pos {r : RtdeRecipe} (hFormed : r.Formed) (hFields : r.fields ≠ []) : 0 < writeCount r := by
  obtain ⟨tok, rest, hEq⟩ := List.exists_cons_of_ne_nil hFields
  have hTyped := hFormed.wellTyped tok (hEq ▸ List.mem_cons_self)
  obtain ⟨bss, -, hBlocks, hLength, -⟩ := hTyped.assignments_spec (fun _ => 0) []
  have hPositive := hTyped.numBytes_pos
  have hSome : 0 < (tok.assignments fun _ => 0).length := by
    rw [hBlocks]
    cases bss with
    | nil =>
      rw [← hLength] at hPositive
      cases hPositive
    | cons bs rest => simp [blocks]
  rw [writeCount, decodedWrites, hEq, List.flatMap_cons, List.length_append]
  omega

theorem length_flatMap_of_const {α β : Type} {f : α → List β} {n : Nat} {xs : List α}
    (h : ∀ x ∈ xs, (f x).length = n) : (xs.flatMap f).length = xs.length * n := by
  induction xs with
  | nil => simp
  | cons x xs ih =>
    rw [List.flatMap_cons, List.length_append, h x List.mem_cons_self,
      ih (List.forall_mem_of_forall_mem_cons h), List.length_cons, Nat.succ_mul, Nat.add_comm]

/-- The storage went through all packages, each once, in order, and through nothing else. -/
def AppliedOnce {r : RtdeRecipe} (w w' : World) (packages : List (DataPackage r)) : Prop :=
  ∃ stamps : List UInt64, stamps.length = packages.length ∧
    w'.mem = w.mem.writeAll ((packages.zip stamps).flatMap fun q => q.1.writes q.2)

theorem AppliedOnce.length_eq {r : RtdeRecipe} {w w' : World} {packages : List (DataPackage r)}
    (h : AppliedOnce w w' packages) {writes : List (Nat × List UInt8)} (hMem : w'.mem = w.mem.writeAll writes) :
    writes.length = packages.length * writeCount r := by
  obtain ⟨stamps, hStamps, hApplied⟩ := h
  rw [Memory.writeAll_inj (hMem.symm.trans hApplied),
    length_flatMap_of_const fun q _ => q.1.length_writes q.2, List.length_zip, hStamps, Nat.min_self]

theorem length_packages_of_eq {r : RtdeRecipe} {reads : List (Read r)}
    (h : reads.length = (reads.flatMap Read.packages).length) : ∀ read ∈ reads, read.more = [] := by
  have hAtLeast : ∀ reads : List (Read r), reads.length ≤ (reads.flatMap Read.packages).length := by
    intro reads
    induction reads with
    | nil => exact le_rfl
    | cons read reads ih =>
      rw [List.flatMap_cons, List.length_append, Read.packages, List.length_cons, List.length_cons]
      omega
  induction reads with
  | nil =>
    intro read hMem
    cases hMem
  | cons head reads ih =>
    have hRest := hAtLeast reads
    rw [List.flatMap_cons, List.length_append, Read.packages, List.length_cons, List.length_cons] at h
    intro read hMem
    rcases List.mem_cons.mp hMem with rfl | hMem
    · exact List.eq_nil_of_length_eq_zero (by omega)
    · exact ih (by omega) read hMem

theorem appliedOnce_of_single {r : RtdeRecipe} {w w' : World} {reads : List (Read r)}
    (hSingle : ∀ read ∈ reads, read.more = [])
    (hMem : w'.mem = w.mem.writeAll (reads.flatMap fun read => read.first.writes read.ts)) :
    AppliedOnce w w' (reads.flatMap Read.packages) := by
  have hPackages : reads.flatMap Read.packages = reads.map Read.first := by
    rw [← List.flatMap_singleton' (reads.map Read.first), List.flatMap_map]
    apply List.flatMap_congr
    intro read hRead
    rw [Read.packages, hSingle read hRead]
  refine ⟨reads.map Read.ts, ?_, ?_⟩
  · rw [hPackages, List.length_map, List.length_map]
  · rw [hMem, hPackages, List.zip_map', List.flatMap_map]

/-- Of every read of whole packages the first is applied; so all are applied if none arrives behind
another one. -/
theorem recvAll_applies_first {w : World} {i : Nat} {r : RtdeRecipe} {m : Memory} {calls : List RecipeCall}
    (hOut : w.out = some i) (hRecipe : w.recipes i = r) (hBuilt : r = RtdeRecipe.afterCalls m calls)
    (hDir : r.dirOut = true) (reads : List (Read r))
    (hFits : ∀ read ∈ reads, (streamOf read.packages).length ≤ packetBytes) :
    ∃ w', w.recvAll (reads.map fun read => (streamOf read.packages, read.ts)) = some w' ∧
      w'.mem = w.mem.writeAll (reads.flatMap fun read => read.first.writes read.ts) ∧
      (r.fields ≠ [] →
        (AppliedOnce w w' (reads.flatMap Read.packages) ↔ ∀ read ∈ reads, read.more = [])) := by
  have hBounded : r.Bounded := hBuilt ▸ RtdeRecipe.bounded_afterCalls m calls
  have hFormed : r.Formed := hBuilt ▸ RtdeRecipe.formed_afterCalls m calls
  obtain ⟨w', hAll, hMem⟩ := World.recvAll_reads hOut hRecipe hBounded hFormed hDir reads hFits
  refine ⟨w', hAll, hMem, fun hFields => ⟨fun hApplied => ?_, fun hSingle => appliedOnce_of_single hSingle hMem⟩⟩
  have hLength := hApplied.length_eq hMem
  rw [length_flatMap_of_const fun read _ => read.first.length_writes read.ts] at hLength
  exact length_packages_of_eq (Nat.eq_of_mul_eq_mul_right (writeCount_pos hFormed hFields) hLength)

def stampRecipe : RtdeRecipe := RtdeRecipe.afterCalls ⟨fun _ => 0, []⟩
  [.addField (text "timestamp") 8, .registerResponse (ofBytes ([0, 10, 79, 1] ++ text "DOUBLE"))]

def stampWorld : World where
  out := some 0
  recipesIn := []
  buffer := fun _ => 0
  recipes := fun _ => stampRecipe
  mem := ⟨fun _ => 0, []⟩
  wire := []

instance (r : RtdeRecipe) (data : Buf) : Decidable (World.Accepts r data) := inferInstanceAs (Decidable (_ ∧ _))

set_option maxRecDepth 100000 in
def stampPackage : DataPackage stampRecipe where
  bytes := [0, 12, 85, 1, 64, 9, 0, 0, 0, 0, 0, 0]
  accepted := by decide +kernel
  length := by decide +kernel

set_option maxRecDepth 100000 in
theorem recvAll_applies_first_stamp :
    ∃ w', stampWorld.recvAll [(streamOf [stampPackage], 5), (streamOf [stampPackage, stampPackage], 6)] =
        some w' ∧
      w'.mem = stampWorld.mem.writeAll (stampPackage.writes 5 ++ stampPackage.writes 6) := by
  have hOut : stampWorld.out = some 0 := rfl
  have hRecipe : stampWorld.recipes 0 = stampRecipe := rfl
  obtain ⟨w', hAll, hMem, -⟩ := recvAll_applies_first hOut hRecipe rfl (by decide +kernel)
    [⟨stampPackage, [], 5⟩, ⟨stampPackage, [stampPackage], 6⟩] (by decide +kernel)
  exact ⟨w', hAll, by rw [hMem]; rfl⟩

set_option maxRecDepth 100000 in
/-- Two packages in one read: the second is never applied. -/
theorem joined_package_is_dropped :
    ¬ ∀ (w : World) (i : Nat) (r : RtdeRecipe) (m : Memory) (calls : List RecipeCall), w.out = some i →
      w.recipes i = r → r = RtdeRecipe.afterCalls m calls → .clearFields ∉ calls → r.dirOut = true →
      ∀ (packages : List (DataPackage r)) (reads : List (List UInt8 × UInt64)),
        (reads.map Prod.fst).flatten = streamOf packages →
        (∀ read ∈ reads, read.1 ≠ [] ∧ read.1.length ≤ packetBytes) →
        ∃ w', w.recvAll reads = some w' ∧ AppliedOnce w w' packages := by
  intro h
  have hFormed : stampRecipe.Formed := RtdeRecipe.formed_afterCalls _ _
  have hBounded : stampRecipe.Bounded := RtdeRecipe.bounded_afterCalls _ _
  have hFields : stampRecipe.fields ≠ [] := by decide +kernel
  obtain ⟨w', hAll, hMem⟩ := World.recvAll_reads (w := stampWorld) (i := 0) rfl rfl hBounded hFormed
    (by decide +kernel) [⟨stampPackage, [stampPackage], 6⟩] (by decide +kernel)
  obtain ⟨w'', hAll', hApplied⟩ := h stampWorld 0 stampRecipe _ _ rfl rfl rfl (by simp) (by decide +kernel)
    [stampPackage, stampPackage] [(streamOf [stampPackage, stampPackage], 6)] (by simp) (by decide +kernel)
  obtain rfl := Option.some.inj (hAll.symm.trans hAll')
  have hLength := hApplied.length_eq hMem
  rw [length_flatMap_of_const fun read _ => read.first.length_writes read.ts] at hLength
  have := Nat.eq_of_mul_eq_mul_right (writeCount_pos hFormed hFields) hLength
  cases this

end LibUrx.Rtde
