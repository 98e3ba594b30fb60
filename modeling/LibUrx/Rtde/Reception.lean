import LibUrx.Rtde.DataPackage
import LibUrx.Rtde.HandlerRun

/-! # What a registration accepts and what a reception accepts

An answer is accepted with any recipe id. A data package is refused if its recipe id is zero.
-/
namespace LibUrx.Rtde
open Bytes Text Runs
set_option autoImplicit false

namespace World

/-- A data package of the recipe: its type, its id and its size. -/
structure IsPackageOf (r : RtdeRecipe) (data : Buf) : Prop where
  type : hdrType data = PackageType.dataPackage.code
  id : ((hdrRecipeId data).toNat : Int) = r.recipeId
  size : hdrSize data = 4 + r.expectedBytes

/-- Whatever the payload, the packages of the recipe are taken in. -/
def TakesPackagesOf (w : World) (r : RtdeRecipe) : Prop :=
  ∀ (data : Buf) (rxTs : UInt64), IsPackageOf r data → ∃ parsed, w.parseIncomingData data rxTs = some (true, parsed)

theorem IsPackageOf.accepts_iff {r : RtdeRecipe} {data : Buf} (h : IsPackageOf r data) :
    Accepts r data ↔ r.recipeId ≠ 0 := by
  have hZero : hdrRecipeId data = 0 ↔ r.recipeId = 0 := by
    rw [← h.id, ← UInt8.toNat_inj]
    exact Int.natCast_eq_zero.symm
  constructor
  · intro hAccepts hId
    exact hAccepts.2.1 (hZero.mpr hId)
  · intro hId
    refine ⟨h.type, fun hNone => hId (hZero.mp hNone), h.id, ?_⟩
    rw [h.size]
    omega

theorem exists_isPackageOf {r : RtdeRecipe} {id : UInt8} (hId : r.recipeId = id.toNat)
    (hSmall : 4 + r.expectedBytes < 65536) : ∃ data, IsPackageOf r data := by
  have hByte : rtdeDataPackageInit (fun _ => 0) id.toNat r.expectedBytes 3 = id := by
    have hLt := id.toNat_lt
    have hMod : ((id.toNat : Int) % 256).toNat = id.toNat := by omega
    rw [rtdeDataPackageInit, hMod, UInt8.ofNat_toNat]
    exact patch_inside (show 0 < [id].length from Nat.one_pos)
  refine ⟨rtdeDataPackageInit (fun _ => 0) id.toNat r.expectedBytes, hdrType_dataPackageInit _ _ _, ?_, ?_⟩
  · rw [hdrRecipeId, hByte, hId]
  · rw [hdrSize_dataPackageInit, Nat.mod_eq_of_lt hSmall]

theorem takesPackagesOf_iff {w : World} {i : Nat} {id : UInt8} (hOut : w.out = some i) (hFormed : (w.recipes i).Formed)
    (hDir : (w.recipes i).dirOut = true) (hId : (w.recipes i).recipeId = id.toNat)
    (hSmall : 4 + (w.recipes i).expectedBytes < 65536) : w.TakesPackagesOf (w.recipes i) ↔ id ≠ 0 := by
  have hZero : (w.recipes i).recipeId ≠ 0 ↔ id ≠ 0 := by
    apply not_congr
    rw [hId, ← UInt8.toNat_inj]
    exact Int.natCast_eq_zero
  rw [← hZero]
  constructor
  · intro hTakes
    obtain ⟨data, hData⟩ := exists_isPackageOf hId hSmall
    obtain ⟨parsed, hParsed⟩ := hTakes data 0 hData
    by_contra hNone
    rw [parseIncomingData_refused hOut (fun hAccepts => hData.accepts_iff.mp hAccepts hNone)] at hParsed
    cases hParsed
  · intro hSome data rxTs hData
    exact ⟨_, parseIncomingData_accepted hOut hFormed hDir (hData.accepts_iff.mpr hSome) rxTs⟩

/-- An accepted registration of an output leaves the recipe active under the id of the answer. -/
theorem registerOutput_accepted {w w' : World} {i : Nat} {g : Registration} (hDir : (w.recipes i).dirOut = true)
    (h : w.registerRecipe i g = some (true, w')) :
    ∃ resp, w.answer g.exchange = some resp ∧ w'.out = some i ∧
      (w'.recipes i).recipeId = (hdrRecipeId resp).toNat ∧ (w'.recipes i).fields = (w.recipes i).fields ∧
      (w'.recipes i).bytes = (w.recipes i).bytes ∧ (w'.recipes i).dirOut = (w.recipes i).dirOut := by
  obtain ⟨packet, r, hMsg, hCases⟩ := registerRecipe_cases h
  obtain ⟨cpo, cpi, rfl⟩ := RtdeRecipe.getMsg_eq_some hMsg
  rcases hCases with ⟨hRefused, -⟩ | ⟨resp, hAnswer, -, ⟨-, -, rfl⟩ | ⟨hIn, -⟩⟩
  · cases hRefused
  · refine ⟨resp, hAnswer, rfl, ?_⟩
    simp [asked, setRecipe, RtdeRecipe.accepted]
  · exact absurd (hDir.symm.trans hIn) (by decide)

end World

/-- A registered output is heard if and only if the answer has given it an id other than zero. -/
theorem reception_iff {w w' : World} {i : Nat} {g : Registration} (hReachable : Reachable w)
    (hDir : (w.recipes i).dirOut = true) (hRegister : w.registerRecipe i g = some (true, w'))
    (hFits : 4 + (w'.recipes i).expectedBytes ≤ 2048) :
    w'.TakesPackagesOf (w'.recipes i) ↔ ∃ resp, w.answer g.exchange = some resp ∧ hdrRecipeId resp ≠ 0 := by
  obtain ⟨resp, hAnswer, hOut, hId, hFields, hBytes, hSame⟩ := World.registerOutput_accepted hDir hRegister
  have hFormed : (w'.recipes i).Formed := (World.formed_of_reachable hReachable i).congr hFields hSame
  rw [World.takesPackagesOf_iff hOut hFormed (hSame.trans hDir) hId (by omega), hAnswer]
  simp

/-- A recipe with a time stamp, asked for and answered under this id. -/
def askingWorld : World :=
  (World.fresh ⟨fun _ => 0, []⟩ fun _ => 0).setRecipe 0 (RtdeRecipe.init.addField (text "timestamp") 8).2

def answeredUnder (id : UInt8) : Registration where
  exchange := ⟨1, some ([0, 10, 79, id] ++ text "DOUBLE")⟩
  order := .asInserted
  initialSend := 0

theorem reachable_askingWorld : Reachable askingWorld :=
  ⟨World.fresh ⟨fun _ => 0, []⟩ fun _ => 0, [.recipe 0 (.addField (text "timestamp") 8)], fun _ => rfl,
    .cons (.recipe _ 0 (by simp)) (.nil _)⟩

set_option maxRecDepth 100000 in
theorem registerRecipe_askingWorld (id : UInt8) (hId : id = 0 ∨ id = 1) :
    ∃ w', askingWorld.registerRecipe 0 (answeredUnder id) = some (true, w') ∧ (w'.recipes 0).expectedBytes = 8 := by
  have hRegister : ∀ id ∈ [0, 1], (askingWorld.registerRecipe 0 (answeredUnder id)).map
      (fun p => (p.1, (p.2.recipes 0).expectedBytes)) = some (true, 8) := by decide +kernel
  obtain ⟨⟨ok, w'⟩, hSome, hResult⟩ := Option.map_eq_some_iff.mp (hRegister id (by simpa using hId))
  obtain ⟨rfl, hBytes⟩ := Prod.mk.inj hResult
  exact ⟨w', hSome, hBytes⟩

theorem reception_iff_one : ∃ w', askingWorld.registerRecipe 0 (answeredUnder 1) = some (true, w') ∧
    w'.TakesPackagesOf (w'.recipes 0) := by
  obtain ⟨w', hRegister, hBytes⟩ := registerRecipe_askingWorld 1 (Or.inr rfl)
  refine ⟨w', hRegister, (reception_iff reachable_askingWorld rfl hRegister (by omega)).mpr ⟨_, rfl, ?_⟩⟩
  decide

/-- An answer with the id zero is accepted, and no package of the recipe ever is. -/
theorem zero_id_is_never_heard : ¬ ∀ (w w' : World) (i : Nat) (g : Registration), Reachable w →
    (w.recipes i).dirOut = true → w.registerRecipe i g = some (true, w') → 4 + (w'.recipes i).expectedBytes ≤ 2048 →
    w'.TakesPackagesOf (w'.recipes i) := by
  intro h
  obtain ⟨w', hRegister, hBytes⟩ := registerRecipe_askingWorld 0 (Or.inl rfl)
  have hTakes := h _ w' 0 _ reachable_askingWorld rfl hRegister (by omega)
  obtain ⟨resp, hAnswer, hOut, hId, hFields, -, hSame⟩ := World.registerOutput_accepted rfl hRegister
  have hFormed : (w'.recipes 0).Formed := (World.formed_of_reachable reachable_askingWorld 0).congr hFields hSame
  have hNonzero := (World.takesPackagesOf_iff hOut hFormed (hSame.trans rfl) hId (by omega)).mp hTakes
  apply hNonzero
  obtain rfl := Option.some.inj hAnswer
  decide

end LibUrx.Rtde
