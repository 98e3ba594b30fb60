import LibUrx.Rtde.Token

/-! # Recipes

A recipe lists the variables that flow in one direction, with the storage of each, and knows how
to ask for them, how to check the answer, and how to turn a data package into assignments or
storage into a data package. Functions that return a truth value and change their object return
the pair of both. `none` stands for a call whose behaviour the language leaves undefined. The byte
counter of the source is an `int`; its overflow has no defined behaviour either, so it is a natural
number here.
-/
namespace LibUrx.Rtde
open Bytes Text
set_option autoImplicit false

structure RtdeRecipe where
  active : Bool
  recipeId : Int
  tsNs : Option Nat
  fields : List Token
  cpo : Buf
  cpi : Buf
  bytes : Nat
  dirOut : Bool
  dp : Buf

/-- The bytes behind the 4-byte head of a data package, and their replacement. -/
def payload (dp : Buf) : Buf := fun i => dp (4 + i)

def withPayload (dp data : Buf) : Buf := fun i => if i < 4 then dp i else data (i - 4)

def parseFields : List Token → Buf → Memory → Bool × Buf × Memory
  | [], buf, m => (true, buf, m)
  | tok :: rest, buf, m =>
    match tok.parse buf m with
    | (false, buf, m) => (false, buf, m)
    | (true, buf, m) => parseFields rest buf m

def storeFields : List Token → Memory → Buf → Bool × Buf
  | [], _, buf => (true, buf)
  | tok :: rest, m, buf =>
    match tok.store m buf with
    | (false, buf) => (false, buf)
    | (true, buf) => storeFields rest m buf

namespace RtdeRecipe

def init : RtdeRecipe where
  active := false
  recipeId := -1
  tsNs := none
  fields := []
  cpo := (rtdeControlMsgGet oneHundredTwentyFive).getD fun _ => 0
  cpi := rtdeControlGetIn
  bytes := 0
  dirOut := true
  dp := rtdeHdrGet .dataPackage

def expectedBytes (r : RtdeRecipe) : Nat := r.bytes

def addField (r : RtdeRecipe) (name : List UInt8) (storage : Nat) : Bool × RtdeRecipe :=
  if storage = 0 then (false, r) else
  let token? := if r.dirOut then (outputNameToIdx name).map fun idx => Token.ofOutput name idx storage
    else (inputNameToIdx name).map fun idx => Token.ofInput name idx storage
  match token? with
  | none => (false, r)
  | some token =>
    let token := token.setOffset r.bytes
    (true, { r with fields := r.fields ++ [token], bytes := r.bytes + token.numBytes })

def trackTsNs (r : RtdeRecipe) (m : Memory) (tsNs : Nat) : Bool × RtdeRecipe × Memory :=
  if tsNs = 0 then (false, r, m)
  else (true, { r with tsNs := some tsNs }, m.write tsNs (leBytes 8 0))

/-- Removing the last character of the empty text has no defined behaviour. -/
def getFields (r : RtdeRecipe) : Option (List UInt8) :=
  let res := r.fields.foldl (fun res v => res ++ (v.name ++ [comma])) []
  if res = [] then none else some res.dropLast

def clearFields (r : RtdeRecipe) : RtdeRecipe := { r with fields := [] }

def getMsg (r : RtdeRecipe) : Option (Buf × RtdeRecipe) :=
  r.getFields.map fun names =>
    if r.dirOut then
      let cpo := (rtdeControlMsgOut r.cpo names).2
      (cpo, { r with cpo })
    else
      let cpi := (rtdeControlMsgIn r.cpi names).2
      (cpi, { r with cpi })

def registerResponse (r : RtdeRecipe) (resp : Buf) : Bool × RtdeRecipe :=
  if !rtdeControlPackageRespValidate resp then (false, r) else
  let varlist := getlines comma (respVariables resp)
  if varlist.length ≠ r.fields.length then (false, r) else
  if (r.fields.zip varlist).all fun pair => pair.1.setResponseType pair.2 then
    (true, { r with recipeId := (hdrRecipeId resp).toNat, active := true })
  else (false, r)

def parse (r : RtdeRecipe) (buf : Buf) (ts : UInt64) (m : Memory) : Bool × Buf × Memory :=
  if !r.dirOut then (false, buf, m) else
  match parseFields r.fields buf m with
  | (false, buf, m) => (false, buf, m)
  | (true, buf, m) =>
    match r.tsNs with
    | none => (true, buf, m)
    | some tsNs => (true, buf, m.write tsNs (leBytes 8 ts.toNat))

def store (r : RtdeRecipe) (dp : Buf) (m : Memory) : Bool × Buf :=
  if r.dirOut then (false, dp) else
  let dp := rtdeDataPackageInit dp r.recipeId r.expectedBytes
  let (ok, data) := storeFields r.fields m (payload dp)
  (ok, withPayload dp data)

def setDir (r : RtdeRecipe) (dirOut : Bool) : Bool × RtdeRecipe :=
  if r.dirOut = dirOut then (true, r)
  else if 0 < r.fields.length then (false, r)
  else (true, { r with dirOut })

def dirOutput (r : RtdeRecipe) : Bool × RtdeRecipe := r.setDir true

def dirInput (r : RtdeRecipe) : Bool × RtdeRecipe := r.setDir false

end RtdeRecipe

/-- A call that changes a recipe, with the arguments its user chooses. -/
inductive RecipeCall where
  | dirInput
  | dirOutput
  | addField (name : List UInt8) (storage : Nat)
  | clearFields
  | trackTsNs (tsNs : Nat)
  | registerResponse (resp : Buf)

namespace RtdeRecipe

def call (s : RtdeRecipe × Memory) : RecipeCall → RtdeRecipe × Memory
  | .dirInput => (s.1.dirInput.2, s.2)
  | .dirOutput => (s.1.dirOutput.2, s.2)
  | .addField name storage => ((s.1.addField name storage).2, s.2)
  | .clearFields => (s.1.clearFields, s.2)
  | .trackTsNs tsNs => (s.1.trackTsNs s.2 tsNs).2
  | .registerResponse resp => ((s.1.registerResponse resp).2, s.2)

def afterCalls (m : Memory) (calls : List RecipeCall) : RtdeRecipe := (calls.foldl call (init, m)).1

theorem addField_eq_true {r r' : RtdeRecipe} {name : List UInt8} {storage : Nat}
    (h : r.addField name storage = (true, r')) :
    ∃ tok : Token, tok.WellTyped ∧ tok.offset = r.bytes ∧ tok.name = name ∧ tok.storage = storage ∧
      tok.kind = (if r.dirOut then .output else .input) ∧
      r' = { r with fields := r.fields ++ [tok], bytes := r.bytes + tok.numBytes } := by
  unfold addField at h
  split at h
  · cases h
  · rename_i hStorage
    cases hDir : r.dirOut with
    | true =>
      simp only [hDir, if_true] at h ⊢
      cases hIdx : outputNameToIdx name with
      | none => simp [hIdx] at h
      | some idx =>
        simp only [hIdx, Option.map_some, Prod.mk.injEq, true_and] at h
        exact ⟨_, Token.ofOutput_wellTyped hIdx storage r.bytes, rfl, rfl, rfl, rfl, h.symm⟩
    | false =>
      simp only [hDir, Bool.false_eq_true, if_false] at h ⊢
      cases hIdx : inputNameToIdx name with
      | none => simp [hIdx] at h
      | some idx =>
        simp only [hIdx, Option.map_some, Prod.mk.injEq, true_and] at h
        exact ⟨_, Token.ofInput_wellTyped hIdx hStorage r.bytes, rfl, rfl, rfl, rfl, h.symm⟩

theorem addField_eq_false {r r' : RtdeRecipe} {name : List UInt8} {storage : Nat}
    (h : r.addField name storage = (false, r')) : r' = r := by
  unfold addField at h
  split at h
  · exact (Prod.mk.inj h).2.symm
  · dsimp only at h
    split at h
    · exact (Prod.mk.inj h).2.symm
    · cases h

/-- An answer changes a recipe only by being accepted, and then only its id and activation. -/
theorem registerResponse_cases (r : RtdeRecipe) (resp : Buf) :
    r.registerResponse resp = (false, r) ∨
      r.registerResponse resp = (true, { r with recipeId := (hdrRecipeId resp).toNat, active := true }) := by
  unfold registerResponse
  split
  · exact Or.inl rfl
  · dsimp only
    split
    · exact Or.inl rfl
    · split
      · exact Or.inr rfl
      · exact Or.inl rfl

theorem setDir_cases (r : RtdeRecipe) (dirOut : Bool) :
    (r.setDir dirOut).2 = r ∨ r.fields = [] ∧ r.setDir dirOut = (true, { r with dirOut }) := by
  unfold setDir
  split
  · exact Or.inl rfl
  · split
    · exact Or.inl rfl
    · rename_i h
      exact Or.inr ⟨List.eq_nil_of_length_eq_zero (by omega), rfl⟩

/-- What a call can do to a recipe. -/
inductive Called (r : RtdeRecipe) : RecipeCall → RtdeRecipe → Prop where
  | same (c : RecipeCall) : Called r c r
  | turned (c : RecipeCall) (dirOut : Bool) (empty : r.fields = []) : Called r c { r with dirOut }
  | added {name : List UInt8} {storage : Nat} {r' : RtdeRecipe} (accepted : r.addField name storage = (true, r')) :
      Called r (.addField name storage) r'
  | cleared : Called r .clearFields r.clearFields
  | tracked (tsNs : Nat) : Called r (.trackTsNs tsNs) { r with tsNs := some tsNs }
  | answered {resp : Buf} (accepted : (r.registerResponse resp).1 = true) :
      Called r (.registerResponse resp) { r with recipeId := (hdrRecipeId resp).toNat, active := true }

theorem called_call (s : RtdeRecipe × Memory) (c : RecipeCall) : Called s.1 c (call s c).1 := by
  have hSetDir (dirOut : Bool) : Called s.1 c (s.1.setDir dirOut).2 := by
    cases setDir_cases s.1 dirOut with
    | inl hSame =>
      rw [hSame]
      exact .same c
    | inr hSet =>
      rw [hSet.2]
      exact .turned c dirOut hSet.1
  cases c with
  | dirInput => exact hSetDir false
  | dirOutput => exact hSetDir true
  | addField name storage =>
    cases hAdd : s.1.addField name storage with
    | mk ok r =>
      rw [call, hAdd]
      cases ok with
      | false =>
        rw [addField_eq_false hAdd]
        exact .same _
      | true => exact .added hAdd
  | clearFields => exact .cleared
  | trackTsNs tsNs =>
    rw [call, trackTsNs]
    split
    · exact .same _
    · exact .tracked tsNs
  | registerResponse resp =>
    rw [call]
    cases registerResponse_cases s.1 resp with
    | inl hRefused =>
      rw [hRefused]
      exact .same _
    | inr hTaken =>
      have hAccepted : (s.1.registerResponse resp).1 = true := by rw [hTaken]
      rw [hTaken]
      exact .answered hAccepted

theorem trackTsNs_fields (r : RtdeRecipe) (m : Memory) (tsNs : Nat) :
    (r.trackTsNs m tsNs).2.1.fields = r.fields ∧ (r.trackTsNs m tsNs).2.1.bytes = r.bytes ∧
      (r.trackTsNs m tsNs).2.1.dirOut = r.dirOut := by
  unfold trackTsNs
  split <;> exact ⟨rfl, rfl, rfl⟩

theorem store_header {r : RtdeRecipe} (hDir : r.dirOut = false) (dp : Buf) (m : Memory) :
    hdrType (r.store dp m).2 = PackageType.dataPackage.code ∧
      hdrRecipeId (r.store dp m).2 = UInt8.ofNat (r.recipeId % 256).toNat ∧
      hdrSize (r.store dp m).2 = (4 + r.expectedBytes) % 65536 := by
  have hHead {i : Nat} (hLt : i < 4) :
      (r.store dp m).2 i = rtdeDataPackageInit dp r.recipeId r.expectedBytes i := by
    simp [store, hDir, withPayload, hLt]
  refine ⟨?_, ?_, ?_⟩
  · rw [hdrType, hHead (by decide)]
    exact hdrType_dataPackageInit dp r.recipeId r.expectedBytes
  · exact hHead (by decide)
  · rw [hdrSize_congr (hHead (by decide)) (hHead (by decide)), hdrSize_dataPackageInit]

end RtdeRecipe

end LibUrx.Rtde
