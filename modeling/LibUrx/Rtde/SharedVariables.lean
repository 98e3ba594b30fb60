import LibUrx.Base.Histories
import LibUrx.Rtde.HeardAnswer

/-! # Variables that both sides share

Through its packages a handler sets the controller's registers by name, and the controller's reports set the members of
the handler's output recipe.
-/
namespace LibUrx.Rtde
open Bytes Text Runs Histories
set_option autoImplicit false

namespace Session

/-- A new handler in front of a controller. -/
def start (mem : Memory) (buffer : Buf) (peer : Peer) : Session := ⟨.fresh mem buffer, peer, []⟩

theorem agrees_start (mem : Memory) (buffer : Buf) (peer : Peer) : (start mem buffer peer).Agrees where
  proper _ := RtdeRecipe.proper_init
  distinct _ hMem := absurd hMem List.not_mem_nil
  keys _ hMem := absurd hMem List.not_mem_nil
  inputs _ hMem := absurd hMem List.not_mem_nil
  output _ hOut := by cases hOut
  genuine _ hMem := absurd hMem List.not_mem_nil

theorem answer_of_no_reply {w : World} {x : Exchange} (h : x.sendCode < 0 ∨ x.reply = none) : w.answer x = none := by
  have hCode : (doSendRecv w.buffer packetBytes x).1 < 0 := by
    unfold doSendRecv
    split
    · assumption
    · rename_i hSent
      rw [h.resolve_left hSent]
      exact neg_one_lt_zero
  exact if_pos hCode

/-- Putting together a recipe that has not been accepted yet. -/
theorem Agrees.recipe {s : Session} (h : s.Agrees) {i : Nat} {c : RecipeCall} (hInactive : (s.world.recipes i).active = false)
    (hBuilds : Builds c) {w : World} (hDone : HandlerStep s.world (.recipe i c) w) : Agrees { s with world := w } := by
  have hSame := World.sameIds_step hDone (by rintro _ _ ⟨⟩)
  cases hDone with
  | recipe i hLocal =>
    have hActive {r : RtdeRecipe} {dirOut : Bool} {id : UInt8} (hFiles : s.peer.Files dirOut r id) :
        r ≠ s.world.recipes i := by
      rintro rfl
      cases hInactive.symm.trans hFiles.active
    refine ⟨fun j => ?_, World.SameIds.distinctIds hSame h.distinct, h.keys, ?_, ?_, h.genuine⟩
    · rcases eq_or_ne j i with rfl | hNe
      · change ((s.world.setRecipe j _).recipes j).Proper
        rw [World.setRecipe_self]
        exact (h.proper j).builds hBuilds (RtdeRecipe.called_call (s.world.recipes j, s.world.mem) c)
      · change ((s.world.setRecipe i _).recipes j).Proper
        rw [World.setRecipe_of_ne hNe]
        exact h.proper j
    · intro e hMem
      obtain ⟨id, hFiles⟩ := h.inputs e hMem
      refine ⟨id, ?_⟩
      change s.peer.Files false ((s.world.setRecipe i _).recipes e.2) id
      rw [World.setRecipe_of_ne fun hEq => hActive hFiles (congrArg _ hEq)]
      exact hFiles
    · intro j hOut
      obtain ⟨id, hFiles⟩ := h.output j hOut
      refine ⟨id, ?_⟩
      change s.peer.Files true ((s.world.setRecipe i _).recipes j) id
      rw [World.setRecipe_of_ne fun hEq => hActive hFiles (congrArg _ hEq)]
      exact hFiles

theorem Agrees.step {s t : Session} {a : SessionAction} (h : s.Agrees) (hOrderly : s.Orderly a) (hStep : s.Step a t) :
    t.Agrees ∧ t.peer.registers = setAll s.peer.registers (s.told a) := by
  cases hStep with
  | unsent done code =>
    obtain ⟨hStays, hTold⟩ := unanswered (answer_of_no_reply (Or.inl code)) done
    rw [hTold]
    exact ⟨h.stays hStays (.refl _) h.genuine, rfl⟩
  | unheard asks fresh answers done code reply =>
    obtain ⟨hGrows, hRegisters, hNot⟩ := h.grows hOrderly.1 asks fresh answers
    obtain ⟨hStays, hTold⟩ := unanswered (answer_of_no_reply (Or.inr reply)) done
    rw [hTold]
    refine ⟨h.stays hStays hGrows fun m hMem => ?_, hRegisters⟩
    rcases List.mem_append.mp hMem with hOld | hNew
    · exact hGrows.genuine (h.genuine m hOld)
    · rw [List.mem_singleton.mp hNew]
      refine ⟨?_, fun _ => hNot⟩
      rintro _ _ ⟨⟩
  | heard asks fresh answers queue done code reply =>
    rw [hOrderly.2, List.nil_append] at queue
    obtain ⟨rfl, rfl⟩ := List.cons.inj queue
    cases done with
    | register hRegister => exact h.heard hOrderly.1 asks fresh answers reply code hRegister
  | @send w recipeId sendCode done =>
    cases done
    have hGrows : s.peer.Grows (if 0 < sendCode then
        (handed s.world (s.world.send recipeId sendCode).2 0).foldl Peer.take s.peer else s.peer) := by
      split
      · exact s.peer.grows_takes _
      · exact .refl _
    refine ⟨h.stays (s.world.stays_send recipeId sendCode) hGrows fun m hMem => hGrows.genuine (h.genuine m hMem), ?_⟩
    rw [told]
    split
    · rcases World.send_cases s.world recipeId sendCode with ⟨hSend, hNone⟩ | ⟨e, hFind, hMem, -, hSend⟩
      · have hNot : (s.world.recipesIn.find? fun e => (s.world.recipes e.2).recipeId == recipeId) = none :=
          List.find?_eq_none.mpr fun e hMem => by simpa using hNone e hMem
        rw [hSend, hNot, handed, Nat.add_zero, List.drop_length]
        rfl
      · rw [hSend, hFind, h.sentBy hMem]
    · rfl
  | receive queue done =>
    have hStays := World.stays_of_step done (by rintro _ _ ⟨⟩) (by rintro _ _ ⟨⟩)
    refine ⟨h.stays hStays (.refl _) fun m hMem => h.genuine m ?_, rfl⟩
    rw [queue]
    exact List.mem_cons_of_mem _ hMem
  | @other w c done only =>
    cases c with
    | register | send => cases only
    | recipe i c => exact ⟨h.recipe hOrderly.1 hOrderly.2 done, rfl⟩
    | recv | setVersion | getUrVersion | start | stop | assign =>
      have hStays := World.stays_of_step done (by rintro _ _ ⟨⟩) (by rintro _ _ ⟨⟩)
      exact ⟨h.stays hStays (.refl _) h.genuine, rfl⟩
  | report reports filed =>
    refine ⟨⟨h.proper, h.distinct, h.keys, h.inputs, h.output, fun m hMem => ?_⟩, rfl⟩
    rcases List.mem_append.mp hMem with hOld | hNew
    · exact h.genuine m hOld
    · rw [List.mem_singleton.mp hNew]
      refine ⟨fun _ _ hKnown => ?_, by rintro ⟨⟩⟩
      obtain ⟨rfl, rfl⟩ := Prod.mk.inj (Option.some.inj hKnown)
      exact ⟨reports, filed⟩
  | lose queue =>
    refine ⟨⟨h.proper, h.distinct, h.keys, h.inputs, h.output, fun m hMem => h.genuine m ?_⟩, rfl⟩
    rw [queue]
    exact List.mem_cons_of_mem _ hMem

theorem agrees_of_run {mem : Memory} {buffer : Buf} {peer : Peer} {s : Session} {actions : List SessionAction}
    (hRun : Path (Restrict Orderly Step) (start mem buffer peer) actions s) : s.Agrees :=
  hRun.invariant (p := Agrees) (fun _ _ _ h hStep => (h.step hStep.1 hStep.2).1) (agrees_start mem buffer peer)

/-- For a recipe that has been filed, a send call tells what its members hold. -/
theorem Agrees.told_send {s : Session} (h : s.Agrees) {e : Int × Nat} (hMem : e ∈ s.world.recipesIn) {sendCode : Int}
    (hSent : 0 < sendCode) : s.told (.call (.send (s.world.recipes e.2).recipeId sendCode)) =
      (s.world.recipes e.2).values s.world.mem := by
  rw [told, if_pos hSent]
  rcases World.send_cases s.world (s.world.recipes e.2).recipeId sendCode with ⟨-, hNone⟩ | ⟨e', hFind, hMem', hId, -⟩
  · exact absurd rfl (hNone e hMem)
  · rw [hFind, ← h.distinct e' hMem' e hMem hId]

/-- Every step sets the controller's registers to what it is told of the members, name by name, and leaves all others
alone. For a recipe that has been filed, a send call tells what its members hold. -/
theorem registers_follow_members {mem : Memory} {buffer : Buf} {peer : Peer} {s t : Session} {actions : List SessionAction}
    {a : SessionAction} (hRun : Path (Restrict Orderly Step) (start mem buffer peer) actions s) (hOrderly : s.Orderly a)
    (hStep : s.Step a t) : t.peer.registers = setAll s.peer.registers (s.told a) ∧
      ∀ e ∈ s.world.recipesIn, ∀ sendCode : Int, 0 < sendCode →
        s.told (.call (.send (s.world.recipes e.2).recipeId sendCode)) = (s.world.recipes e.2).values s.world.mem := by
  have h := agrees_of_run hRun
  exact ⟨(h.step hOrderly hStep).2, fun e hMem sendCode hSent => h.told_send hMem hSent⟩

def noneFiled : Peer := ⟨fun _ => none, fun _ => none, fun _ => none⟩

/-- The controller files what is asked for and answers, and the handler is content with it. -/
theorem step_registered {w w' : World} {p : Peer} {i : Nat} {g : Registration} {packet : Buf} {r : RtdeRecipe} {id : UInt8}
    {provides : List UInt8 → DataType} {answer : List UInt8} {ok : Bool}
    (hMsg : (w.recipes i).getMsg = some (packet, r)) (hFresh : p.filed (w.recipes i).dirOut id = none)
    (hAnswer : (p.ask id provides (frameOf packet)).1 = answer) (hReply : g.exchange = ⟨1, some answer⟩)
    (hSend : g.initialSend = 0) (hRegister : w.registerRecipe i g = some (ok, w')) :
    Step ⟨w, p, []⟩ (.call (.register i g)) ⟨w', (p.ask id provides (frameOf packet)).2, []⟩ := by
  have hHeard := Step.heard (s := ⟨w, p, []⟩) hMsg hFresh (Prod.ext hAnswer rfl) rfl (.register hRegister)
    (by rw [hReply]; exact zero_le_one) (by rw [hReply])
  rwa [hSend, if_neg (lt_irrefl 0)] at hHeard

/-- A new handler, after these calls of its first recipe. -/
def putTogether (calls : List RecipeCall) : World :=
  calls.foldl (fun w c => { w.setRecipe 0 (RtdeRecipe.call (w.recipes 0, w.mem) c).1 with
    mem := (RtdeRecipe.call (w.recipes 0, w.mem) c).2 }) (World.fresh ⟨fun _ => 0, []⟩ fun _ => 0)

/-- A recipe of one variable is put together and registered. The controller files it under id 1. -/
theorem path_registered {turn : RecipeCall} {name answer : List UInt8} {a : Nat} {g : Registration} {packet : Buf}
    {r : RtdeRecipe} {provides : List UInt8 → DataType} {ok : Bool} {w : World}
    (hTurn : turn = .dirInput ∨ turn = .dirOutput) (hName : 0 ∉ name)
    (hFits : ((putTogether [turn, .addField name a]).recipes 0).FitsPacket)
    (hMsg : ((putTogether [turn, .addField name a]).recipes 0).getMsg = some (packet, r))
    (hAnswer : (noneFiled.ask 1 provides (frameOf packet)).1 = answer) (hReply : g.exchange = ⟨1, some answer⟩)
    (hSend : g.initialSend = 0)
    (hRegister : (putTogether [turn, .addField name a]).registerRecipe 0 g = some (ok, w)) :
    Path (Restrict Orderly Step) (start ⟨fun _ => 0, []⟩ (fun _ => 0) noneFiled)
      [.call (.recipe 0 turn), .call (.recipe 0 (.addField name a)), .call (.register 0 g)]
      ⟨w, (noneFiled.ask 1 provides (frameOf packet)).2, []⟩ := by
  have hFirst : ((putTogether [turn]).recipes 0).active = false ∧ Builds turn := by
    rcases hTurn with rfl | rfl <;> exact ⟨rfl, trivial⟩
  have hFresh (dirOut : Bool) : noneFiled.filed dirOut 1 = none := by cases dirOut <;> rfl
  exact .cons ⟨⟨rfl, hFirst.2⟩, .other (.recipe _ 0 (by rintro _ rfl; exact hFirst.2)) rfl⟩
    (.cons ⟨⟨hFirst.1, hName⟩, .other (.recipe _ 0 (by rintro _ ⟨⟩)) rfl⟩
      (.cons ⟨⟨hFits, rfl⟩, step_registered hMsg (hFresh _) hAnswer hReply hSend hRegister⟩ (.nil _)))

/-- The controller's answer, and no package with the members yet. -/
def underOne (type : PackageType) (types : List DataType) : Registration where
  exchange := ⟨1, some (typesAnswer type 1 types)⟩
  order := .asInserted
  initialSend := 0

set_option maxRecDepth 100000 in
theorem registers_follow_members_send : ∃ s t : Session, s.world.recipesIn = [(1, 0)] ∧
    s.Step (.call (.send 1 8)) t ∧
    t.peer.registers = setAll s.peer.registers ((s.world.recipes 0).values s.world.mem) := by
  have hDone : ((putTogether [.dirInput, .addField (text "input_int_register_0") 8]).registerRecipe 0
      (underOne .setupInputs [.int32])).map (fun p => (p.2.recipesIn, (p.2.recipes 0).recipeId)) = some ([(1, 0)], 1) := by
    decide +kernel
  have hAsks : (((putTogether [.dirInput, .addField (text "input_int_register_0") 8]).recipes 0).getMsg).map
      (fun p => (noneFiled.ask 1 (fun _ => .int32) (frameOf p.1)).1) = some (typesAnswer .setupInputs 1 [.int32]) := by
    decide +kernel
  obtain ⟨⟨ok, w⟩, hRegister, hFacts⟩ := Option.map_eq_some_iff.mp hDone
  obtain ⟨⟨packet, r⟩, hMsg, hAnswer⟩ := Option.map_eq_some_iff.mp hAsks
  obtain ⟨hIn, hId⟩ := Prod.mk.inj hFacts
  have hPath := path_registered (Or.inl rfl) (by decide +kernel)
    ⟨by decide +kernel, by decide +kernel, by decide +kernel⟩ hMsg hAnswer rfl rfl hRegister
  have hStep := Step.send (s := ⟨w, (noneFiled.ask 1 (fun _ => .int32) (frameOf packet)).2, []⟩) (.send w 1 8)
  obtain ⟨hRegisters, hTold⟩ := registers_follow_members (a := .call (.send 1 8)) hPath trivial hStep
  have hValues := hTold (1, 0) (by rw [hIn]; exact List.mem_singleton_self _) 8 (by decide)
  rw [hId] at hValues
  rw [hValues] at hRegisters
  exact ⟨_, _, hIn, hStep, hRegisters⟩

/-- A frame that is no report of the handler's output recipe leaves the members as they are. -/
theorem mem_of_refused {w w' : World} {i : Nat} (hOut : w.out = some i) {m : Incoming} {p : Peer} (hGenuine : p.Genuine m)
    (hOther : ∀ id known, m.known = some (id, known) → (w.recipes i).recipeId ≠ id.toNat ∨ id = 0) {ts : UInt64}
    (hStep : HandlerStep w (.recv (some m.frame) ts) w') : w'.mem = w.mem := by
  have hByte {k : Nat} {c : UInt8} (hFour : k < 4) (hGet : m.frame[k]? = some c) :
      (doRecv w.buffer packetBytes (some m.frame)).2 k = c := by
    obtain ⟨hLt, rfl⟩ := List.getElem?_eq_some_iff.mp hGet
    have hPacket : packetBytes = 2048 := rfl
    have hTake : k < (m.frame.take packetBytes).length := by
      rw [List.length_take]
      omega
    rw [doRecv_known w.buffer hTake.le (by omega), ofBytes_of_lt hTake, List.getElem_take]
  have hRefused : ¬ World.Accepts (w.recipes i) (doRecv w.buffer packetBytes (some m.frame)).2 := by
    rintro ⟨hType, hNonzero, hId, -⟩
    cases hKnown : m.known with
    | none =>
      obtain ⟨hNot, hLong⟩ := hGenuine.answer hKnown
      obtain ⟨c, hGet⟩ : ∃ c, m.frame[2]? = some c := ⟨_, List.getElem?_eq_getElem hLong⟩
      rw [hdrType, hByte (by decide) hGet] at hType
      rw [isPackage, hGet, hType, beq_self_eq_true] at hNot
      cases hNot
    | some report =>
      obtain ⟨id, known⟩ := report
      have hUnder := (hGenuine.report id known hKnown).1.under
      rw [hdrRecipeId, hByte (by decide) hUnder] at hNonzero hId
      rcases hOther id known hKnown with hNe | hZero
      · exact hNe hId.symm
      · exact hNonzero hZero
  cases hStep with
  | recv hRecv =>
    rw [World.recv_some, World.parseIncomingData_refused hOut hRefused] at hRecv
    rw [← (Prod.mk.inj (Option.some.inj hRecv)).2]

theorem world_of_recv {s t : Session} {reply : Option (List UInt8)} {ts : UInt64}
    (h : s.Step (.call (.recv reply ts)) t) : HandlerStep s.world (.recv reply ts) t.world := by
  cases h with
  | receive queue done => exact done
  | other done only => exact done

section Reports

variable {s : Session} {front : Incoming} {rest : List Incoming} {i : Nat} {w : World} {ts : UInt64}

theorem Agrees.takes_report (h : s.Agrees) (hFront : s.toHandler = front :: rest)
    (hDone : HandlerStep s.world (.recv (some front.frame) ts) w) (hOut : s.world.out = some i) {id : UInt8}
    {known : Variables} (hKnown : front.known = some (id, known)) (hId : (s.world.recipes i).recipeId = id.toNat)
    (hNonzero : id ≠ 0) (hApart : (s.world.recipes i).DisjointTargets) :
    (s.world.recipes i).values w.mem = (s.world.recipes i).fields.map fun tok => (tok.name, known tok.name) := by
  have hGenuine := h.genuine front (by rw [hFront]; exact List.mem_cons_self)
  obtain ⟨id', hFiles⟩ := h.output i hOut
  obtain rfl : id' = id := by
    have hSame := hFiles.under.symm.trans hId
    exact UInt8.toNat_inj.mp (by omega)
  obtain ⟨w', hRecv, hValues⟩ := World.takes_report hOut (h.proper i) hFiles.dir hFiles.fits hApart hFiles.under hNonzero
    hFiles.listed (hGenuine.report _ _ hKnown).1 ts
  cases hDone with
  | recv hAgain =>
    rw [(Prod.mk.inj (Option.some.inj (hAgain.symm.trans hRecv))).2]
    exact hValues

theorem Agrees.leaves_others (h : s.Agrees) (hFront : s.toHandler = front :: rest)
    (hDone : HandlerStep s.world (.recv (some front.frame) ts) w) (hOut : s.world.out = some i)
    (hOther : ∀ id known, front.known = some (id, known) → (s.world.recipes i).recipeId ≠ id.toNat ∨ id = 0) :
    w.mem = s.world.mem := by
  have hGenuine := h.genuine front (by rw [hFront]; exact List.mem_cons_self)
  exact mem_of_refused hOut hGenuine hOther hDone

end Reports

/-- A report of the handler's output recipe leaves in its members what was known when it was sent; all else that
arrives leaves the members as they are. -/
theorem reported_values_are_members {mem : Memory} {buffer : Buf} {peer : Peer} {s t : Session} {actions : List SessionAction}
    {front : Incoming} {rest : List Incoming} {ts : UInt64} {i : Nat}
    (hRun : Path (Restrict Orderly Step) (start mem buffer peer) actions s) (hFront : s.toHandler = front :: rest)
    (hStep : s.Step (.call (.recv (some front.frame) ts)) t) (hOut : s.world.out = some i) :
    (∀ id known, front.known = some (id, known) → (s.world.recipes i).recipeId = id.toNat → id ≠ 0 →
        (s.world.recipes i).DisjointTargets → (s.world.recipes i).values t.world.mem =
          (s.world.recipes i).fields.map fun tok => (tok.name, known tok.name)) ∧
      ((∀ id known, front.known = some (id, known) → (s.world.recipes i).recipeId ≠ id.toNat ∨ id = 0) →
        t.world.mem = s.world.mem) := by
  have h := agrees_of_run hRun
  have hDone := world_of_recv hStep
  exact ⟨fun _ _ hKnown hId hNonzero hApart => h.takes_report hFront hDone hOut hKnown hId hNonzero hApart,
    fun hOther => h.leaves_others hFront hDone hOut hOther⟩

set_option maxRecDepth 100000 in
theorem reported_values_are_members_receive : ∃ s t : Session, s.toHandler = [⟨[0, 8, 85, 1, 0, 0, 0, 5],
      some (1, fun _ => some (.int32 5))⟩] ∧ s.Step (.call (.recv (some [0, 8, 85, 1, 0, 0, 0, 5]) 0)) t ∧
    (s.world.recipes 0).values t.world.mem = (s.world.recipes 0).fields.map fun tok => (tok.name, some (.int32 5)) := by
  have hDone : ((putTogether [.dirOutput, .addField (text "output_int_register_0") 8]).registerRecipe 0
      (underOne .setupOutputs [.int32])).bind (fun p => (p.2.recv (some [0, 8, 85, 1, 0, 0, 0, 5]) 0).map fun _ =>
        (p.2.out, (p.2.recipes 0).recipeId, decide (p.2.recipes 0).DisjointTargets)) = some (some 0, 1, true) := by
    decide +kernel
  have hAsks : (((putTogether [.dirOutput, .addField (text "output_int_register_0") 8]).recipes 0).getMsg).map
      (fun p => ((noneFiled.ask 1 (fun _ => .int32) (frameOf p.1)).1,
        (noneFiled.ask 1 (fun _ => .int32) (frameOf p.1)).2.outputs 1)) =
      some (typesAnswer .setupOutputs 1 [.int32], some [(text "output_int_register_0", .int32)]) := by
    decide +kernel
  obtain ⟨⟨ok, w⟩, hRegister, hRest⟩ := Option.bind_eq_some_iff.mp hDone
  obtain ⟨⟨taken, w'⟩, hRecv, hFacts⟩ := Option.map_eq_some_iff.mp hRest
  obtain ⟨⟨packet, r⟩, hMsg, hAsked⟩ := Option.map_eq_some_iff.mp hAsks
  simp only [Prod.mk.injEq, decide_eq_true_eq] at hFacts hAsked
  obtain ⟨hOut, hId, hApart⟩ := hFacts
  obtain ⟨hAnswer, hFiled⟩ := hAsked
  have hPath := path_registered (Or.inr rfl) (by decide +kernel)
    ⟨by decide +kernel, by decide +kernel, by decide +kernel⟩ hMsg hAnswer rfl rfl hRegister
  generalize (noneFiled.ask 1 (fun _ => .int32) (frameOf packet)).2 = p at hPath hFiled
  have hReports : p.Reports 1 (fun _ => some (.int32 5)) [0, 8, 85, 1, 0, 0, 0, 5] := by
    refine ⟨rfl, rfl, rfl, fun listed hListed => ?_⟩
    obtain rfl := Option.some.inj (hFiled.symm.trans hListed)
    exact ⟨[.int32 5], rfl, rfl⟩
  have hReport : Restrict Orderly Step ⟨w, p, []⟩ .report
      ⟨w, p, [⟨[0, 8, 85, 1, 0, 0, 0, 5], some (1, fun _ => some (.int32 5))⟩]⟩ :=
    ⟨trivial, .report hReports (by rw [hFiled]; simp)⟩
  have hStep := Step.receive (s := ⟨w, p, [⟨[0, 8, 85, 1, 0, 0, 0, 5], some (1, fun _ => some (.int32 5))⟩]⟩) rfl
    (.recv hRecv)
  have hMembers := reported_values_are_members (path_concat hPath hReport) rfl hStep hOut
  exact ⟨_, _, rfl, hStep, hMembers.1 1 _ rfl hId (by decide) hApart⟩

end Session

end LibUrx.Rtde
