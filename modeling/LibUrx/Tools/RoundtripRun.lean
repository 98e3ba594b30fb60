import LibUrx.Base.Provenance
import LibUrx.Tools.Roundtrip

/-! # Samples are round trips

A number wanders from the tool through the controller's input register, its program, its output register and a report
back into the tool. Old numbers are ahead of it, and a sample is taken when the number that has been sent comes out.
-/
namespace LibUrx.Tools
open Bytes Text Rtde Runs Histories Provenance
set_option autoImplicit false

/-- Both recipes of the tool are registered. -/
structure Registered (l : Locals) (id : Int) (s : Session) : Prop where
  out : s.world.out = some 0
  reported : (s.world.recipes 0).listing = [(text "timestamp", .double, l.ts), (outRegister, .int32, l.outSeqnr)]
  unstamped : (s.world.recipes 0).tsNs = none
  filed : ∃ key, (key, 1) ∈ s.world.recipesIn
  under : (s.world.recipes 1).recipeId = id
  told : (s.world.recipes 1).listing = [(inRegister, .int32, l.inSeqnr)]

structure Ready (l : Locals) (id : Int) (s : Session) : Prop extends Registered l id s where
  agrees : s.Agrees

/-- The numbers in the reports that wait for the handler. -/
def numbers (queue : List Incoming) : List Number := queue.filterMap fun m => m.known.map fun p => p.2 outRegister

/-- The numbers in their places, from the controller's input register to the tool's variable. -/
def places (register held shown : Number) (queue : List Incoming) (member : Number) : List (Nat × Number) :=
  ((1, register) :: (2, held) :: (3, shown) :: (numbers queue).reverse.map fun v => (4, v)) ++ [(4, member)]

theorem places_sublist {queue queue' : List Incoming} {member member' : Number}
    (h : ((numbers queue').reverse ++ [member']).Sublist ((numbers queue).reverse ++ [member]))
    (register held shown : Number) :
    (places register held shown queue' member').Sublist (places register held shown queue member) := by
  have hMapped := h.map fun v => ((4, v) : Nat × Number)
  rw [List.map_append, List.map_append] at hMapped
  exact ((hMapped.cons_cons _).cons_cons _).cons_cons _

theorem setAll_singleton_self (registers : Variables) (name : List UInt8) (v : Option WireValue) :
    setAll registers [(name, v)] name = v := if_pos rfl

section Steps

variable {l : Locals} {id : Int} {s t : Session}

/-- What the loop does to the recipes is to use them. -/
theorem Registered.keeps (h : Registered l id s) (hOut : t.world.out = s.world.out)
    (hIn : t.world.recipesIn = s.world.recipesIn)
    (hSame : ∀ i, (t.world.recipes i).listing = (s.world.recipes i).listing ∧
      (t.world.recipes i).tsNs = (s.world.recipes i).tsNs ∧
      (t.world.recipes i).recipeId = (s.world.recipes i).recipeId) : Registered l id t where
  out := hOut.trans h.out
  reported := (hSame 0).1.trans h.reported
  unstamped := (hSame 0).2.1.trans h.unstamped
  filed := hIn ▸ h.filed
  under := (hSame 1).2.2.trans h.under
  told := (hSame 1).1.trans h.told

theorem Ready.assigns (h : Ready l id s) {a : Nat} {bs : List UInt8} (hStep : s.Step (.call (.assign a bs)) t) :
    Ready l id t ∧ t.world.mem = s.world.mem.write a bs ∧ t.toHandler = s.toHandler ∧ t.peer = s.peer := by
  have hAgrees := (h.agrees.step (a := .call (.assign a bs)) trivial hStep).1
  cases hStep with
  | other done only =>
    cases done
    exact ⟨⟨h.toRegistered.keeps rfl rfl fun _ => ⟨rfl, rfl, rfl⟩, hAgrees⟩, rfl, rfl, rfl⟩

theorem Ready.sends (h : Ready l id s) {sendCode : Int} (hStep : s.Step (.call (.send id sendCode)) t) :
    Ready l id t ∧ t.world.mem = s.world.mem ∧ t.toHandler = s.toHandler ∧ t.peer.registers inRegister =
      if 0 < sendCode then numberAt s.world.mem l.inSeqnr else s.peer.registers inRegister := by
  obtain ⟨hAgrees, hRegisters⟩ := h.agrees.step (a := .call (.send id sendCode)) trivial hStep
  obtain ⟨key, hFiled⟩ := h.filed
  have hTold : 0 < sendCode → s.told (.call (.send id sendCode)) =
      [(inRegister, numberAt s.world.mem l.inSeqnr)] := by
    intro hSent
    have hValues := h.agrees.told_send hFiled hSent
    rw [h.under, (h.agrees.proper 1).formed.values_eq, h.told] at hValues
    exact hValues
  have hRegister : t.peer.registers inRegister =
      if 0 < sendCode then numberAt s.world.mem l.inSeqnr else s.peer.registers inRegister := by
    rw [hRegisters]
    split
    · rename_i hSent
      rw [hTold hSent]
      exact setAll_singleton_self _ _ _
    · rename_i hNot
      rw [Session.told, if_neg hNot]
      rfl
  cases hStep with
  | send done =>
    cases done
    refine ⟨⟨?_, hAgrees⟩, ?_, rfl, hRegister⟩
    · rcases World.send_cases s.world id sendCode with ⟨hSend, -⟩ | ⟨e, -, -, -, hSend⟩
      · rw [hSend]
        exact h.toRegistered.keeps rfl rfl fun _ => ⟨rfl, rfl, rfl⟩
      · rw [hSend]
        refine h.toRegistered.keeps rfl rfl fun i => ?_
        change ((s.world.setRecipe e.2 _).recipes i).listing = _ ∧ ((s.world.setRecipe e.2 _).recipes i).tsNs = _ ∧
          ((s.world.setRecipe e.2 _).recipes i).recipeId = _
        rcases eq_or_ne i e.2 with rfl | hNe
        · rw [World.setRecipe_self]
          exact ⟨rfl, rfl, rfl⟩
        · rw [World.setRecipe_of_ne hNe]
          exact ⟨rfl, rfl, rfl⟩
    · rcases World.send_cases s.world id sendCode with ⟨hSend, -⟩ | ⟨e, -, -, -, hSend⟩
      · exact congrArg (fun p => World.mem p.2) hSend
      · exact congrArg (fun p => World.mem p.2) hSend
  | other _ only => cases only

/-- A report that the handler takes leaves its number in `out_seqnr`. -/
theorem Ready.takes_report (h : Ready l id s) {front : Incoming} {rest : List Incoming} {w : World} {rxTs : UInt64}
    (hFront : s.toHandler = front :: rest) (hDone : HandlerStep s.world (.recv (some front.frame) rxTs) w)
    {id' : UInt8} {known : Variables} (hKnown : front.known = some (id', known))
    (hId : (s.world.recipes 0).recipeId = id'.toNat) (hNonzero : id' ≠ 0) :
    numberAt w.mem l.outSeqnr = known outRegister := by
  have hFormed := (h.agrees.proper 0).formed
  have hApart : (s.world.recipes 0).DisjointTargets := by
    rw [RtdeRecipe.DisjointTargets, hFormed.targets_eq, h.reported, h.unstamped]
    exact List.pairwise_pair.mpr l.stampOut
  have hValues := h.agrees.takes_report hFront hDone h.out hKnown hId hNonzero hApart
  have hNames : (s.world.recipes 0).fields.map (fun tok => (tok.name, known tok.name)) =
      (s.world.recipes 0).listing.map fun e => (e.1, known e.1) := by
    rw [RtdeRecipe.listing, List.map_map]
    rfl
  rw [hNames, hFormed.values_eq, h.reported] at hValues
  obtain ⟨-, hSecond⟩ := List.cons.inj hValues
  exact (Prod.mk.inj (List.cons.inj hSecond).1).2

theorem world_of_other {w : World} {rxTs : UInt64} (hDone : HandlerStep s.world (.recv none rxTs) w) :
    w.mem = s.world.mem := by
  cases hDone with
  | recv hRecv =>
    obtain ⟨-, rfl⟩ := Prod.mk.inj (Option.some.inj hRecv)
    rfl

/-- The newest number to come out is the one in front of the queue, if it is taken. -/
theorem Ready.receives (h : Ready l id s) {reply : Option (List UInt8)} {rxTs : UInt64}
    (hStep : s.Step (.call (.recv reply rxTs)) t) :
    Ready l id t ∧ t.peer = s.peer ∧ numberAt t.world.mem l.inSeqnr = numberAt s.world.mem l.inSeqnr ∧
      ((numbers t.toHandler).reverse ++ [numberAt t.world.mem l.outSeqnr]).Sublist
        ((numbers s.toHandler).reverse ++ [numberAt s.world.mem l.outSeqnr]) := by
  have hAgrees := (h.agrees.step (a := .call (.recv reply rxTs)) trivial hStep).1
  have hDone := Session.world_of_recv hStep
  have hFormed := (h.agrees.proper 0).formed
  obtain ⟨_, hFiles⟩ := h.agrees.output 0 h.out
  have hRead : t.world.mem.read l.inSeqnr 4 = s.world.mem.read l.inSeqnr 4 := by
    refine World.read_recv h.out hFormed hFiles.dir ?_ hDone
    rw [hFormed.targets_eq, h.reported, h.unstamped]
    intro target hMem
    rcases List.mem_pair.mp hMem with rfl | rfl
    · exact l.stampIn
    · exact l.outIn
  have hKeeps : Registered l id t := by
    cases hDone with
    | recv hRecv =>
      obtain ⟨buffer, mem, hWorld⟩ := World.recv_eq_some hRecv
      refine h.toRegistered.keeps (by rw [hWorld]) (by rw [hWorld]) fun i => ?_
      rw [hWorld]
      exact ⟨rfl, rfl, rfl⟩
  refine ⟨⟨hKeeps, hAgrees⟩, ?_, by rw [numberAt, numberAt, hRead], ?_⟩
  · cases hStep <;> rfl
  · cases hStep with
    | @receive w front rest _ queue done =>
      rw [queue]
      cases hKnown : front.known with
      | none =>
        rw [h.agrees.leaves_others queue done h.out (by rw [hKnown]; rintro _ _ ⟨⟩), numbers, numbers,
          List.filterMap_cons_none (by rw [hKnown]; rfl)]
      | some report =>
        obtain ⟨id', known⟩ := report
        rw [numbers, numbers, List.filterMap_cons_some (b := known outRegister) (by rw [hKnown]; rfl), List.reverse_cons]
        by_cases hOurs : (s.world.recipes 0).recipeId = id'.toNat ∧ id' ≠ 0
        · rw [h.takes_report queue done hKnown hOurs.1 hOurs.2]
          exact List.sublist_append_left _ _
        · have hOther : ∀ id known, front.known = some (id, known) →
              (s.world.recipes 0).recipeId ≠ id.toNat ∨ id = 0 := by
            intro _ _ hSame
            obtain ⟨rfl, -⟩ := Prod.mk.inj (Option.some.inj (hKnown.symm.trans hSame))
            exact (not_and_or.mp hOurs).imp_right not_not.mp
          rw [h.agrees.leaves_others queue done h.out hOther]
          exact (List.sublist_append_left _ _).append (List.Sublist.refl _)
    | other done only =>
      cases reply with
      | none => rw [world_of_other done]
      | some bytes => cases only

theorem Ready.loses (h : Ready l id s) (hStep : s.Step .lose t) : Ready l id t ∧ t.world = s.world ∧ t.peer = s.peer ∧
    (numbers t.toHandler).reverse.Sublist (numbers s.toHandler).reverse := by
  have hAgrees := (h.agrees.step (a := .lose) trivial hStep).1
  cases hStep with
  | lose queue =>
    refine ⟨⟨h.toRegistered.keeps rfl rfl fun _ => ⟨rfl, rfl, rfl⟩, hAgrees⟩, rfl, rfl, ?_⟩
    rw [queue]
    exact List.reverse_sublist.mpr ((List.sublist_cons_self _ _).filterMap _)

theorem Ready.reports (h : Ready l id s) {id' : UInt8} {known : Variables} {frame : List UInt8}
    (hReports : s.peer.Reports id' known frame) (hFiled : s.peer.outputs id' ≠ none) :
    Ready l id { s with toHandler := s.toHandler ++ [⟨frame, some (id', known)⟩] } ∧
      (numbers (s.toHandler ++ [⟨frame, some (id', known)⟩])).reverse =
        known outRegister :: (numbers s.toHandler).reverse := by
  refine ⟨⟨h.toRegistered.keeps rfl rfl fun _ => ⟨rfl, rfl, rfl⟩,
    (h.agrees.step (a := .report) trivial (.report hReports hFiled)).1⟩, ?_⟩
  rw [numbers, List.filterMap_append, List.reverse_append]
  rfl

end Steps

/-- The stages of a number, and those that a number in a place has gone through. -/
def stages (v : Number) : List RoundtripEvent := [.begun v, .sent v, .read v, .wrote v, .reported v]

def Reached (history : List RoundtripEvent) (p : Nat × Number) : Prop :=
  ((stages p.2).take (p.1 + 1)).Sublist history

theorem Reached.append {history : List RoundtripEvent} {p : Nat × Number} (h : Reached history p)
    (newer : List RoundtripEvent) : Reached (history ++ newer) p :=
  h.trans (List.sublist_append_left _ _)

theorem Reached.next {history : List RoundtripEvent} {n : Nat} {v : Number} (h : Reached history (n, v))
    {event : RoundtripEvent} (hStage : (stages v)[n + 1]? = some event) : Reached (history ++ [event]) (n + 1, v) := by
  rw [Reached, List.take_add_one, hStage]
  exact List.Sublist.append h (List.Sublist.refl _)

namespace Roundtrip

def pipeline (l : Locals) (s : Roundtrip) : List (Nat × Number) :=
  places (s.session.peer.registers inRegister) s.held s.shown s.session.toHandler (numberAt s.memory l.outSeqnr)

/-- The number behind the one in a variable. -/
def following (m : Memory) (a : Nat) : Number := hostValue .int32 (leBytes 4 (leNat (m.read a 4) + 1))

/-- The loop begins with a number that is in none of the places yet. -/
structure Begins (l : Locals) (s : Roundtrip) : Prop where
  place : s.place = .count
  errCtr : s.errCtr = 100
  samples : s.samples = []
  history : s.history = []
  unused : ∀ p ∈ s.pipeline l, p.2 ≠ following s.memory l.inSeqnr

structure Sound (l : Locals) (id : Int) (first : Number) (s : Roundtrip) : Prop where
  ready : Ready l id s.session
  count : s.place = .count → s.samples = [] → following s.memory l.inSeqnr = first
  begun : s.place = .again ∨ s.place = .waiting → .begun (numberAt s.memory l.inSeqnr) ∈ s.history ∧
    (s.samples = [] → numberAt s.memory l.inSeqnr = first)
  pipeline : NewFirst (Reached s.history) (fun p => s.samples = [] ∧ p.2 ≠ first) (s.pipeline l)
  real : AtEach (fun before event => ∀ v, event = .sampled v → (stages v).Sublist before) s.history

theorem real_append {s : Roundtrip} {newer : List RoundtripEvent}
    (h : AtEach (fun before event => ∀ v, event = .sampled v → (stages v).Sublist before) s.history)
    (hNewer : ∀ v, .sampled v ∉ newer) :
    AtEach (fun before event => ∀ v, event = .sampled v → (stages v).Sublist before) (s.history ++ newer) :=
  h.append fun _ _ hMem v hSample => absurd (hSample ▸ hMem) (hNewer v)

section Steps

variable {l : Locals} {id : Int} {first : Number} {s t : Roundtrip}

theorem Sound.counts (h : s.Sound l id first) {u : Session} {n : Nat} (hPlace : s.place = .count)
    (hStep : s.session.Step (.call (.assign l.inSeqnr (leBytes 4 (leNat (s.memory.read l.inSeqnr 4) + 1)))) u) :
    Sound l id first { s with
      session := u
      trips := n
      place := .again
      history := s.history ++ [.begun (numberAt u.world.mem l.inSeqnr)] } := by
  obtain ⟨hReady, hMem, hQueue, hPeer⟩ := h.ready.assigns hStep
  have hIn : numberAt u.world.mem l.inSeqnr = following s.memory l.inSeqnr := by
    have hRead := Memory.read_write_self s.session.world.mem l.inSeqnr
      (leBytes 4 (leNat (s.memory.read l.inSeqnr 4) + 1))
    rw [length_leBytes] at hRead
    rw [numberAt, hMem, hRead]
    rfl
  have hOut : numberAt u.world.mem l.outSeqnr = numberAt s.memory l.outSeqnr := by
    rw [numberAt, hMem, Memory.read_write_of_apart (by rw [length_leBytes]; exact l.outIn.symm)]
    rfl
  refine ⟨hReady, by rintro ⟨⟩, fun _ => ⟨by simp [memory], fun hNone => hIn.trans (h.count hPlace hNone)⟩, ?_, ?_⟩
  · change NewFirst _ _ (places (u.peer.registers inRegister) s.held s.shown u.toHandler
      (numberAt u.world.mem l.outSeqnr))
    rw [hOut, hQueue, hPeer]
    exact h.pipeline.mono (fun _ hReached => hReached.append _) fun _ hOld => hOld
  · exact real_append h.real (by simp)

theorem Sound.sends (h : s.Sound l id first) {u : Session} {sendCode : Int} (hPlace : s.place = .again)
    (hStep : s.session.Step (.call (.send id sendCode)) u) :
    Sound l id first { s with
      session := u
      errCtr := s.errCtr - 1
      place := if s.errCtr - 1 < 0 then .ended else .waiting
      history := s.history ++ if 0 < sendCode then [.sent (numberAt s.memory l.inSeqnr)] else [] } := by
  obtain ⟨hReady, hMem, hQueue, hRegister⟩ := h.ready.sends hStep
  obtain ⟨hBegun, hFirst⟩ := h.begun (Or.inl hPlace)
  have hNumber : numberAt u.world.mem l.inSeqnr = numberAt s.memory l.inSeqnr := congrArg (numberAt · _) hMem
  refine ⟨hReady, fun hCount => ?_, fun _ => ⟨?_, fun hNone => hNumber.trans (hFirst hNone)⟩, ?_, ?_⟩
  · dsimp only at hCount
    split at hCount <;> cases hCount
  · exact List.mem_append_left _ (hNumber ▸ hBegun)
  · change NewFirst (Reached (s.history ++ if 0 < sendCode then [.sent (numberAt s.memory l.inSeqnr)] else [])) _
      (places (u.peer.registers inRegister) s.held s.shown u.toHandler (numberAt u.world.mem l.outSeqnr))
    rw [hRegister, hQueue, hMem]
    by_cases hSent : 0 < sendCode
    · have hReached : Reached s.history (0, numberAt s.memory l.inSeqnr) := List.singleton_sublist.mpr hBegun
      rw [if_pos hSent, if_pos hSent]
      refine NewFirst.cons ?_ (hReached.next rfl)
      exact (h.pipeline.sublist (List.sublist_cons_self _ _)).mono (fun _ hOther => hOther.append _) fun _ hOld => hOld
    · rw [if_neg hSent, if_neg hSent, List.append_nil]
      exact h.pipeline
  · refine real_append h.real fun v hSample => ?_
    split at hSample <;> simp at hSample

theorem Sound.receives (h : s.Sound l id first) {u : Session} {reply : Option (List UInt8)} {rxTs : UInt64}
    (hPlace : s.place = .waiting) (hStep : s.session.Step (.call (.recv reply rxTs)) u) (endUs : Int) :
    Sound l id first (compared l s u endUs) := by
  obtain ⟨hReady, hPeer, hIn, hSub⟩ := h.ready.receives hStep
  obtain ⟨hBegun, hFirst⟩ := h.begun (Or.inr hPlace)
  have hPipeline : NewFirst (Reached s.history) (fun p => s.samples = [] ∧ p.2 ≠ first)
      (places (u.peer.registers inRegister) s.held s.shown u.toHandler (numberAt u.world.mem l.outSeqnr)) := by
    rw [hPeer]
    exact h.pipeline.sublist (places_sublist hSub _ _ _)
  rw [compared]
  split
  · refine ⟨hReady, by rintro ⟨⟩, fun _ => ⟨?_, fun hNone => hIn.trans (hFirst hNone)⟩, hPipeline, h.real⟩
    exact (congrArg RoundtripEvent.begun hIn).symm ▸ hBegun
  · rename_i hSame
    have hEqual : numberAt u.world.mem l.outSeqnr = numberAt s.memory l.inSeqnr := (not_not.mp hSame).symm.trans hIn
    have hNew := hPipeline.all_new fun hOld => hOld.2 (hEqual.trans (hFirst hOld.1))
    have hStages : (stages (numberAt u.world.mem l.inSeqnr)).Sublist s.history := by
      have hLast := hNew _ (List.mem_append_right _ (List.mem_singleton_self _))
      rwa [← not_not.mp hSame] at hLast
    refine ⟨hReady, fun _ hNone => ?_, ?_, newFirst_of_new fun p hP => ?_, h.real.concat fun v hSample => ?_⟩
    · simp at hNone
    · rintro (⟨⟨⟩⟩ | ⟨⟨⟩⟩)
    · exact (hNew p hP).append _
    · cases hSample
      exact hStages

/-- The controller's program reads its register. -/
theorem Sound.reads (h : s.Sound l id first) : Sound l id first { s with
    held := s.session.peer.registers inRegister
    history := s.history ++ [.read (s.session.peer.registers inRegister)] } := by
  have hCopied := h.pipeline.copy [] (y := (2, s.session.peer.registers inRegister))
    (fun _ hReached => hReached.append [.read (s.session.peer.registers inRegister)])
    (fun hReached => hReached.next rfl) fun hOld => hOld
  refine ⟨h.ready, h.count, fun hPlace => ?_, ?_, real_append h.real (by simp)⟩
  · exact ⟨List.mem_append_left _ (h.begun hPlace).1, (h.begun hPlace).2⟩
  · exact hCopied.sublist (((List.sublist_cons_self _ _).cons_cons _).cons_cons _)

theorem Sound.writes (h : s.Sound l id first) : Sound l id first { s with
    shown := s.held
    history := s.history ++ [.wrote s.held] } := by
  have hCopied := h.pipeline.copy [(1, s.session.peer.registers inRegister)] (y := (3, s.held))
    (fun _ hReached => hReached.append [.wrote s.held]) (fun hReached => hReached.next rfl) fun hOld => hOld
  refine ⟨h.ready, h.count, fun hPlace => ?_, ?_, real_append h.real (by simp)⟩
  · exact ⟨List.mem_append_left _ (h.begun hPlace).1, (h.begun hPlace).2⟩
  · exact hCopied.sublist ((((List.sublist_cons_self _ _).cons_cons _).cons_cons _).cons_cons _)

theorem Sound.reports (h : s.Sound l id first) {id' : UInt8} {known : Variables} {frame : List UInt8}
    (hReports : s.session.peer.Reports id' known frame) (hFiled : s.session.peer.outputs id' ≠ none)
    (hShows : known outRegister = s.shown) : Sound l id first { s with
      session := { s.session with toHandler := s.session.toHandler ++ [⟨frame, some (id', known)⟩] }
      history := s.history ++ [.reported s.shown] } := by
  obtain ⟨hReady, hNumbers⟩ := h.ready.reports hReports hFiled
  have hCopied := h.pipeline.copy [(1, s.session.peer.registers inRegister), (2, s.held)] (y := (4, s.shown))
    (fun _ hReached => hReached.append [.reported s.shown]) (fun hReached => hReached.next rfl) fun hOld => hOld
  refine ⟨hReady, h.count, fun hPlace => ?_, ?_, real_append h.real (by simp)⟩
  · exact ⟨List.mem_append_left _ (h.begun hPlace).1, (h.begun hPlace).2⟩
  · rw [Roundtrip.pipeline, places]
    dsimp only
    rw [hNumbers, hShows]
    exact hCopied

theorem Sound.loses (h : s.Sound l id first) {u : Session} (hStep : s.session.Step .lose u) :
    Sound l id first { s with session := u } := by
  obtain ⟨hReady, hWorld, hPeer, hSub⟩ := h.ready.loses hStep
  refine ⟨hReady, ?_, ?_, ?_, h.real⟩
  · rw [memory, hWorld]
    exact h.count
  · rw [memory, hWorld]
    exact h.begun
  · rw [Roundtrip.pipeline, memory, hWorld, hPeer]
    exact h.pipeline.sublist (places_sublist (hSub.append (List.Sublist.refl _)) _ _ _)

theorem Sound.step {a : RoundtripAction} (h : s.Sound l id first) (hStep : Step l id s a t) : t.Sound l id first := by
  cases hStep with
  | finish place =>
    refine ⟨h.ready, by rintro ⟨⟩, ?_, h.pipeline, h.real⟩
    rintro (⟨⟨⟩⟩ | ⟨⟨⟩⟩)
  | count place trips done => exact h.counts place done
  | send place done => exact h.sends place done
  | recv place done endUs => exact h.receives place done endUs
  | reads => exact h.reads
  | writes => exact h.writes
  | report reports filed shows => exact h.reports reports filed shows
  | lose done => exact h.loses done

end Steps

/-- Whatever the controller's program and the connection do, a sample is taken only when its number has been sent, has
been read and written by the program and has come back in a report, all since its trip began. -/
theorem samples_are_round_trips {l : Locals} {id : Int} {mem : Memory} {buffer : Buf} {peer : Peer} {before : List SessionAction}
    {s t : Roundtrip} {actions : List RoundtripAction}
    (hSetup : Path (Restrict Session.Orderly Session.Step) (.start mem buffer peer) before s.session)
    (hRegistered : Registered l id s.session) (hBegins : s.Begins l) (hRun : Path (Step l id) s actions t) :
    AtEach (fun before event => ∀ v, event = .sampled v → (stages v).Sublist before) t.history := by
  have hStart : s.Sound l id (following s.memory l.inSeqnr) := by
    refine ⟨⟨hRegistered, Session.agrees_of_run hSetup⟩, fun _ _ => rfl, ?_, newFirst_of_old fun p hP => ?_, ?_⟩
    · rw [hBegins.place]
      rintro (⟨⟨⟩⟩ | ⟨⟨⟩⟩)
    · exact ⟨hBegins.samples, hBegins.unused p hP⟩
    · rw [hBegins.history]
      exact .nil
  exact (hRun.invariant (p := Sound l id (following s.memory l.inSeqnr))
    (fun _ _ _ h hStep => h.step hStep) hStart).real

/-- The recipes of the tool, ready to be registered. -/
def bothRecipes : World :=
  [(0, .addField (text "timestamp") 8), (0, .addField outRegister 16), (1, .dirInput), (1, .addField inRegister 20)].foldl
    (fun w (p : Nat × RecipeCall) => { w.setRecipe p.1 (RtdeRecipe.call (w.recipes p.1, w.mem) p.2).1 with
      mem := (RtdeRecipe.call (w.recipes p.1, w.mem) p.2).2 }) (World.fresh ⟨fun _ => 0, []⟩ fun _ => 0)

def types (name : List UInt8) : DataType := if name = text "timestamp" then .double else .int32

/-- The controller reports that its program has written number one. -/
def reportOne : List UInt8 := [0, 16, 85, 1, 0, 0, 0, 0, 0, 0, 0, 0, 0, 0, 0, 1]

def knownOne : Variables := fun name => if name = text "timestamp" then some (.double 0) else some (.int32 1)

/-- The first number has been sent. -/
def firstSent (w : World) : World :=
  (({ w with mem := w.mem.write 20 (leBytes 4 (leNat (w.mem.read 20 4) + 1)) } : World).send 1 8).2

theorem path_bothRecipes : Path (Restrict Session.Orderly Session.Step) (.start ⟨fun _ => 0, []⟩ (fun _ => 0) Session.noneFiled)
    [.call (.recipe 0 (.addField (text "timestamp") 8)), .call (.recipe 0 (.addField outRegister 16)),
      .call (.recipe 1 .dirInput), .call (.recipe 1 (.addField inRegister 20))]
    ⟨bothRecipes, Session.noneFiled, []⟩ := by
  have hNames : 0 ∉ text "timestamp" ∧ 0 ∉ outRegister ∧ 0 ∉ inRegister := by decide +kernel
  exact .cons ⟨⟨rfl, hNames.1⟩, .other (.recipe _ 0 (by rintro _ ⟨⟩)) rfl⟩
    (.cons ⟨⟨rfl, hNames.2.1⟩, .other (.recipe _ 0 (by rintro _ ⟨⟩)) rfl⟩
      (.cons ⟨⟨rfl, trivial⟩, .other (.recipe _ 1 (by rintro _ ⟨⟩)) rfl⟩
        (.cons ⟨⟨rfl, hNames.2.2⟩, .other (.recipe _ 1 (by rintro _ ⟨⟩)) rfl⟩ (.nil _))))

set_option maxRecDepth 100000 in
/-- Both recipes get registered. -/
theorem registered_tool : ∃ w p actions ok w',
    Path (Restrict Session.Orderly Session.Step) (.start ⟨fun _ => 0, []⟩ (fun _ => 0) Session.noneFiled) actions ⟨w, p, []⟩ ∧
      Registered tool 1 ⟨w, p, []⟩ ∧ p.registers inRegister = none ∧
      p.outputs 1 = some [(text "timestamp", .double), (outRegister, .int32)] ∧
      (firstSent w).recv (some reportOne) 0 = some (ok, w') ∧ numberAt w.mem 16 = some (.int32 0) ∧
      following w.mem 20 = some (.int32 1) ∧ numberAt w'.mem 20 = numberAt w'.mem 16 := by
  have hDone : (bothRecipes.registerRecipe 0 (Session.underOne .setupOutputs [.double, .int32])).bind (fun p =>
      (p.2.registerRecipe 1 (Session.underOne .setupInputs [.int32])).bind fun q =>
        ((firstSent q.2).recv (some reportOne) 0).map fun r => decide (q.2.out = some 0 ∧
          (q.2.recipes 0).listing = [(text "timestamp", .double, 8), (outRegister, .int32, 16)] ∧
          (q.2.recipes 0).tsNs = none ∧ q.2.recipesIn = [(1, 1)] ∧ (q.2.recipes 1).recipeId = 1 ∧
          (q.2.recipes 1).listing = [(inRegister, .int32, 20)] ∧ (p.2.recipes 1).dirOut = false ∧
          (p.2.recipes 1).FitsPacket ∧ numberAt q.2.mem 16 = some (.int32 0) ∧
          following q.2.mem 20 = some (.int32 1) ∧ numberAt r.2.mem 20 = numberAt r.2.mem 16)) = some true := by
    decide +kernel
  have hAsks : (bothRecipes.recipes 0).getMsg.bind (fun asks =>
      (bothRecipes.registerRecipe 0 (Session.underOne .setupOutputs [.double, .int32])).bind fun p =>
        (p.2.recipes 1).getMsg.map fun asks' =>
          let q := Session.noneFiled.ask 1 types (frameOf asks.1)
          let q' := q.2.ask 1 types (frameOf asks'.1)
          decide (q.1 = typesAnswer .setupOutputs 1 [.double, .int32] ∧ q'.1 = typesAnswer .setupInputs 1 [.int32] ∧
            q.2.inputs 1 = none ∧ q'.2.outputs 1 = some [(text "timestamp", .double), (outRegister, .int32)] ∧
            q'.2.registers inRegister = none)) = some true := by
    decide +kernel
  obtain ⟨⟨ok₁, w₁⟩, hFirst, hRest⟩ := Option.bind_eq_some_iff.mp hDone
  obtain ⟨⟨ok₂, w₂⟩, hSecond, hRest⟩ := Option.bind_eq_some_iff.mp hRest
  obtain ⟨⟨ok₃, w₃⟩, hRecv, hFacts⟩ := Option.map_eq_some_iff.mp hRest
  obtain ⟨⟨packet, r⟩, hMsg, hRest⟩ := Option.bind_eq_some_iff.mp hAsks
  obtain ⟨⟨ok', w'⟩, hAgain, hRest⟩ := Option.bind_eq_some_iff.mp hRest
  obtain ⟨⟨packet', r'⟩, hMsg', hAsked⟩ := Option.map_eq_some_iff.mp hRest
  obtain ⟨-, rfl⟩ := Prod.mk.inj (Option.some.inj (hFirst.symm.trans hAgain))
  obtain ⟨hOut, hReported, hUnstamped, hIn, hUnder, hTold, hDir, hFits, hMember, hFollowing, hSame⟩ :=
    of_decide_eq_true hFacts
  obtain ⟨hAnswer, hAnswer', hFresh, hOutputs, hNone⟩ := of_decide_eq_true hAsked
  have hStep₁ := Session.step_registered hMsg (p := Session.noneFiled) (by cases (bothRecipes.recipes 0).dirOut <;> rfl)
    hAnswer rfl rfl hFirst
  have hStep₂ := Session.step_registered hMsg' (by rw [hDir]; exact hFresh) hAnswer' rfl rfl hSecond
  have hFits₁ : (bothRecipes.recipes 0).FitsPacket := by decide +kernel
  have hRun₁ := path_concat path_bothRecipes (show Restrict Session.Orderly Session.Step _ (.call (.register 0 _)) _ from
    ⟨⟨hFits₁, rfl⟩, hStep₁⟩)
  have hRun := path_concat hRun₁ (show Restrict Session.Orderly Session.Step _ (.call (.register 1 _)) _ from
    ⟨⟨hFits, rfl⟩, hStep₂⟩)
  exact ⟨w₂, _, _, ok₃, w₃, hRun,
    ⟨hOut, hReported, hUnstamped, ⟨1, by rw [hIn]; exact List.mem_singleton_self _⟩, hUnder, hTold⟩, hNone, hOutputs, hRecv,
    hMember, hFollowing, hSame⟩

theorem samples_are_round_trips_one : ∃ t : Roundtrip, t.samples.length = 1 ∧
    AtEach (fun before event => ∀ v, event = .sampled v → (stages v).Sublist before) t.history := by
  obtain ⟨w, p, actions, ok, w', hSetup, hRegistered, hNone, hOutputs, hRecv, hMember, hFollowing, hSame⟩ :=
    registered_tool
  have hReady : Ready tool 1 ⟨w, p, []⟩ := ⟨hRegistered, Session.agrees_of_run hSetup⟩
  obtain ⟨m, hM⟩ : ∃ m, w.mem.write 20 (leBytes 4 (leNat (w.mem.read 20 4) + 1)) = m := ⟨_, rfl⟩
  have hFirst : numberAt m 20 = some (.int32 1) := by
    rw [← hFollowing, following, numberAt, ← hM]
    have hRead := Memory.read_write_self w.mem 20 (leBytes 4 (leNat (w.mem.read 20 4) + 1))
    rw [length_leBytes] at hRead
    rw [hRead]
  have hCount : Session.Step ⟨w, p, []⟩ (.call (.assign 20 (leBytes 4 (leNat (w.mem.read 20 4) + 1))))
      ⟨{ w with mem := m }, p, []⟩ := hM ▸ .other (.assign w 20 _) rfl
  have hSend := Session.Step.send (s := ⟨{ w with mem := m }, p, []⟩) (.send { w with mem := m } 1 8)
  obtain ⟨-, -, -, hRegister⟩ := (hReady.assigns (l := tool) hCount).1.sends hSend
  rw [firstSent, hM] at hRecv
  obtain ⟨registers, hTaken⟩ := p.takes_cases (Session.handed { w with mem := m } (World.send { w with mem := m } 1 8).2 0)
  rw [if_pos (by decide), hTaken] at hSend hRegister
  rw [if_pos (by decide : (0 : Int) < 8), show tool.inSeqnr = 20 from rfl, hFirst] at hRegister
  generalize (World.send { w with mem := m } 1 8).2 = w₂ at hSend hRecv
  have hReports : Peer.Reports { p with registers } 1 knownOne reportOne := by
    refine ⟨rfl, rfl, rfl, fun listed hListed => ?_⟩
    obtain rfl := Option.some.inj (hOutputs.symm.trans hListed)
    exact ⟨[.double 0, .int32 1], rfl, rfl⟩
  have hReceive := Session.Step.receive (s := ⟨w₂, { p with registers }, [⟨reportOne, some (1, knownOne)⟩]⟩) rfl
    (.recv hRecv)
  have hShows : knownOne outRegister = registers inRegister := Eq.trans (by decide +kernel) hRegister.symm
  have hRun : Path (Step tool 1) ⟨⟨w, p, []⟩, .count, 1, 100, [], none, none, []⟩
      [.count, .send 8, .reads, .writes, .report, .recv (some reportOne) 0 5] _ :=
    .cons (.count rfl rfl hCount) (.cons (.send rfl hSend) (.cons .reads (.cons .writes
      (.cons (.report hReports (by rw [hOutputs]; simp) hShows) (.cons (.sampled rfl hReceive 5 hSame) (.nil _))))))
  refine ⟨_, rfl, samples_are_round_trips hSetup hRegistered ⟨rfl, rfl, rfl, rfl, ?_⟩ hRun⟩
  change ∀ v ∈ places (p.registers inRegister) none none [] (numberAt w.mem 16), v.2 ≠ following w.mem 20
  rw [hNone, hMember, hFollowing]
  decide +kernel

end Roundtrip

end LibUrx.Tools
