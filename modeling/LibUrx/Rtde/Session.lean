import LibUrx.Rtde.Addressing
import LibUrx.Rtde.Peer

/-! # A handler and its controller

The controller reads the frames that have been sent, in their order. What it sends waits until the handler reads it.
A frame is read whole or not at all.
-/
namespace LibUrx.Rtde
open Bytes Text Runs
set_option autoImplicit false

/-- A frame for the handler. A report comes with its id, and with what was known when it was sent. -/
structure Incoming where
  frame : List UInt8
  known : Option (UInt8 × Variables)

structure Session where
  world : World
  peer : Peer
  toHandler : List Incoming

inductive SessionAction where
  | call (c : HandlerCall)
  | report
  | lose

def Peer.filed (p : Peer) (dirOut : Bool) (id : UInt8) : Option (List (List UInt8 × DataType)) :=
  if dirOut then p.outputs id else p.inputs id

/-- The calls that change nothing for the controller. -/
def aside : HandlerCall → Bool
  | .register _ _ | .send _ _ | .recv (some _) _ => false
  | .recv none _ | .setVersion _ | .getUrVersion _ _ | .start _ | .stop _ | .recipe _ _ | .assign _ _ => true

namespace Session

/-- What has been put on the wire since, without the first `k` frames. -/
def handed (w w' : World) (k : Nat) : List (List UInt8) := w'.wire.drop (w.wire.length + k)

/-- Where a send call fails, nothing has been sent. The controller files what is asked for under an id that it does
not use yet. -/
inductive Step (s : Session) : SessionAction → Session → Prop where
  | unsent {w : World} {i : Nat} {g : Registration} (done : HandlerStep s.world (.register i g) w)
      (code : g.exchange.sendCode < 0) : Step s (.call (.register i g)) { s with world := w }
  | unheard {w : World} {i : Nat} {g : Registration} {packet : Buf} {r : RtdeRecipe} {id : UInt8}
      {provides : List UInt8 → DataType} {answer : List UInt8} {p : Peer}
      (asks : (s.world.recipes i).getMsg = some (packet, r)) (fresh : s.peer.filed (s.world.recipes i).dirOut id = none)
      (answers : s.peer.ask id provides (frameOf packet) = (answer, p))
      (done : HandlerStep s.world (.register i g) w) (code : 0 ≤ g.exchange.sendCode) (reply : g.exchange.reply = none) :
      Step s (.call (.register i g)) ⟨w, p, s.toHandler ++ [⟨answer, none⟩]⟩
  | heard {w : World} {i : Nat} {g : Registration} {packet : Buf} {r : RtdeRecipe} {id : UInt8}
      {provides : List UInt8 → DataType} {answer : List UInt8} {p : Peer} {front : Incoming} {rest : List Incoming}
      (asks : (s.world.recipes i).getMsg = some (packet, r)) (fresh : s.peer.filed (s.world.recipes i).dirOut id = none)
      (answers : s.peer.ask id provides (frameOf packet) = (answer, p))
      (queue : s.toHandler ++ [⟨answer, none⟩] = front :: rest)
      (done : HandlerStep s.world (.register i g) w) (code : 0 ≤ g.exchange.sendCode)
      (reply : g.exchange.reply = some front.frame) :
      Step s (.call (.register i g))
        ⟨w, if 0 < g.initialSend then (handed s.world w 1).foldl Peer.take p else p, rest⟩
  | send {w : World} {recipeId sendCode : Int} (done : HandlerStep s.world (.send recipeId sendCode) w) :
      Step s (.call (.send recipeId sendCode))
        { s with world := w, peer := if 0 < sendCode then (handed s.world w 0).foldl Peer.take s.peer else s.peer }
  | receive {w : World} {front : Incoming} {rest : List Incoming} {ts : UInt64} (queue : s.toHandler = front :: rest)
      (done : HandlerStep s.world (.recv (some front.frame) ts) w) :
      Step s (.call (.recv (some front.frame) ts)) { s with world := w, toHandler := rest }
  | other {w : World} {c : HandlerCall} (done : HandlerStep s.world c w) (only : aside c = true) :
      Step s (.call c) { s with world := w }
  | report {id : UInt8} {known : Variables} {frame : List UInt8} (reports : s.peer.Reports id known frame)
      (filed : s.peer.outputs id ≠ none) :
      Step s .report { s with toHandler := s.toHandler ++ [⟨frame, some (id, known)⟩] }
  | lose {front : Incoming} {rest : List Incoming} (queue : s.toHandler = front :: rest) :
      Step s .lose { s with toHandler := rest }

/-- Calls with which a recipe is put together. -/
def Builds : RecipeCall → Prop
  | .clearFields | .registerResponse _ => False
  | .addField name _ => 0 ∉ name
  | .dirInput | .dirOutput | .trackTsNs _ => True

/-- Recipes are put together before they are registered, fit into their packets, and are registered while nothing
is on its way to the handler. -/
def Orderly (s : Session) : SessionAction → Prop
  | .call (.register i _) => (s.world.recipes i).FitsPacket ∧ s.toHandler = []
  | .call (.recipe i c) => (s.world.recipes i).active = false ∧ Builds c
  | _ => True

/-- The members that a call tells the controller. -/
def told (s : Session) : SessionAction → List (List UInt8 × Option WireValue)
  | .call (.send recipeId sendCode) =>
    if 0 < sendCode then
      match s.world.recipesIn.find? fun e => (s.world.recipes e.2).recipeId == recipeId with
      | none => []
      | some (_, i) => (s.world.recipes i).values s.world.mem
    else []
  | .call (.register i g) =>
    match s.world.registerRecipe i g with
    | some (true, _) => if (s.world.recipes i).dirOut then [] else (s.world.recipes i).values s.world.mem
    | _ => []
  | _ => []

end Session

namespace Peer

structure Grows (p p' : Peer) : Prop where
  inputs : ∀ id listed, p.inputs id = some listed → p'.inputs id = some listed
  outputs : ∀ id listed, p.outputs id = some listed → p'.outputs id = some listed

theorem Grows.refl (p : Peer) : p.Grows p := ⟨fun _ _ h => h, fun _ _ h => h⟩

theorem Grows.trans {p p' p'' : Peer} (h : p.Grows p') (h' : p'.Grows p'') : p.Grows p'' :=
  ⟨fun id listed hOld => h'.inputs id listed (h.inputs id listed hOld),
    fun id listed hOld => h'.outputs id listed (h.outputs id listed hOld)⟩

theorem Grows.input_ne_none {p p' : Peer} (h : p.Grows p') {id : UInt8} (hFiled : p.inputs id ≠ none) :
    p'.inputs id ≠ none := by
  obtain ⟨listed, hListed⟩ := Option.ne_none_iff_exists'.mp hFiled
  rw [h.inputs id listed hListed]
  simp

theorem take_cases (p : Peer) (frame : List UInt8) : ∃ registers, p.take frame = { p with registers } := by
  unfold take
  split
  · split
    · exact ⟨p.registers, rfl⟩
    · split
      · exact ⟨_, rfl⟩
      · exact ⟨p.registers, rfl⟩
  · exact ⟨p.registers, rfl⟩

theorem takes_cases (p : Peer) (frames : List (List UInt8)) : ∃ registers, frames.foldl take p = { p with registers } := by
  induction frames generalizing p with
  | nil => exact ⟨p.registers, rfl⟩
  | cons frame frames ih =>
    obtain ⟨registers, hTake⟩ := p.take_cases frame
    obtain ⟨registers', hTakes⟩ := ih (p.take frame)
    refine ⟨registers', ?_⟩
    rw [List.foldl_cons, hTakes, hTake]

theorem grows_takes (p : Peer) (frames : List (List UInt8)) : p.Grows (frames.foldl take p) := by
  obtain ⟨registers, hTakes⟩ := p.takes_cases frames
  rw [hTakes]
  exact ⟨fun _ _ hOld => hOld, fun _ _ hOld => hOld⟩

theorem grows_file {p : Peer} {dirOut : Bool} {id : UInt8} (h : p.filed dirOut id = none)
    (listed : List (List UInt8 × DataType)) : p.Grows (p.file dirOut id listed) := by
  cases dirOut with
  | true =>
    refine ⟨fun _ _ hOld => hOld, fun k old hOld => ?_⟩
    have hNe : k ≠ id := by
      rintro rfl
      cases h.symm.trans hOld
    simp only [file, if_true, if_neg hNe, hOld]
  | false =>
    refine ⟨fun k old hOld => ?_, fun _ _ hOld => hOld⟩
    have hNe : k ≠ id := by
      rintro rfl
      cases h.symm.trans hOld
    simp only [file, Bool.false_eq_true, if_false, if_neg hNe, hOld]

/-- A recipe that has been accepted is filed by both sides under one id. -/
structure Files (p : Peer) (dirOut : Bool) (r : RtdeRecipe) (id : UInt8) : Prop where
  active : r.active = true
  dir : r.dirOut = dirOut
  fits : 4 + r.bytes ≤ packetBytes
  under : r.recipeId = id.toNat
  listed : p.filed dirOut id = some r.listed

theorem Grows.files {p p' : Peer} (h : p.Grows p') {dirOut : Bool} {r : RtdeRecipe} {id : UInt8}
    (hFiles : p.Files dirOut r id) : p'.Files dirOut r id := by
  refine ⟨hFiles.active, hFiles.dir, hFiles.fits, hFiles.under, ?_⟩
  cases dirOut with
  | true => exact h.outputs _ _ hFiles.listed
  | false => exact h.inputs _ _ hFiles.listed

/-- A report is one of an output recipe that the peer has filed, and what is no report is no package. -/
structure Genuine (p : Peer) (m : Incoming) : Prop where
  report : ∀ id known, m.known = some (id, known) → p.Reports id known m.frame ∧ p.outputs id ≠ none
  answer : m.known = none → isPackage m.frame = false ∧ 2 < m.frame.length

theorem Grows.genuine {p p' : Peer} (h : p.Grows p') {m : Incoming} (hGenuine : p.Genuine m) : p'.Genuine m := by
  refine ⟨?_, hGenuine.answer⟩
  intro id known hKnown
  obtain ⟨hReports, hFiled⟩ := hGenuine.report id known hKnown
  obtain ⟨listed, hListed⟩ := Option.ne_none_iff_exists'.mp hFiled
  have hListed' := h.outputs id listed hListed
  refine ⟨⟨hReports.package, hReports.size, hReports.under, ?_⟩, by rw [hListed']; simp⟩
  intro listed' hSame
  obtain rfl := Option.some.inj (hListed'.symm.trans hSame)
  exact hReports.decodes listed hListed

end Peer

namespace RtdeRecipe

theorem Proper.congr {r r' : RtdeRecipe} (h : r.Proper) (hFields : r'.fields = r.fields) (hBytes : r'.bytes = r.bytes)
    (hDir : r'.dirOut = r.dirOut) : r'.Proper :=
  ⟨layout_congr hBytes hFields h.layout, h.formed.congr hFields hDir, hFields ▸ h.plain⟩

theorem proper_init : init.Proper :=
  ⟨layout_of_nil rfl rfl, formed_of_nil rfl, fun _ hMem => absurd hMem List.not_mem_nil⟩

/-- Putting a recipe together, name by name, keeps it proper. -/
theorem Proper.builds {r r' : RtdeRecipe} {c : RecipeCall} (h : r.Proper) (hBuilds : Session.Builds c)
    (hCalled : r.Called c r') : r'.Proper := by
  refine ⟨hCalled.layout (by rintro rfl; exact hBuilds) h.layout, hCalled.formed h.formed, ?_⟩
  cases hCalled with
  | same | turned | tracked => exact h.plain
  | cleared | answered => exact hBuilds.elim
  | added hAdd =>
    have hComma := comma_notMem_of_addField hAdd
    rw [cStr_eq_self_iff.mpr hBuilds] at hComma
    obtain ⟨tok, -, -, rfl, -, -, rfl⟩ := addField_eq_true hAdd
    intro t hMem
    rcases List.mem_append.mp hMem with hOld | hNew
    · exact h.plain t hOld
    · exact List.mem_singleton.mp hNew ▸ ⟨hBuilds, hComma⟩

/-- What a recipe stands for, its buffers aside. -/
structure Stays (r r' : RtdeRecipe) : Prop where
  fields : r'.fields = r.fields
  bytes : r'.bytes = r.bytes
  dirOut : r'.dirOut = r.dirOut
  recipeId : r'.recipeId = r.recipeId
  active : r'.active = r.active

theorem Stays.refl (r : RtdeRecipe) : r.Stays r := ⟨rfl, rfl, rfl, rfl, rfl⟩

theorem Stays.files {r r' : RtdeRecipe} (h : r.Stays r') {p : Peer} {dirOut : Bool} {id : UInt8}
    (hFiles : p.Files dirOut r id) : p.Files dirOut r' id := by
  refine ⟨h.active.trans hFiles.active, h.dirOut.trans hFiles.dir, h.bytes ▸ hFiles.fits,
    h.recipeId.trans hFiles.under, ?_⟩
  rw [hFiles.listed, listed, listed, h.fields]

end RtdeRecipe

namespace World

structure Stays (w w' : World) : Prop where
  out : w'.out = w.out
  recipesIn : w'.recipesIn = w.recipesIn
  recipes : ∀ i, (w.recipes i).Stays (w'.recipes i)

theorem stays_setRecipe {w : World} {i : Nat} {r : RtdeRecipe} (h : (w.recipes i).Stays r) : w.Stays (w.setRecipe i r) := by
  refine ⟨rfl, rfl, fun j => ?_⟩
  rcases eq_or_ne j i with rfl | hNe
  · rw [setRecipe_self]
    exact h
  · rw [setRecipe_of_ne hNe]
    exact .refl _

theorem stays_sentBy (w : World) (i : Nat) : w.Stays (w.sentBy i) :=
  have h := stays_setRecipe (w := w) (i := i)
    (r := { w.recipes i with dp := ((w.recipes i).store (w.recipes i).dp w.mem).2 }) ⟨rfl, rfl, rfl, rfl, rfl⟩
  ⟨h.out, h.recipesIn, h.recipes⟩

theorem stays_send (w : World) (id sendCode : Int) : w.Stays (w.send id sendCode).2 := by
  rcases send_cases w id sendCode with ⟨hSend, -⟩ | ⟨e, -, -, -, hSend⟩
  · rw [hSend]
    exact ⟨rfl, rfl, fun _ => .refl _⟩
  · rw [hSend]
    exact w.stays_sentBy e.2

theorem stays_of_step {w w' : World} {c : HandlerCall} (h : HandlerStep w c w') (hNot : ∀ i g, c ≠ .register i g)
    (hBuilt : ∀ i c', c ≠ .recipe i c') : w.Stays w' := by
  cases h with
  | register => exact absurd rfl (hNot _ _)
  | send => exact w.stays_send _ _
  | recv hRecv =>
    obtain ⟨buffer, mem, rfl⟩ := recv_eq_some hRecv
    exact ⟨rfl, rfl, fun _ => .refl _⟩
  | setVersion x =>
    rw [setVersion_world]
    exact ⟨rfl, rfl, fun _ => .refl _⟩
  | getUrVersion urver x =>
    rw [getUrVersion_world]
    exact ⟨rfl, rfl, fun _ => .refl _⟩
  | start x =>
    rw [start_world]
    exact ⟨rfl, rfl, fun _ => .refl _⟩
  | stop x =>
    rw [stop_world]
    exact ⟨rfl, rfl, fun _ => .refl _⟩
  | recipe => exact absurd rfl (hBuilt _ _)
  | assign => exact ⟨rfl, rfl, fun _ => .refl _⟩

theorem stays_asked {w : World} {i : Nat} {r : RtdeRecipe} {packet buffer msg : Buf}
    (hMsg : (w.recipes i).getMsg = some (msg, r)) : w.Stays (w.asked i r packet buffer) := by
  obtain ⟨cpo, cpi, rfl⟩ := RtdeRecipe.getMsg_eq_some hMsg
  have h := stays_setRecipe (w := w) (i := i) (r := { w.recipes i with cpo, cpi }) ⟨rfl, rfl, rfl, rfl, rfl⟩
  exact ⟨h.out, h.recipesIn, h.recipes⟩

end World

namespace Session

/-- What the two sides have in common. -/
structure Agrees (s : Session) : Prop where
  proper : ∀ i, (s.world.recipes i).Proper
  distinct : s.world.DistinctIds
  keys : ∀ e ∈ s.world.recipesIn, ∃ id : UInt8, e.1 = id.toNat ∧ s.peer.inputs id ≠ none
  inputs : ∀ e ∈ s.world.recipesIn, ∃ id, s.peer.Files false (s.world.recipes e.2) id
  output : ∀ i, s.world.out = some i → ∃ id, s.peer.Files true (s.world.recipes i) id
  genuine : ∀ m ∈ s.toHandler, s.peer.Genuine m

theorem Agrees.stays {s : Session} (h : s.Agrees) {w : World} (hStays : s.world.Stays w) {p : Peer}
    (hGrows : s.peer.Grows p) {queue : List Incoming} (hQueue : ∀ m ∈ queue, p.Genuine m) : Agrees ⟨w, p, queue⟩ := by
  refine ⟨fun i => ?_, ?_, ?_, ?_, ?_, hQueue⟩
  · have hSame := hStays.recipes i
    exact (h.proper i).congr hSame.fields hSame.bytes hSame.dirOut
  · exact World.SameIds.distinctIds ⟨hStays.recipesIn, fun i => (hStays.recipes i).recipeId⟩ h.distinct
  · intro e hMem
    obtain ⟨id, hKey, hFiled⟩ := h.keys e (hStays.recipesIn ▸ hMem)
    exact ⟨id, hKey, hGrows.input_ne_none hFiled⟩
  · intro e hMem
    obtain ⟨id, hFiles⟩ := h.inputs e (hStays.recipesIn ▸ hMem)
    exact ⟨id, hGrows.files ((hStays.recipes e.2).files hFiles)⟩
  · intro i hOut
    obtain ⟨id, hFiles⟩ := h.output i (hStays.out ▸ hOut)
    exact ⟨id, hGrows.files ((hStays.recipes i).files hFiles)⟩

end Session

end LibUrx.Rtde
