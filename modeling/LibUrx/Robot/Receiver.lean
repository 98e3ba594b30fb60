import LibUrx.Robot.Retry
import LibUrx.Robot.RobotRun

/-! # The life of the receiver

A client calls `start`, `stop`, `recv` and `state`, one after the other, and the thread that `start` creates
goes through `run` at its own pace. A call is as many steps as the thread can come in between.
-/
namespace LibUrx
open Bytes Rtde Runs
set_option autoImplicit false

/-- How far the thread has come in `run`. -/
inductive Stage where
  | created
  | looping
  | receiving
  | publishing
  | finished
  deriving DecidableEq, Repr

/-- The call that the client is in. -/
inductive ClientPhase where
  | idle
  | starting
  | stopping
  | receiving
  deriving DecidableEq, Repr

inductive LifeCall where
  | start
  | stop
  deriving DecidableEq, Repr

/-- `receiver` is joinable as long as it is not `none`. What `start` and `stop` have returned stands in
`returned`, newest first. -/
structure Life where
  robot : Robot
  receiver : Option Stage
  client : ClientPhase
  returned : List (LifeCall × Bool)
  terminated : Bool

inductive LifeAction where
  | start (x : Exchange)
  | matched
  | expired
  | stop (sendCode : Int)
  | joined (x : Exchange)
  | takeFrame (reply : Option (List UInt8)) (ts : UInt64)
  | publish (now : Int)
  | state (synchronous : Bool)
  | enter
  | loopTest
  | threadFrame (reply : Option (List UInt8)) (ts : UInt64)
  | threadPublish (now : Int)

namespace Robot

/-- `start` up to the creation of the thread. -/
def requestStart (b : Robot) (x : Exchange) : Robot := { b with handler := (b.handler.start x).2 }

/-- `stop` up to its wait for the thread. -/
def requestStop (b : Robot) (sendCode : Int) : Robot :=
  { ((b.number .stopCommand).send sendCode).2 with running := false }

/-- `stop` behind its wait. -/
def pause (b : Robot) (x : Exchange) : Robot := { b with handler := (b.handler.stop x).2 }

/-- With nothing of the thread in between, the steps of a call make up the call. -/
theorem start_eq {b : Robot} (h : b.outInitialized = true) (x : Exchange) :
    b.start x = { b.requestStart x with running := true } := by
  simp [start, requestStart, h]

theorem stop_eq {b : Robot} (h : b.running = true) (sendCode : Int) (x : Exchange) :
    b.stop sendCode x = (true, (b.requestStop sendCode).pause x) := by
  simp [stop, requestStop, pause, h]

theorem publish_kept (b : Robot) (now : Int) :
    (b.publish now).2.outInitialized = b.outInitialized ∧ (b.publish now).2.running = b.running := by
  rw [publish]
  split <;> exact ⟨rfl, rfl⟩

theorem state_kept (b : Robot) (synchronous : Bool) :
    (b.state synchronous).2.outInitialized = b.outInitialized ∧ (b.state synchronous).2.running = b.running := by
  rw [state]
  split <;> exact ⟨rfl, rfl⟩

theorem takeFrame_kept {b b' : Robot} {reply : Option (List UInt8)} {ts : UInt64} {ok : Bool}
    (h : b.takeFrame reply ts = some (ok, b')) : b'.outInitialized = b.outInitialized ∧ b'.running = b.running := by
  obtain ⟨buffer, mem, -, rfl⟩ := takeFrame_eq_some h
  exact ⟨rfl, rfl⟩

end Robot

namespace Life

def new (b : Robot) : Life := ⟨b, none, .idle, [], false⟩

/-- A call of `start` or `stop` comes to its end. -/
def returns (l : Life) (c : LifeCall) (ok : Bool) : Life := { l with client := .idle, returned := (c, ok) :: l.returned }

def act (l : Life) : LifeAction → Option Life
  | .start x =>
    if l.client ≠ .idle then none
    else if !l.robot.outInitialized then some (l.returns .start false)
    -- a thread that is assigned to while it is joinable ends the program
    else if l.receiver.isSome then some { l with robot := l.robot.requestStart x, terminated := true }
    else some { l with robot := l.robot.requestStart x, receiver := some .created, client := .starting }
  | .matched => if l.client = .starting ∧ l.robot.updatedState = true then some (l.returns .start true) else none
  | .expired => if l.client = .starting ∧ l.robot.updatedState = false then some (l.returns .start false) else none
  | .stop sendCode =>
    if l.client ≠ .idle then none
    else if !l.robot.running then some (l.returns .stop false)
    else some { l with robot := l.robot.requestStop sendCode, client := .stopping }
  | .joined x =>
    if l.client = .stopping ∧ l.receiver = some .finished then
      some { l.returns .stop true with robot := l.robot.pause x, receiver := none }
    else none
  | .takeFrame reply ts =>
    if l.client ≠ .idle then none
    else (l.robot.takeFrame reply ts).map fun (ok, b) =>
      { l with robot := b, client := if ok then .receiving else .idle }
  | .publish now =>
    if l.client = .receiving then some { l with robot := (l.robot.publish now).2, client := .idle } else none
  | .state synchronous =>
    if l.client = .idle then some { l with robot := (l.robot.state synchronous).2 } else none
  | .enter =>
    if l.receiver = some .created then
      some { l with robot := { l.robot with running := true }, receiver := some .looping }
    else none
  | .loopTest =>
    if l.receiver = some .looping then
      some { l with receiver := some (if l.robot.running then .receiving else .finished) }
    else none
  | .threadFrame reply ts =>
    if l.receiver = some .receiving then
      (l.robot.takeFrame reply ts).map fun (ok, b) =>
        { l with robot := b, receiver := some (if ok then .publishing else .looping) }
    else none
  | .threadPublish now =>
    if l.receiver = some .publishing then
      some { l with robot := (l.robot.publish now).2, receiver := some .looping }
    else none

def next (l : Life) (a : LifeAction) : Option Life := if l.terminated then none else l.act a

def Step (l : Life) (a : LifeAction) (l' : Life) : Prop := l.next a = some l'

/-- The call of `start` or `stop` that was the last to return true. -/
def lastTrue (returned : List (LifeCall × Bool)) : Option LifeCall :=
  (returned.find? fun entry => entry.2).map Prod.fst

/-- What the calls say of the thread is true. -/
structure Tracked (l : Life) : Prop where
  unterminated : l.terminated = false
  joinable : l.client = .idle → (l.receiver.isSome = true ↔ lastTrue l.returned = some .start)
  failedStart : l.client = .idle → l.returned.head? = some (.start, false) → l.receiver = none
  stops : ∀ earlier, (LifeCall.stop, false) :: earlier <:+ l.returned → lastTrue earlier ≠ some .start

/-- No `start` waits in vain or finds a thread, and no `stop` comes before the thread's first step. -/
def Heeds (l : Life) : LifeAction → Prop
  | .start _ => l.receiver = none
  | .expired => False
  | .stop _ => l.receiver ≠ some .created
  | _ => True

instance (l : Life) (a : LifeAction) : Decidable (l.Heeds a) :=
  match a with
  | .start _ => inferInstanceAs (Decidable (l.receiver = none))
  | .stop _ => inferInstanceAs (Decidable (l.receiver ≠ some .created))
  | .expired => inferInstanceAs (Decidable False)
  | .matched | .joined _ | .takeFrame _ _ | .publish _ | .state _ | .enter | .loopTest | .threadFrame _ _
  | .threadPublish _ => inferInstanceAs (Decidable True)

/-- Where the client and the thread can stand in a run that heeds the condition. -/
inductive Situation (l : Life) : Prop where
  | absent (client : l.client = .idle ∨ l.client = .receiving) (receiver : l.receiver = none)
      (running : l.robot.running = false) (last : lastTrue l.returned ≠ some .start)
  | coming (s : Stage) (client : l.client = .starting) (receiver : l.receiver = some s) (alive : s ≠ .finished)
      (running : l.robot.running = decide (s ≠ .created))
  | present (s : Stage) (client : l.client = .idle ∨ l.client = .receiving) (receiver : l.receiver = some s)
      (alive : s ≠ .finished) (running : l.robot.running = decide (s ≠ .created))
      (last : lastTrue l.returned = some .start)
  | leaving (s : Stage) (client : l.client = .stopping) (receiver : l.receiver = some s) (entered : s ≠ .created)
      (running : l.robot.running = false)

structure Alive (l : Life) : Prop where
  unterminated : l.terminated = false
  outInitialized : l.robot.outInitialized = true
  started : (LifeCall.start, false) ∉ l.returned
  stops : ∀ earlier, (LifeCall.stop, false) :: earlier <:+ l.returned → lastTrue earlier ≠ some .start
  situation : l.Situation

theorem alive_new {b : Robot} (hOut : b.outInitialized = true) (hRunning : b.running = false) : (new b).Alive where
  unterminated := rfl
  outInitialized := hOut
  started := by simp [new]
  stops earlier hSuffix := by simp [new] at hSuffix
  situation := .absent (Or.inl rfl) rfl hRunning (by simp [new, lastTrue])

theorem Alive.tracked {l : Life} (h : l.Alive) : l.Tracked where
  unterminated := h.unterminated
  joinable hIdle := by
    cases h.situation with
    | absent _ hReceiver _ hLast => simp [hReceiver, hLast]
    | coming s hClient => rw [hClient] at hIdle; cases hIdle
    | present s _ hReceiver _ _ hLast => simp [hReceiver, hLast]
    | leaving s hClient => rw [hClient] at hIdle; cases hIdle
  failedStart _ hHead := absurd (List.mem_of_mem_head? hHead) h.started
  stops := h.stops

/-- A step of the thread: it comes further, and `running` goes up when it takes its first step. -/
structure ThreadMoves (l l' : Life) (s s' : Stage) : Prop where
  before : l.receiver = some s
  after : l'.receiver = some s'
  client : l'.client = l.client
  returned : l'.returned = l.returned
  terminated : l'.terminated = l.terminated
  outInitialized : l'.robot.outInitialized = l.robot.outInitialized
  entered : s' ≠ .created
  running : l'.robot.running = (l.robot.running || decide (s = .created))
  ends : s' = .finished → l.robot.running = false ∧ s ≠ .created

theorem Alive.thread {l l' : Life} {s s' : Stage} (h : l.Alive) (hMoves : l.ThreadMoves l' s s') : l'.Alive where
  unterminated := hMoves.terminated.trans h.unterminated
  outInitialized := hMoves.outInitialized.trans h.outInitialized
  started := hMoves.returned ▸ h.started
  stops := hMoves.returned ▸ h.stops
  situation := by
    have hGoes {r : Stage} (hReceiver : l.receiver = some r)
        (hRunning : l.robot.running = decide (r ≠ .created)) :
        s' ≠ .finished ∧ l'.robot.running = decide (s' ≠ .created) := by
      obtain rfl := Option.some.inj (hMoves.before.symm.trans hReceiver)
      have hUp : l'.robot.running = true := by
        rw [hMoves.running, hRunning]
        cases s <;> rfl
      refine ⟨fun hEnd => ?_, by rw [hUp, decide_eq_true hMoves.entered]⟩
      obtain ⟨hDown, hNot⟩ := hMoves.ends hEnd
      rw [hDown, decide_eq_true hNot] at hRunning
      cases hRunning
    cases h.situation with
    | absent _ hReceiver =>
      have := hMoves.before
      rw [hReceiver] at this
      cases this
    | coming r hClient hReceiver _ hRunning =>
      obtain ⟨hGoesOn, hUp⟩ := hGoes hReceiver hRunning
      exact .coming s' (hMoves.client.trans hClient) hMoves.after hGoesOn hUp
    | present r hClient hReceiver _ hRunning hLast =>
      obtain ⟨hGoesOn, hUp⟩ := hGoes hReceiver hRunning
      exact .present s' (by rwa [hMoves.client]) hMoves.after hGoesOn hUp (by rwa [hMoves.returned])
    | leaving r hClient hReceiver hEntered hRunning =>
      obtain rfl := Option.some.inj (hMoves.before.symm.trans hReceiver)
      refine .leaving s' (hMoves.client.trans hClient) hMoves.after hMoves.entered ?_
      rw [hMoves.running, hRunning, decide_eq_false hEntered]
      rfl

/-- A call of `recv` or `state` does not touch what the life of the thread hangs on. -/
structure Aside (l l' : Life) : Prop where
  before : l.client = .idle ∨ l.client = .receiving
  after : l'.client = .idle ∨ l'.client = .receiving
  receiver : l'.receiver = l.receiver
  returned : l'.returned = l.returned
  terminated : l'.terminated = l.terminated
  outInitialized : l'.robot.outInitialized = l.robot.outInitialized
  running : l'.robot.running = l.robot.running

theorem Alive.aside {l l' : Life} (h : l.Alive) (hAside : l.Aside l') : l'.Alive where
  unterminated := hAside.terminated.trans h.unterminated
  outInitialized := hAside.outInitialized.trans h.outInitialized
  started := hAside.returned ▸ h.started
  stops := hAside.returned ▸ h.stops
  situation := by
    cases h.situation with
    | absent _ hReceiver hRunning hLast =>
      exact .absent hAside.after (hAside.receiver.trans hReceiver) (hAside.running.trans hRunning)
        (by rwa [hAside.returned])
    | coming s hClient => rcases hAside.before with hIdle | hIdle <;> rw [hClient] at hIdle <;> cases hIdle
    | present s _ hReceiver hAlive hRunning hLast =>
      exact .present s hAside.after (hAside.receiver.trans hReceiver) hAlive (hAside.running.trans hRunning)
        (by rwa [hAside.returned])
    | leaving s hClient => rcases hAside.before with hIdle | hIdle <;> rw [hClient] at hIdle <;> cases hIdle

theorem Alive.act {l l' : Life} {a : LifeAction} (h : l.Alive) (hStep : l.Step a l') : l.act a = some l' := by
  rwa [Step, next, h.unterminated] at hStep

theorem Alive.stops_returns {l : Life} (h : l.Alive) {c : LifeCall} {ok : Bool}
    (hNot : c = .stop → ok = false → lastTrue l.returned ≠ some .start) :
    ∀ earlier, (LifeCall.stop, false) :: earlier <:+ (c, ok) :: l.returned → lastTrue earlier ≠ some .start := by
  intro earlier hSuffix
  cases List.suffix_cons_iff.mp hSuffix with
  | inl hEq =>
    obtain ⟨hFirst, rfl⟩ := List.cons.inj hEq
    obtain ⟨rfl, rfl⟩ := Prod.mk.inj hFirst
    exact hNot rfl rfl
  | inr hOld => exact h.stops earlier hOld

theorem Alive.start {l l' : Life} (h : l.Alive) {x : Exchange} (hHeeds : l.Heeds (.start x))
    (hStep : l.Step (.start x) l') : l'.Alive := by
  have hNone : l.receiver = none := hHeeds
  replace hStep := h.act hStep
  simp only [Life.act] at hStep
  split at hStep
  · cases hStep
  · simp only [h.outInitialized, hNone, Bool.not_true, Bool.false_eq_true, if_false, Option.isSome_none] at hStep
    obtain rfl := Option.some.inj hStep
    have hDown : l.robot.running = false := by
      cases h.situation with
      | absent _ _ hRunning => exact hRunning
      | coming s _ hReceiver => rw [hNone] at hReceiver; cases hReceiver
      | present s _ hReceiver => rw [hNone] at hReceiver; cases hReceiver
      | leaving s _ hReceiver => rw [hNone] at hReceiver; cases hReceiver
    exact ⟨h.unterminated, h.outInitialized, h.started, h.stops, .coming .created rfl rfl (by simp) hDown⟩

theorem Alive.matched {l l' : Life} (h : l.Alive) (hStep : l.Step .matched l') : l'.Alive := by
  replace hStep := h.act hStep
  simp only [Life.act] at hStep
  split at hStep
  · rename_i hMatch
    obtain rfl := Option.some.inj hStep
    refine ⟨h.unterminated, h.outInitialized, by simpa [returns] using h.started, h.stops_returns (by simp), ?_⟩
    cases h.situation with
    | absent hClient => rw [hMatch.1] at hClient; simp at hClient
    | coming s _ hReceiver hAlive hRunning => exact .present s (Or.inl rfl) hReceiver hAlive hRunning rfl
    | present s hClient => rw [hMatch.1] at hClient; simp at hClient
    | leaving s hClient => rw [hMatch.1] at hClient; cases hClient
  · cases hStep

theorem Alive.stop {l l' : Life} (h : l.Alive) {sendCode : Int} (hHeeds : l.Heeds (.stop sendCode))
    (hStep : l.Step (.stop sendCode) l') : l'.Alive := by
  have hEntered : l.receiver ≠ some .created := hHeeds
  replace hStep := h.act hStep
  simp only [Life.act] at hStep
  split at hStep
  · cases hStep
  · rename_i hIdle
    have hIdle : l.client = .idle := by simpa using hIdle
    split at hStep
    · rename_i hDown
      obtain rfl := Option.some.inj hStep
      cases h.situation with
      | absent hClient hReceiver hRunning hLast =>
        exact ⟨h.unterminated, h.outInitialized, by simpa [returns] using h.started,
          h.stops_returns fun _ _ => hLast, .absent (Or.inl rfl) hReceiver hRunning hLast⟩
      | coming s hClient => rw [hClient] at hIdle; cases hIdle
      | present s hClient hReceiver hAlive hRunning hLast =>
        have hNot : s = .created := by simpa [hRunning] using hDown
        exact absurd (hNot ▸ hReceiver) hEntered
      | leaving s hClient => rw [hClient] at hIdle; cases hIdle
    · rename_i hUp
      obtain rfl := Option.some.inj hStep
      refine ⟨h.unterminated, h.outInitialized, h.started, h.stops, ?_⟩
      cases h.situation with
      | absent hClient hReceiver hRunning => simp [hRunning] at hUp
      | coming s hClient => rw [hClient] at hIdle; cases hIdle
      | present s hClient hReceiver hAlive hRunning hLast =>
        exact .leaving s rfl hReceiver (fun hSame => hEntered (hSame ▸ hReceiver)) rfl
      | leaving s hClient => rw [hClient] at hIdle; cases hIdle

theorem Alive.joined {l l' : Life} (h : l.Alive) {x : Exchange} (hStep : l.Step (.joined x) l') : l'.Alive := by
  replace hStep := h.act hStep
  simp only [Life.act] at hStep
  split at hStep
  · rename_i hJoin
    obtain rfl := Option.some.inj hStep
    refine ⟨h.unterminated, h.outInitialized, by simpa [returns] using h.started, h.stops_returns (by simp), ?_⟩
    cases h.situation with
    | absent hClient => rw [hJoin.1] at hClient; simp at hClient
    | coming s hClient => rw [hJoin.1] at hClient; cases hClient
    | present s hClient => rw [hJoin.1] at hClient; simp at hClient
    | leaving s _ _ _ hRunning => exact .absent (Or.inl rfl) rfl hRunning (by simp [returns, lastTrue])
  · cases hStep

theorem Alive.step {l l' : Life} {a : LifeAction} (h : l.Alive) (hHeeds : l.Heeds a) (hStep : l.Step a l') :
    l'.Alive := by
  have hNext := h.act hStep
  cases a with
  | start x => exact h.start hHeeds hStep
  | matched => exact h.matched hStep
  | expired => cases hHeeds
  | stop sendCode => exact h.stop hHeeds hStep
  | joined x => exact h.joined hStep
  | takeFrame reply ts =>
    simp only [Life.act] at hNext
    split at hNext
    · cases hNext
    · rename_i hIdle
      obtain ⟨⟨ok, b⟩, hTake, rfl⟩ := Option.map_eq_some_iff.mp hNext
      obtain ⟨hOut, hRunning⟩ := Robot.takeFrame_kept hTake
      refine h.aside ⟨Or.inl (by simpa using hIdle), ?_, rfl, rfl, rfl, hOut, hRunning⟩
      cases ok with
      | false => exact Or.inl rfl
      | true => exact Or.inr rfl
  | publish now =>
    simp only [Life.act] at hNext
    split at hNext
    · rename_i hClient
      obtain rfl := Option.some.inj hNext
      obtain ⟨hOut, hRunning⟩ := l.robot.publish_kept now
      exact h.aside ⟨Or.inr hClient, Or.inl rfl, rfl, rfl, rfl, hOut, hRunning⟩
    · cases hNext
  | state synchronous =>
    simp only [Life.act] at hNext
    split at hNext
    · rename_i hClient
      obtain rfl := Option.some.inj hNext
      obtain ⟨hOut, hRunning⟩ := l.robot.state_kept synchronous
      exact h.aside ⟨Or.inl hClient, Or.inl hClient, rfl, rfl, rfl, hOut, hRunning⟩
    · cases hNext
  | enter =>
    simp only [Life.act] at hNext
    split at hNext
    · rename_i hStage
      obtain rfl := Option.some.inj hNext
      exact h.thread ⟨hStage, rfl, rfl, rfl, rfl, rfl, by simp, by simp, by simp⟩
    · cases hNext
  | loopTest =>
    simp only [Life.act] at hNext
    split at hNext
    · rename_i hStage
      obtain rfl := Option.some.inj hNext
      refine h.thread ⟨hStage, rfl, rfl, rfl, rfl, rfl, ?_, by simp, ?_⟩ <;> cases l.robot.running <;> simp
    · cases hNext
  | threadFrame reply ts =>
    simp only [Life.act] at hNext
    split at hNext
    · rename_i hStage
      obtain ⟨⟨ok, b⟩, hTake, rfl⟩ := Option.map_eq_some_iff.mp hNext
      obtain ⟨hOut, hRunning⟩ := Robot.takeFrame_kept hTake
      refine h.thread ⟨hStage, rfl, rfl, rfl, rfl, hOut, ?_, by simpa using hRunning, ?_⟩ <;> cases ok <;> simp
    · cases hNext
  | threadPublish now =>
    simp only [Life.act] at hNext
    split at hNext
    · rename_i hStage
      obtain rfl := Option.some.inj hNext
      obtain ⟨hOut, hRunning⟩ := l.robot.publish_kept now
      exact h.thread ⟨hStage, rfl, rfl, rfl, rfl, hOut, by simp, by simpa using hRunning, by simp⟩
    · cases hNext

/-- Each way of not heeding the condition makes a call say what is not true. -/
theorem Alive.not_tracked {l l' : Life} {a : LifeAction} (h : l.Alive) (hNot : ¬ l.Heeds a) (hStep : l.Step a l') :
    ¬ l'.Tracked := by
  replace hStep := h.act hStep
  intro hTracked
  cases a with
  | start x =>
    have hSome : l.receiver.isSome = true := Option.isSome_iff_ne_none.mpr hNot
    simp only [Life.act] at hStep
    split at hStep
    · cases hStep
    · rw [h.outInitialized] at hStep
      obtain rfl := Option.some.inj hStep
      cases hTracked.unterminated
  | expired =>
    simp only [Life.act] at hStep
    split at hStep
    · rename_i hLate
      obtain rfl := Option.some.inj hStep
      have hNone : l.receiver = none := hTracked.failedStart rfl rfl
      cases h.situation with
      | absent hClient => rw [hLate.1] at hClient; simp at hClient
      | coming s _ hReceiver => rw [hNone] at hReceiver; cases hReceiver
      | present s _ hReceiver => rw [hNone] at hReceiver; cases hReceiver
      | leaving s _ hReceiver => rw [hNone] at hReceiver; cases hReceiver
    · cases hStep
  | stop sendCode =>
    have hCreated : l.receiver = some .created := not_not.mp hNot
    simp only [Life.act] at hStep
    split at hStep
    · cases hStep
    · rename_i hIdle
      have hIdle : l.client = .idle := by simpa using hIdle
      cases h.situation with
      | absent _ hReceiver => rw [hReceiver] at hCreated; cases hCreated
      | coming s hClient => rw [hClient] at hIdle; cases hIdle
      | present s _ hReceiver _ hRunning hLast =>
        obtain rfl := Option.some.inj (hCreated.symm.trans hReceiver)
        have hDown : l.robot.running = false := hRunning
        simp only [hDown, Bool.not_false, if_true] at hStep
        obtain rfl := Option.some.inj hStep
        exact hTracked.stops l.returned (List.suffix_refl _) hLast
      | leaving s hClient => rw [hClient] at hIdle; cases hIdle
  | _ => exact hNot trivial

/-- A run keeps what its calls say of the thread true if and only if all its steps heed the condition. -/
theorem tracked_iff {b : Robot} (hOut : b.outInitialized = true) (hRunning : b.running = false)
    {actions : List LifeAction} {l : Life} :
    Path (Restrict (fun l a => ∀ l', l.Step a l' → l'.Tracked) Step) (new b) actions l ↔
      Path (Restrict Heeds Step) (new b) actions l := by
  apply Path.restrict_iff (p := Alive) _ (alive_new hOut hRunning)
  intro s a t hAlive hStep
  have hKeeps : s.Heeds a → t.Alive := fun hHeeds => hAlive.step hHeeds hStep
  refine ⟨(forall_next_iff hStep).trans ⟨fun hTracked => ?_, fun hHeeds => (hKeeps hHeeds).tracked⟩, hKeeps⟩
  by_contra hNot
  exact hAlive.not_tracked hNot hStep hTracked

def outputAnswered : Registration := answeredWith .setupOutputs outputTypesOf

/-- A robot with its output set up, as it serves its calls. -/
def serve (allowed : Life → LifeAction → Bool) (actions : List LifeAction) : Option Life :=
  ((Robot.init (fun _ => 0) (fun _ => 0) ⟨-1, none⟩).initOutput true outputAnswered).bind fun (ok, b) =>
    if ok && !b.running && b.outInitialized then runWhile allowed next (new b) actions else none

theorem path_of_serve {allowed : Life → LifeAction → Bool} {actions : List LifeAction} {l : Life}
    (h : serve allowed actions = some l) :
    ∃ b, (Robot.init (fun _ => 0) (fun _ => 0) ⟨-1, none⟩).initOutput true outputAnswered = some (true, b) ∧
      b.outInitialized = true ∧ b.running = false ∧
      Path (Restrict (fun l a => allowed l a = true) Step) (new b) actions l := by
  obtain ⟨⟨ok, b⟩, hInit, hRest⟩ := Option.bind_eq_some_iff.mp h
  dsimp only at hRest
  split at hRest
  · rename_i hReady
    simp only [Bool.and_eq_true, Bool.not_eq_true'] at hReady
    obtain ⟨⟨rfl, hRunning⟩, hOut⟩ := hReady
    exact ⟨b, hInit, hOut, hRunning, path_of_runWhile hRest⟩
  · cases hRest

def serveActions : List LifeAction :=
  [.start ⟨-1, none⟩, .enter, .loopTest, .threadFrame (some Robot.zeroPackage) 0, .threadPublish 0, .matched,
    .state true, .stop 1, .loopTest, .joined ⟨-1, none⟩]

set_option maxRecDepth 100000 in
theorem tracked_iff_served : ∃ b l,
    (Robot.init (fun _ => 0) (fun _ => 0) ⟨-1, none⟩).initOutput true outputAnswered = some (true, b) ∧
      Path (Restrict (fun l a => ∀ l', l.Step a l' → l'.Tracked) Step) (new b) serveActions l ∧
      l.returned = [(.stop, true), (.start, true)] := by
  have hRuns : (serve (fun l a => decide (l.Heeds a)) serveActions).map (fun l => l.returned) =
      some [(.stop, true), (.start, true)] := by decide +kernel
  obtain ⟨l, hRun, hReturned⟩ := Option.map_eq_some_iff.mp hRuns
  obtain ⟨b, hInit, hOut, hRunning, hPath⟩ := path_of_serve hRun
  simp only [decide_eq_true_eq] at hPath
  exact ⟨b, l, hInit, (tracked_iff hOut hRunning).mpr hPath, hReturned⟩

set_option maxRecDepth 100000 in
/-- A `start` that waits in vain returns false and leaves its thread behind. -/
theorem expired_start_leaves_thread : ¬ ∀ (storage buffer : Buf) (x : Exchange) (g : Registration) (b : Robot)
    (actions : List LifeAction) (l : Life), (Robot.init storage buffer x).initOutput true g = some (true, b) →
      Path Step (new b) actions l → l.Tracked := by
  intro h
  have hRuns : (serve (fun _ _ => true) [.start ⟨-1, none⟩, .expired]).map
      (fun l => (l.client, l.returned, l.receiver)) = some (.idle, [(.start, false)], some .created) := by
    decide +kernel
  obtain ⟨l, hRun, hEnd⟩ := Option.map_eq_some_iff.mp hRuns
  obtain ⟨b, hInit, -, -, hPath⟩ := path_of_serve hRun
  obtain ⟨hIdle, hRest⟩ := Prod.mk.inj hEnd
  obtain ⟨hReturned, hReceiver⟩ := Prod.mk.inj hRest
  have hTracked := h _ _ _ _ b _ l hInit hPath.of_restrict
  have hNone := hTracked.failedStart hIdle (by rw [hReturned]; rfl)
  rw [hReceiver] at hNone
  cases hNone

end Life

end LibUrx
