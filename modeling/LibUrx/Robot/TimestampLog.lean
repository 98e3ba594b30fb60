import LibUrx.Robot.QRef

/-! # The log of the times

`recv` keeps the times of what it publishes, and a synchronous call of `state` that finds a new state prints them
to a file if there are many of them. The file is given by what has been printed to it, line by line. What is
printed to the terminal on request is left out.
-/
namespace LibUrx
open Bytes Rtde Runs
set_option autoImplicit false

/-- The local time and the time of the controller. -/
structure TsEntry where
  localTsUs : Option Int
  urTs : UInt64
  deriving DecidableEq

inductive TsLine where
  | heading
  | entry (e : TsEntry)
  deriving DecidableEq

/-- What a run is judged by: the successful calls of `recv`, with the times that they have received, and the
synchronous calls of `state` that have found a new state. -/
inductive TsEvent where
  | received (e : TsEntry)
  | collected
  deriving DecidableEq

/-- A robot with its log, whose file may not have opened. -/
structure LoggedRobot where
  system : System
  tsLog : List TsEntry
  tsLogFile : Option (List TsLine)
  history : List TsEvent
  destroyed : Bool

inductive LogAction where
  | call (a : Action)
  | destroy

namespace LoggedRobot

def new (storage buffer : Buf) (x : Exchange) (opened : Bool) : LoggedRobot where
  system := System.new storage buffer x
  tsLog := []
  tsLogFile := if opened then some [.heading] else none
  history := []
  destroyed := false

/-- What `recv` does to the log, once it has published `now` and the time stamp. -/
def pushed (l : LoggedRobot) (now : Int) (s : System) : LoggedRobot :=
  { l with
    system := s
    tsLog := l.tsLog ++ [⟨s.robot.urState.localTsUs, s.robot.urState.urTs⟩]
    history := l.history ++ [.received ⟨some now, getDouble l.system.robot.mem Member.timestamp⟩] }

/-- What a synchronous call of `state` does to the log, once it has a new state. -/
def collected (l : LoggedRobot) (s : System) : LoggedRobot :=
  let (tsLogLoc, tsLog) := if l.tsLog.length > 500 then (l.tsLog, []) else ([], l.tsLog)
  { l with
    system := s
    tsLog := tsLog
    tsLogFile := if tsLogLoc.length > 3 then l.tsLogFile.map (· ++ tsLogLoc.map .entry) else l.tsLogFile
    history := l.history ++ [.collected] }

/-- What a step of the system does to the log. -/
def logged (l : LoggedRobot) (a : Action) (s : System) : LoggedRobot :=
  match a with
  | .publish now => if (l.system.robot.publish now).1 then l.pushed now s else { l with system := s }
  | .state synchronous =>
    if synchronous && l.system.robot.updatedState then l.collected s else { l with system := s }
  | _ => { l with system := s }

/-- The destructor closes the file. -/
def next (l : LoggedRobot) : LogAction → Option LoggedRobot
  | .call a => if l.destroyed then none else (l.system.next a).map (l.logged a)
  | .destroy => if l.destroyed then none else some { l with destroyed := true }

def Step (l : LoggedRobot) (a : LogAction) (l' : LoggedRobot) : Prop := l.next a = some l'

/-- The times that have been received, in order. -/
def received (l : LoggedRobot) : List TsEntry :=
  l.history.filterMap fun
    | .received e => some e
    | .collected => none

/-- How many times have been received since the last call of `state` that found more than 500 of them. -/
def pending (l : LoggedRobot) : Nat :=
  l.history.foldl (fun n event =>
    match event with
    | .received _ => n + 1
    | .collected => if n > 500 then 0 else n) 0

/-- The file and the entries that are left are what has been received. -/
def Complete (l : LoggedRobot) : Prop :=
  ∃ printed, l.tsLogFile = some (.heading :: printed.map .entry) ∧ printed ++ l.tsLog = l.received

/-- Once the robot is destroyed, the file has it all. -/
structure Accounted (l : LoggedRobot) : Prop where
  complete : l.Complete
  kept : l.destroyed = true → l.tsLogFile = some (.heading :: l.received.map .entry)

def Keeps (l : LoggedRobot) (a : LogAction) : Prop := ∀ l', l.Step a l' → l'.Accounted

/-- The robot is destroyed only when nothing is pending. -/
def Spares (l : LoggedRobot) : LogAction → Prop
  | .call _ => True
  | .destroy => l.pending = 0

/-- What a step can do to the log. -/
inductive LogMoves (l l' : LoggedRobot) : LogAction → Prop where
  | pushed {e : TsEntry} {a : Action} (log : l'.tsLog = l.tsLog ++ [e]) (file : l'.tsLogFile = l.tsLogFile)
      (event : l'.history = l.history ++ [.received e]) (alive : l'.destroyed = false) : LogMoves l l' (.call a)
  | flushed {a : Action} (many : l.tsLog.length > 500) (log : l'.tsLog = [])
      (file : l'.tsLogFile = l.tsLogFile.map (· ++ l.tsLog.map .entry))
      (event : l'.history = l.history ++ [.collected]) (alive : l'.destroyed = false) : LogMoves l l' (.call a)
  | spared {a : Action} (few : ¬ l.tsLog.length > 500) (log : l'.tsLog = l.tsLog) (file : l'.tsLogFile = l.tsLogFile)
      (event : l'.history = l.history ++ [.collected]) (alive : l'.destroyed = false) : LogMoves l l' (.call a)
  | same {a : LogAction} (log : l'.tsLog = l.tsLog) (file : l'.tsLogFile = l.tsLogFile)
      (event : l'.history = l.history) (ends : l'.destroyed = true → a = .destroy) : LogMoves l l' a

/-- What is pushed are the times that the call has received. -/
theorem times_of_publish {s t : System} {now : Int} (hOk : (s.robot.publish now).1 = true)
    (hNext : s.next (.publish now) = some t) :
    (⟨t.robot.urState.localTsUs, t.robot.urState.urTs⟩ : TsEntry) =
      ⟨some now, getDouble s.robot.mem Member.timestamp⟩ := by
  simp only [System.next] at hNext
  split at hNext
  · cases hNext
  · obtain rfl := Option.some.inj hNext
    rw [Robot.publish] at hOk ⊢
    split at hOk
    · cases hOk
    · rename_i hIn
      rw [if_neg hIn]

theorem logMoves_of_step {l l' : LoggedRobot} {a : LogAction} (h : l.Step a l') : LogMoves l l' a := by
  cases a with
  | destroy =>
    rw [Step, next] at h
    split at h
    · cases h
    · obtain rfl := Option.some.inj h
      exact .same rfl rfl rfl fun _ => rfl
  | call a =>
    rw [Step, next] at h
    split at h
    · cases h
    · rename_i hAlive
      obtain ⟨s, hNext, rfl⟩ := Option.map_eq_some_iff.mp h
      have hSame : LogMoves l { l with system := s } (.call a) := .same rfl rfl rfl fun hGone => absurd hGone hAlive
      rw [Bool.not_eq_true] at hAlive
      cases a with
      | publish now =>
        rw [logged]
        split
        · rename_i hOk
          have hTimes := times_of_publish hOk hNext
          exact .pushed rfl rfl (by rw [hTimes]; rfl) hAlive
        · exact hSame
      | state synchronous =>
        rw [logged]
        split
        · by_cases hMany : l.tsLog.length > 500
          · have hLong : l.tsLog.length > 3 := by omega
            refine .flushed hMany ?_ ?_ rfl hAlive <;> simp [collected, hMany, hLong]
          · refine .spared hMany ?_ ?_ rfl hAlive <;> simp [collected, hMany]
        · exact hSame
      | _ => exact hSame

variable {l l' : LoggedRobot} {a : LogAction}

theorem received_of_push {e : TsEntry} (h : l'.history = l.history ++ [.received e]) :
    l'.received = l.received ++ [e] ∧ l'.pending = l.pending + 1 := by
  rw [received, pending, h, List.filterMap_append, List.foldl_append]
  exact ⟨rfl, rfl⟩

theorem received_of_collect (h : l'.history = l.history ++ [.collected]) :
    l'.received = l.received ∧ l'.pending = if l.pending > 500 then 0 else l.pending := by
  rw [received, pending, h, List.filterMap_append, List.foldl_append]
  exact ⟨List.append_nil _, rfl⟩

theorem received_of_same (h : l'.history = l.history) : l'.received = l.received ∧ l'.pending = l.pending := by
  rw [received, pending, h]
  exact ⟨rfl, rfl⟩

/-- The file and the log have it all, and the log is as long as the history says. -/
structure Tracked (l : LoggedRobot) : Prop where
  complete : l.Complete
  length : l.tsLog.length = l.pending

theorem tracked_new (storage buffer : Buf) (x : Exchange) : (new storage buffer x true).Tracked :=
  ⟨⟨[], rfl, rfl⟩, rfl⟩

/-- No entry is lost or printed twice. -/
theorem Tracked.step (h : l.Tracked) (hMoves : LogMoves l l' a) : l'.Tracked := by
  obtain ⟨⟨printed, hFile, hAll⟩, hLength⟩ := h
  cases hMoves with
  | @pushed e _ log file event _ =>
    obtain ⟨hReceived, hPending⟩ := received_of_push event
    constructor
    · refine ⟨printed, file.trans hFile, ?_⟩
      rw [log, hReceived, ← List.append_assoc, hAll]
    · rw [log, hPending, List.length_append, hLength]
      rfl
  | flushed many log file event _ =>
    obtain ⟨hReceived, hPending⟩ := received_of_collect event
    constructor
    · refine ⟨printed ++ l.tsLog, ?_, ?_⟩
      · rw [file, hFile, Option.map_some, List.cons_append, List.map_append]
      · rw [log, hReceived, List.append_nil, hAll]
    · rw [log, hPending, if_pos (hLength ▸ many)]
      rfl
  | spared few log file event _ =>
    obtain ⟨hReceived, hPending⟩ := received_of_collect event
    constructor
    · exact ⟨printed, file.trans hFile, by rw [log, hReceived, hAll]⟩
    · rw [log, hPending, if_neg (hLength ▸ few), hLength]
  | same log file event _ =>
    obtain ⟨hReceived, hPending⟩ := received_of_same event
    constructor
    · exact ⟨printed, file.trans hFile, by rw [log, hReceived, hAll]⟩
    · rw [log, hPending, hLength]

/-- The file has it all if and only if nothing is left in the log. -/
theorem Complete.all_iff (h : l.Complete) :
    l.tsLogFile = some (.heading :: l.received.map .entry) ↔ l.tsLog = [] := by
  obtain ⟨printed, hFile, hAll⟩ := h
  have hInjective : Function.Injective TsLine.entry := fun e e' hEq => TsLine.entry.inj hEq
  rw [hFile, ← hAll, Option.some_inj, List.cons.injEq, and_iff_right rfl, hInjective.list_map.eq_iff]
  exact List.self_eq_append_right

theorem keeps_iff (h : l.Tracked) (hStep : l.Step a l') : l.Keeps a ↔ l.Spares a := by
  have hNext : l'.Tracked := h.step (logMoves_of_step hStep)
  have hKeeps : l.Keeps a ↔ l'.Accounted := forall_next_iff hStep
  rw [hKeeps]
  cases a with
  | call a =>
    refine iff_of_true ⟨hNext.complete, fun hGone => ?_⟩ trivial
    cases logMoves_of_step hStep with
    | pushed _ _ _ alive | flushed _ _ _ _ alive | spared _ _ _ _ alive =>
      rw [alive] at hGone
      cases hGone
    | same _ _ _ ends => cases ends hGone
  | destroy =>
    rw [Spares, ← h.length, List.length_eq_zero_iff]
    rw [Step, next] at hStep
    split at hStep
    · cases hStep
    · obtain rfl := Option.some.inj hStep
      constructor
      · exact fun hAccounted => hNext.complete.all_iff.mp (hAccounted.kept rfl)
      · exact fun hNone => ⟨hNext.complete, fun _ => hNext.complete.all_iff.mpr hNone⟩

/-- In every run of a robot whose log file has opened, file and log have what has been received, and the file has it
all in the end if and only if nothing is pending when the robot is destroyed. -/
theorem log_run_iff (storage buffer : Buf) (x : Exchange) (actions : List LogAction) (l : LoggedRobot) :
    (Path (Restrict Keeps Step) (new storage buffer x true) actions l ↔
      Path (Restrict Spares Step) (new storage buffer x true) actions l) ∧
      (Path Step (new storage buffer x true) actions l → l.Complete) := by
  constructor
  · exact Path.restrict_iff (p := Tracked)
      (fun _ _ _ h hStep => ⟨keeps_iff h hStep, fun _ => h.step (logMoves_of_step hStep)⟩) (tracked_new storage buffer x)
  · intro hRun
    exact (hRun.invariant (p := Tracked) (fun _ _ _ h hStep => h.step (logMoves_of_step hStep))
      (tracked_new storage buffer x)).complete

def receivedOnce : List LogAction :=
  [.call (.initOutputTcpPose true (answeredWith .setupOutputs (typesOf true outputFieldsTcpPose))),
    .call (.takeFrame (some System.firstAnswer) 0), .call (.publish 7), .destroy]

set_option maxRecDepth 100000 in
/-- What has been received once is not printed when the robot is destroyed. -/
theorem log_ends_short : ¬ ∀ (storage buffer : Buf) (x : Exchange) (actions : List LogAction) (l : LoggedRobot),
    Path Step (new storage buffer x true) actions l → l.Accounted := by
  intro h
  have hRuns : (runWhile (fun _ _ => true) next (new (fun _ => 0) (fun _ => 0) ⟨-1, none⟩ true) receivedOnce).map
      (fun l => (l.tsLogFile, l.received, l.destroyed)) = some (some [.heading], [⟨some 7, 0⟩], true) := by
    decide +kernel
  obtain ⟨l, hRun, hEnd⟩ := Option.map_eq_some_iff.mp hRuns
  obtain ⟨hFile, hRest⟩ := Prod.mk.inj hEnd
  obtain ⟨hReceived, hDestroyed⟩ := Prod.mk.inj hRest
  have hKept := (h _ _ _ _ l (path_of_runWhile hRun).of_restrict).kept hDestroyed
  rw [hFile, hReceived] at hKept
  cases hKept

end LoggedRobot

end LibUrx
