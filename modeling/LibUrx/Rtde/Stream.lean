import LibUrx.Net.Sockets
import LibUrx.Rtde.WireFrames

/-! # The stream of bytes to the controller

A connection carries a stream of bytes. The system may take a part of a frame only: the call then reports a failure,
and nothing sends the rest. A new connection starts with an empty stream.
-/
namespace LibUrx.Rtde
open Bytes Text Framing Net Runs
set_option autoImplicit false

/-- The first frame on the stream of which the system took a part, and what had been sent before. -/
structure Cut where
  before : List (List UInt8)
  frame : List UInt8
  count : Nat
  deriving DecidableEq

/-- A handler with its connection. `told` are the frames for which `do_send` has reported success since the connection
was made. -/
structure Line where
  con : Con
  world : World
  stream : List UInt8
  told : List (List UInt8)
  cut : Option Cut

inductive LineAction where
  | call (c : HandlerCall) (written : List Int)
  | emerg (msg : List UInt8) (written : Int)
  | connect (x : Net.Attempt)
  | disconnect

/-- The results of `do_send` that a call goes by, in their order. -/
def sendCodes : HandlerCall → List Int
  | .register _ g => [g.exchange.sendCode, g.initialSend]
  | .send _ sendCode => [sendCode]
  | .setVersion x | .getUrVersion _ x | .start x | .stop x => [x.sendCode]
  | .recv _ _ | .recipe _ _ | .assign _ _ => []

namespace Line

def start (mem : Memory) (buffer : Buf) : Line := ⟨.init, .fresh mem buffer, [], [], none⟩

def write (l : Line) (frame : List UInt8) (written : Int) : Line where
  con := l.con
  world := l.world
  stream := if l.con.connected then l.stream ++ frame.take written.toNat else l.stream
  told := if 0 < l.con.doSend frame.length written then l.told ++ [frame] else l.told
  cut := l.cut.or
    (if l.con.connected && decide (0 < written) && decide (written < frame.length) then
      some ⟨l.told, frame, written.toNat⟩
    else none)

def writes (l : Line) (sent : List (List UInt8 × Int)) : Line := sent.foldl (fun l p => l.write p.1 p.2) l

def connect (l : Line) (x : Net.Attempt) : Line :=
  if l.con.connected then l
  else if (l.con.doConnect x).1 then ⟨(l.con.doConnect x).2, l.world, [], [], none⟩
  else { l with con := (l.con.doConnect x).2 }

/-- The system takes no more than it is given. -/
inductive Step (l : Line) : LineAction → Line → Prop where
  | call {c : HandlerCall} {w : World} {written : List Int} (done : HandlerStep l.world c w)
      (each : written.length = (l.world.sentIn w).length)
      (given : ∀ p ∈ (l.world.sentIn w).zip written, p.2 ≤ p.1.length)
      (codes : ((l.world.sentIn w).zip written).map (fun p => l.con.doSend p.1.length p.2) <+: sendCodes c) :
      Step l (.call c written) { l.writes ((l.world.sentIn w).zip written) with world := w }
  | refused {msg : List UInt8} (long : sendEmergMsg msg = none) (written : Int) : Step l (.emerg msg written) l
  | emerg {msg frame : List UInt8} {written : Int} (made : sendEmergMsg msg = some frame)
      (given : written ≤ frame.length) : Step l (.emerg msg written) (l.write frame written)
  | connect (x : Net.Attempt) : Step l (.connect x) (l.connect x)
  | disconnect : Step l .disconnect { l with con := l.con.disconnect }

/-- The recipes that are put together keep to their packages. -/
def InRoom (l : Line) : LineAction → Prop
  | .call c _ => l.world.InRoom c
  | .emerg _ _ | .connect _ | .disconnect => True

structure Sound (l : Line) : Prop where
  told : ∀ frame ∈ l.told, wireFormat.Whole frame
  uncut : l.cut = none → l.stream = l.told.flatten
  cut : ∀ c, l.cut = some c → wireFormat.Whole c.frame ∧ 0 < c.count ∧ c.count < c.frame.length ∧
    ∃ newer later, l.told = c.before ++ newer ∧ l.stream = c.before.flatten ++ (c.frame.take c.count ++ later) ∧
      newer.flatten.Sublist later

/-- The system takes nothing, all of the frame, or a part. -/
theorem write_cases (l : Line) {frame : List UInt8} {written : Int} (hGiven : written ≤ frame.length) :
    l.write frame written = l ∨
      frame ≠ [] ∧ l.write frame written = { l with stream := l.stream ++ frame, told := l.told ++ [frame] } ∨
      ∃ n, 0 < n ∧ n < frame.length ∧ l.write frame written =
        { l with stream := l.stream ++ frame.take n, cut := l.cut.or (some ⟨l.told, frame, n⟩) } := by
  cases hConnected : l.con.connected with
  | false => exact Or.inl (by simp [write, Con.doSend, hConnected])
  | true =>
    rcases Int.lt_or_le 0 written with hSome | hNone
    · obtain ⟨n, rfl⟩ := Int.eq_ofNat_of_zero_le hSome.le
      rcases Nat.lt_or_ge n frame.length with hPart | hAll
      · have hPos : 0 < n := by omega
        refine Or.inr (Or.inr ⟨n, hPos, hPart, ?_⟩)
        have hFailed : l.con.doSend frame.length n = -1 := by simp [Con.doSend, hConnected, hPart]
        rw [write, hFailed, hConnected, decide_eq_true hSome, decide_eq_true (Int.ofNat_lt.mpr hPart)]
        rfl
      · obtain rfl : n = frame.length := by omega
        have hNe : frame ≠ [] := List.ne_nil_of_length_pos (by omega)
        refine Or.inr (Or.inl ⟨hNe, ?_⟩)
        simp [write, Con.doSend, hConnected, hNe]
    · refine Or.inl ?_
      have hZero : written.toNat = 0 := Int.toNat_of_nonpos hNone
      have hFailed : ¬ 0 < l.con.doSend frame.length written := by
        rw [Con.doSend, hConnected, Bool.not_true, if_neg Bool.false_ne_true]
        split <;> omega
      simp [write, hConnected, hFailed, hZero, hNone.not_gt]

theorem Sound.write {l : Line} (h : l.Sound) {frame : List UInt8} (hFrame : Sendable frame) {written : Int}
    (hGiven : written ≤ frame.length) : (l.write frame written).Sound := by
  rcases l.write_cases hGiven with hWrite | ⟨hNe, hWrite⟩ | ⟨n, hPos, hShort, hWrite⟩
  · rwa [hWrite]
  · rw [hWrite]
    refine ⟨fun old hMem => ?_, fun hUncut => ?_, fun c hCut => ?_⟩
    · rcases List.mem_append.mp hMem with hOld | hNew
      · exact h.told old hOld
      · exact List.mem_singleton.mp hNew ▸ hFrame.resolve_left hNe
    · change l.stream ++ frame = (l.told ++ [frame]).flatten
      rw [h.uncut hUncut, List.flatten_append, List.flatten_singleton]
    · obtain ⟨hWhole, hSome, hPart, newer, later, hTold, hStream, hWithin⟩ := h.cut c hCut
      refine ⟨hWhole, hSome, hPart, newer ++ [frame], later ++ frame, ?_, ?_, ?_⟩
      · change l.told ++ [frame] = _
        rw [hTold, List.append_assoc]
      · change l.stream ++ frame = _
        rw [hStream]
        simp only [List.append_assoc]
      · rw [List.flatten_append, List.flatten_singleton]
        exact hWithin.append (List.Sublist.refl frame)
  · rw [hWrite]
    refine ⟨h.told, fun hUncut => ?_, fun c hCut => ?_⟩
    · cases hOld : l.cut <;> simp [hOld] at hUncut
    · cases hOld : l.cut with
      | none =>
        obtain rfl : _ = c := Option.some.inj (by simpa [hOld] using hCut)
        have hNe : frame ≠ [] := List.ne_nil_of_length_pos (by omega)
        refine ⟨hFrame.resolve_left hNe, hPos, hShort, [], [], (List.append_nil _).symm, ?_, List.nil_sublist []⟩
        change l.stream ++ frame.take n = _
        rw [h.uncut hOld, List.append_nil]
      | some old =>
        obtain rfl : old = c := Option.some.inj (by simpa [hOld] using hCut)
        obtain ⟨hWhole, hSome, hPart, newer, later, hTold, hStream, hWithin⟩ := h.cut old hOld
        refine ⟨hWhole, hSome, hPart, newer, later ++ frame.take n, hTold, ?_, hWithin.trans (List.sublist_append_left _ _)⟩
        change l.stream ++ frame.take n = _
        rw [hStream]
        simp only [List.append_assoc]

theorem Sound.writes {l : Line} (h : l.Sound) {sent : List (List UInt8 × Int)}
    (hSent : ∀ p ∈ sent, Sendable p.1 ∧ p.2 ≤ p.1.length) : (l.writes sent).Sound := by
  induction sent generalizing l with
  | nil => exact h
  | cons p sent ih =>
    obtain ⟨hFrame, hGiven⟩ := hSent p List.mem_cons_self
    exact ih (h.write hFrame hGiven) (List.forall_mem_of_forall_mem_cons hSent)

theorem Sound.congr {l l' : Line} (h : l.Sound) (hStream : l'.stream = l.stream) (hTold : l'.told = l.told)
    (hCut : l'.cut = l.cut) : l'.Sound := by
  refine ⟨?_, ?_, ?_⟩
  · rw [hTold]
    exact h.told
  · rw [hStream, hTold, hCut]
    exact h.uncut
  · rw [hStream, hTold, hCut]
    exact h.cut

theorem sound_step {l l' : Line} {a : LineAction} (h : l.world.Framed ∧ l.Sound) (hRoom : l.InRoom a)
    (hStep : l.Step a l') : l'.world.Framed ∧ l'.Sound := by
  obtain ⟨hFramed, hSound⟩ := h
  cases hStep with
  | @call c w written done each given codes =>
    have hSends := hFramed.step hRoom done
    refine ⟨hSends.framed, (hSound.writes ?_).congr rfl rfl rfl⟩
    rintro ⟨frame, n⟩ hMem
    exact ⟨hSends.sendable frame (List.of_mem_zip hMem).1, given _ hMem⟩
  | refused => exact ⟨hFramed, hSound⟩
  | emerg made given => exact ⟨hFramed, hSound.write (Or.inr (whole_sendEmergMsg made)) given⟩
  | connect x =>
    rw [connect]
    split
    · exact ⟨hFramed, hSound⟩
    · split
      · exact ⟨hFramed, List.forall_mem_nil _, fun _ => rfl, by rintro _ ⟨⟩⟩
      · exact ⟨hFramed, hSound.congr rfl rfl rfl⟩
  | disconnect => exact ⟨hFramed, hSound.congr rfl rfl rfl⟩

end Line

end LibUrx.Rtde
