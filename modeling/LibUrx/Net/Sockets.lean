import LibUrx.Base.Runs

/-! # The sockets of a connection

What the calls of the operating system return is the environment's choice. The descriptors that are open are
kept beside the members of the object, since the object itself does not keep account of them.
-/
namespace LibUrx.Net
open Runs
set_option autoImplicit false

/-- What the calls of one attempt to connect return. The option that `nodelay` asks for is not among them, as a
failure to set it is reported and not acted on. -/
structure Attempt where
  socket : Int
  inetPton : Int
  connect : Int

/-- `opened` are the descriptors that `socket` has handed to the object and that are still open. -/
structure Con where
  sock : Int
  connected : Bool
  opened : List Int

namespace Con

def init : Con := ⟨-1, false, []⟩

def disconnect (c : Con) : Con := if !c.connected then c else { c with connected := false, sock := -1 }

/-- The member gets what the call returns, which is a descriptor if it is not negative. -/
def socket (c : Con) (result : Int) : Con :=
  { c with sock := result, opened := if result < 0 then c.opened else result :: c.opened }

def doConnect (c : Con) (x : Attempt) : Bool × Con :=
  if c.connected then (true, c) else
  let c := c.socket x.socket
  if c.sock < 0 then (false, c)
  else if x.inetPton ≤ 0 then (false, c)
  else if x.connect < 0 then (false, c)
  else (true, { c with connected := true })

/-- `written` is what the system reports to have taken of the `ssz` bytes. -/
def doSend (c : Con) (ssz : Nat) (written : Int) : Int :=
  if !c.connected then -1
  else if written < ssz then -1
  else written

/-- At most one socket is open, and one is exactly while the object says that it is connected. -/
structure Matched (c : Con) : Prop where
  single : c.opened.length ≤ 1
  connected : c.opened ≠ [] ↔ c.connected = true

end Con

inductive ConCall where
  | doConnect (x : Attempt)
  | disconnect
  | destroy

/-- An object from its construction to its destruction. -/
structure ConLife where
  con : Con
  destroyed : Bool

namespace ConLife

def new : ConLife := ⟨Con.init, false⟩

/-- A descriptor that is open is not handed out again. The destructor disconnects. -/
def next (l : ConLife) (call : ConCall) : Option ConLife :=
  if l.destroyed then none else
  match call with
  | .doConnect x =>
    if !l.con.connected && l.con.opened.contains x.socket then none
    else some { l with con := (l.con.doConnect x).2 }
  | .disconnect => some { l with con := l.con.disconnect }
  | .destroy => some ⟨l.con.disconnect, true⟩

def Step (l : ConLife) (call : ConCall) (l' : ConLife) : Prop := l.next call = some l'

/-- Behind an attempt that has failed, and behind the end of a connection, no socket is open. -/
def Released (l : ConLife) (call : ConCall) (l' : ConLife) : Prop :=
  l'.con.Matched ∧ match call with
    | .doConnect x => (l.con.doConnect x).1 = false → l'.con.opened = []
    | .disconnect | .destroy => l'.con.opened = []

/-- A call that leaves no socket behind. -/
def Tidy (l : ConLife) (call : ConCall) : Prop := ∀ l', l.Step call l' → l.Released call l'

/-- No connection is ended, and no attempt fails once it has its socket. -/
def Spares (l : ConLife) : ConCall → Prop
  | .doConnect x => l.con.connected = true ∨ x.socket < 0 ∨ (0 < x.inetPton ∧ 0 ≤ x.connect)
  | .disconnect | .destroy => l.con.connected = false

end ConLife

namespace Con

theorem Matched.opened_eq_nil {c : Con} (h : c.Matched) (hNot : c.connected = false) : c.opened = [] := by
  apply Classical.byContradiction
  intro hOpen
  rw [h.connected.mp hOpen] at hNot
  cases hNot

theorem matched_init : init.Matched := ⟨Nat.zero_le _, iff_of_false (fun h => h rfl) Bool.false_ne_true⟩

/-- Ending a connection forgets its socket. -/
theorem Matched.disconnect_iff {c : Con} (h : c.Matched) :
    (c.disconnect.Matched ∧ c.disconnect.opened = []) ↔ c.connected = false := by
  cases hConnected : c.connected with
  | false =>
    have hSame : c.disconnect = c := by simp [disconnect, hConnected]
    rw [hSame]
    exact iff_of_true ⟨h, h.opened_eq_nil hConnected⟩ rfl
  | true =>
    refine iff_of_false ?_ (fun hNot => by cases hNot)
    rintro ⟨-, hNone⟩
    have hKept : c.disconnect.opened = c.opened := by simp [disconnect, hConnected]
    exact h.connected.mpr hConnected (hKept.symm.trans hNone)

/-- A new attempt ends without a socket, with one that nobody will close, or with a connection. -/
theorem doConnect_cases {c : Con} (hNot : c.connected = false) (hNone : c.opened = []) (x : Attempt) :
    (x.socket < 0 ∧ c.doConnect x = (false, ⟨x.socket, false, []⟩)) ∨
      (0 ≤ x.socket ∧ (x.inetPton ≤ 0 ∨ x.connect < 0) ∧ c.doConnect x = (false, ⟨x.socket, false, [x.socket]⟩)) ∨
      (0 ≤ x.socket ∧ 0 < x.inetPton ∧ 0 ≤ x.connect ∧ c.doConnect x = (true, ⟨x.socket, true, [x.socket]⟩)) := by
  simp only [doConnect, socket, hNot, hNone, Bool.false_eq_true, if_false]
  cases Int.lt_or_le x.socket 0 with
  | inl hFailed =>
    rw [if_pos hFailed, if_pos hFailed]
    exact Or.inl ⟨hFailed, rfl⟩
  | inr hSocket =>
    rw [if_neg (Int.not_lt.mpr hSocket), if_neg (Int.not_lt.mpr hSocket)]
    split
    · rename_i hAddress
      exact Or.inr (Or.inl ⟨hSocket, Or.inl hAddress, rfl⟩)
    · rename_i hAddress
      split
      · rename_i hRefused
        exact Or.inr (Or.inl ⟨hSocket, Or.inr hRefused, rfl⟩)
      · rename_i hRefused
        exact Or.inr (Or.inr ⟨hSocket, Int.not_le.mp hAddress, Int.not_lt.mp hRefused, rfl⟩)

theorem Matched.doConnect_iff {c : Con} (h : c.Matched) (x : Attempt) :
    ((c.doConnect x).2.Matched ∧ ((c.doConnect x).1 = false → (c.doConnect x).2.opened = [])) ↔
      c.connected = true ∨ x.socket < 0 ∨ (0 < x.inetPton ∧ 0 ≤ x.connect) := by
  cases hConnected : c.connected with
  | true =>
    have hSame : c.doConnect x = (true, c) := by simp [doConnect, hConnected]
    rw [hSame]
    exact iff_of_true ⟨h, fun hFalse => by cases hFalse⟩ (Or.inl rfl)
  | false =>
    rcases doConnect_cases hConnected (h.opened_eq_nil hConnected) x with
      ⟨hFailed, hDone⟩ | ⟨hSocket, hFailed, hDone⟩ | ⟨-, hAddress, hAccepted, hDone⟩
    · rw [hDone]
      exact iff_of_true ⟨⟨Nat.zero_le _, by simp⟩, fun _ => rfl⟩ (Or.inr (Or.inl hFailed))
    · rw [hDone]
      refine iff_of_false (fun hGood => ?_) ?_
      · cases hGood.2 rfl
      · rintro (hFalse | hNegative | hGood)
        · cases hFalse
        · omega
        · omega
    · rw [hDone]
      exact iff_of_true ⟨⟨le_rfl, by simp⟩, fun hFalse => by cases hFalse⟩ (Or.inr (Or.inr ⟨hAddress, hAccepted⟩))

end Con

namespace ConLife

theorem released_iff {l l' : ConLife} {call : ConCall} (h : l.con.Matched) (hStep : l.Step call l') :
    l.Released call l' ↔ l.Spares call := by
  unfold Step next at hStep
  split at hStep
  · cases hStep
  · cases call with
    | doConnect x =>
      dsimp only at hStep
      split at hStep
      · cases hStep
      · obtain rfl := Option.some.inj hStep
        exact h.doConnect_iff x
    | disconnect | destroy =>
      obtain rfl := Option.some.inj hStep
      exact h.disconnect_iff

theorem tidy_iff {l l' : ConLife} {call : ConCall} (h : l.con.Matched) (hStep : l.Step call l') :
    l.Tidy call ↔ l.Spares call := by
  rw [← released_iff h hStep]
  exact forall_next_iff hStep

/-- The calls of a run leave no socket behind if and only if none of them ends a connection and no attempt among
them fails with its socket at hand. In such a run the open sockets match what the object says. -/
theorem tidy_run_iff (calls : List ConCall) (l : ConLife) :
    (Path (Restrict Tidy Step) new calls l ↔ Path (Restrict Spares Step) new calls l) ∧
      (Path (Restrict Spares Step) new calls l → l.con.Matched) := by
  have hKept {l l' : ConLife} {call : ConCall} (h : l.con.Matched) (hSpares : l.Spares call)
      (hStep : l.Step call l') : l'.con.Matched := ((released_iff h hStep).mpr hSpares).1
  constructor
  · exact Path.restrict_iff (p := fun l => l.con.Matched)
      (fun _ _ _ h hStep => ⟨tidy_iff h hStep, fun hSpares => hKept h hSpares hStep⟩) Con.matched_init
  · exact fun hRun => hRun.invariant (p := fun l => l.con.Matched)
      (fun _ _ _ h hStep => hKept h hStep.1 hStep.2) Con.matched_init

/-- A connection that is made and ended leaves its socket open. -/
theorem disconnect_leaves_socket : ¬ ∀ (calls : List ConCall) (l : ConLife), Path Step new calls l →
    Path (Restrict Tidy Step) new calls l := by
  intro h
  have hConnect : new.Step (.doConnect ⟨3, 1, 0⟩) ⟨⟨3, true, [3]⟩, false⟩ := rfl
  have hEnd : Step ⟨⟨3, true, [3]⟩, false⟩ .disconnect ⟨⟨-1, false, [3]⟩, false⟩ := rfl
  cases h _ _ (.cons hConnect (.cons hEnd (.nil _))) with
  | cons first rest =>
    obtain rfl := Option.some.inj (first.2.symm.trans hConnect)
    cases rest with
    | cons second _ => cases (second.1 _ hEnd).2

end ConLife

end LibUrx.Net
