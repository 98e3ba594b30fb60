import LibUrx.Base.Histories
import LibUrx.Tools.Roundtrip

/-! # The failsafe of the measurement

Each trip has a hundred attempts. The counter starts again with a sample, and the loop ends when it falls below zero.
-/
namespace LibUrx.Tools
open Bytes Rtde Runs Histories
set_option autoImplicit false

namespace RoundtripAction

def isSend : RoundtripAction → Bool
  | .send _ => true
  | _ => false

def isRecv : RoundtripAction → Bool
  | .recv _ _ _ => true
  | _ => false

/-- The other steps are those of the controller, its program and the connection. -/
def isTool : RoundtripAction → Bool
  | .finish | .count | .send _ | .recv _ _ _ => true
  | .reads | .writes | .report | .lose => false

end RoundtripAction

namespace Roundtrip

theorem compared_cases (l : Locals) (s : Roundtrip) (t : Session) (endUs : Int) :
    (compared l s t endUs).trips = s.trips ∧
      ((compared l s t endUs).place = .again ∧ (compared l s t endUs).errCtr = s.errCtr ∧
          (compared l s t endUs).samples = s.samples ∨
        (compared l s t endUs).place = .count ∧ (compared l s t endUs).errCtr = 100 ∧
          (compared l s t endUs).samples.length = s.samples.length + 1) := by
  rw [compared]
  split
  · exact ⟨rfl, Or.inl ⟨rfl, rfl, rfl⟩⟩
  · exact ⟨rfl, Or.inr ⟨rfl, rfl, List.length_append⟩⟩

/-- Where the counter of attempts can stand. It is below zero when the loop has been given up. -/
def Counted (trips : Nat) (errCtr : Int) : Place → Prop
  | .count => errCtr = 100
  | .again => 0 ≤ errCtr ∧ errCtr ≤ 100
  | .waiting => 0 ≤ errCtr ∧ errCtr ≤ 99
  | .ended => errCtr = -1 ∨ errCtr = 100 ∧ trips = 0

def stepsLeft (trips : Nat) (errCtr : Int) : Place → Nat
  | .count => 201 * trips + 1
  | .again => 201 * trips + 2 * errCtr.toNat + 1
  | .waiting => 201 * trips + 2 * errCtr.toNat + 2
  | .ended => 0

def sendsLeft (trips : Nat) (errCtr : Int) : Place → Nat
  | .count => 100 * trips + 1
  | .again | .waiting => 100 * trips + errCtr.toNat + 1
  | .ended => 0

/-- Another attempt uses one up, and the loop is given up when none was left. -/
theorem counted_send {trips : Nat} {errCtr : Int} {place : Place} (h : Counted trips errCtr .again)
    (hPlace : (if errCtr - 1 < 0 then .ended else .waiting) = place) :
    Counted trips (errCtr - 1) place ∧
      stepsLeft trips (errCtr - 1) place + 1 ≤ stepsLeft trips errCtr .again ∧
      sendsLeft trips (errCtr - 1) place + 1 ≤ sendsLeft trips errCtr .again := by
  obtain ⟨hLow, hHigh⟩ := h
  split at hPlace <;> subst hPlace
  · refine ⟨Or.inl (by omega), ?_, ?_⟩ <;> simp only [stepsLeft, sendsLeft] <;> omega
  · refine ⟨⟨by omega, by omega⟩, ?_, ?_⟩ <;> simp only [stepsLeft, sendsLeft] <;> omega

section Steps

variable {l : Locals} {id : Int} {s t : Roundtrip} {a : RoundtripAction} {actions : List RoundtripAction}

theorem counted_step (h : Counted s.trips s.errCtr s.place) (hStep : Step l id s a t) :
    Counted t.trips t.errCtr t.place ∧
      stepsLeft t.trips t.errCtr t.place + (if a.isTool then 1 else 0) ≤ stepsLeft s.trips s.errCtr s.place ∧
      sendsLeft t.trips t.errCtr t.place + (if a.isSend then 1 else 0) ≤ sendsLeft s.trips s.errCtr s.place := by
  cases hStep with
  | finish place trips =>
    rw [place] at h ⊢
    exact ⟨Or.inr ⟨h, trips⟩, Nat.le_add_left _ _, Nat.zero_le _⟩
  | count place trips done =>
    rw [place] at h ⊢
    have hFull : s.errCtr = 100 := h
    rw [hFull, trips]
    exact ⟨⟨by decide, le_rfl⟩, le_rfl, le_rfl⟩
  | send place done =>
    rw [place] at h ⊢
    exact counted_send h rfl
  | @recv _ _ u place done endUs =>
    rw [place] at h ⊢
    obtain ⟨hLow, hHigh⟩ := h
    obtain ⟨hTrips, ⟨hPlace, hErrCtr, -⟩ | ⟨hPlace, hErrCtr, -⟩⟩ := compared_cases l s u endUs
    · rw [hPlace, hErrCtr, hTrips]
      exact ⟨⟨hLow, by omega⟩, le_rfl, le_rfl⟩
    · rw [hPlace, hErrCtr, hTrips]
      refine ⟨rfl, ?_, ?_⟩
      · change 201 * s.trips + 1 + 1 ≤ 201 * s.trips + 2 * s.errCtr.toNat + 2
        omega
      · change 100 * s.trips + 1 + 0 ≤ 100 * s.trips + s.errCtr.toNat + 1
        omega
  | reads => exact ⟨h, Nat.le_refl _, Nat.le_refl _⟩
  | writes => exact ⟨h, Nat.le_refl _, Nat.le_refl _⟩
  | report => exact ⟨h, Nat.le_refl _, Nat.le_refl _⟩
  | lose => exact ⟨h, Nat.le_refl _, Nat.le_refl _⟩

theorem steps_le (h : Counted s.trips s.errCtr s.place) (hRun : Path (Step l id) s actions t) :
    actions.countP RoundtripAction.isTool ≤ stepsLeft s.trips s.errCtr s.place :=
  (Nat.le_add_left _ _).trans (@countP_le_of_path _ _ _ (fun s => Counted s.trips s.errCtr s.place)
    (fun s => stepsLeft s.trips s.errCtr s.place) _
    (fun _ _ _ h hStep => ⟨(counted_step h hStep).1, (counted_step h hStep).2.1⟩) _ _ _ hRun h).2

theorem sends_le (h : Counted s.trips s.errCtr s.place) (hRun : Path (Step l id) s actions t) :
    actions.countP RoundtripAction.isSend ≤ sendsLeft s.trips s.errCtr s.place :=
  (Nat.le_add_left _ _).trans (@countP_le_of_path _ _ _ (fun s => Counted s.trips s.errCtr s.place)
    (fun s => sendsLeft s.trips s.errCtr s.place) _
    (fun _ _ _ h hStep => ⟨(counted_step h hStep).1, (counted_step h hStep).2.2⟩) _ _ _ hRun h).2

/-- Calls of `send` after which no call of `recv` has returned yet. -/
def unanswered (errCtr : Int) : Place → Nat
  | .count | .again => 0
  | .waiting => 1
  | .ended => if errCtr < 0 then 1 else 0

/-- The attempts since the last sample, or since the loop began. -/
structure Attempts (u : Roundtrip) (newer : List RoundtripAction) (s : Roundtrip) : Prop where
  counted : Counted s.trips s.errCtr s.place
  place : u.place = .count
  samples : s.samples = u.samples
  sends : (newer.countP RoundtripAction.isSend : Int) + s.errCtr = 100
  recvs : newer.countP RoundtripAction.isSend = newer.countP RoundtripAction.isRecv + unanswered s.errCtr s.place

theorem attempts_start (hPlace : s.place = .count) (hErrCtr : s.errCtr = 100) : Attempts s [] s where
  counted := by
    rw [hPlace]
    exact hErrCtr
  place := hPlace
  samples := rfl
  sends := by
    rw [hErrCtr]
    rfl
  recvs := by
    rw [hPlace]
    rfl

theorem Attempts.aside {u : Roundtrip} {newer : List RoundtripAction} (h : Attempts u newer s)
    (hCounted : Counted t.trips t.errCtr t.place) (hSamples : t.samples = s.samples) (hErrCtr : t.errCtr = s.errCtr)
    (hPlace : unanswered s.errCtr t.place = unanswered s.errCtr s.place) (hSend : a.isSend = false)
    (hRecv : a.isRecv = false) : Attempts u (newer ++ [a]) t where
  counted := hCounted
  place := h.place
  samples := hSamples.trans h.samples
  sends := by
    rw [List.countP_append, List.countP_singleton, hSend, hErrCtr]
    exact h.sends
  recvs := by
    rw [List.countP_append, List.countP_append, List.countP_singleton, List.countP_singleton, hSend, hRecv, hErrCtr, hPlace]
    exact h.recvs

theorem Attempts.step {u : Roundtrip} {newer : List RoundtripAction} (h : Attempts u newer s) (hStep : Step l id s a t) :
    Attempts u (newer ++ [a]) t ∨ Attempts t [] t := by
  have hNext := (counted_step h.counted hStep).1
  cases hStep with
  | finish place trips =>
    have hFull : s.errCtr = 100 := by simpa only [place, Counted] using h.counted
    exact Or.inl (h.aside hNext rfl rfl (by rw [place, hFull]; rfl) rfl rfl)
  | count place trips done => exact Or.inl (h.aside hNext rfl rfl (by rw [place]; rfl) rfl rfl)
  | @send sendCode _ place done =>
    obtain ⟨hLow, -⟩ : 0 ≤ s.errCtr ∧ s.errCtr ≤ 100 := by simpa only [place, Counted] using h.counted
    have hSends := h.sends
    have hRecvs := h.recvs
    rw [place] at hRecvs
    refine Or.inl ⟨hNext, h.place, h.samples, ?_, ?_⟩
    · rw [List.countP_append, List.countP_singleton]
      simp only [RoundtripAction.isSend, if_true]
      omega
    · rw [List.countP_append, List.countP_append, hRecvs]
      dsimp only
      split
      · rename_i hNegative
        exact congrArg (newer.countP RoundtripAction.isRecv + ·) (if_pos hNegative).symm
      · rfl
  | @recv _ _ v place done endUs =>
    have hSends := h.sends
    have hRecvs := h.recvs
    rw [place] at hRecvs
    obtain ⟨-, ⟨hPlace, hErrCtr, hSamples⟩ | ⟨hPlace, hErrCtr, -⟩⟩ := compared_cases l s v endUs
    · refine Or.inl ⟨hNext, h.place, hSamples.trans h.samples, ?_, ?_⟩
      · rw [List.countP_append, hErrCtr]
        exact hSends
      · rw [List.countP_append, List.countP_append, hRecvs, hPlace]
        rfl
    · exact Or.inr (attempts_start hPlace hErrCtr)
  | reads | writes | report | lose => exact Or.inl (h.aside hNext rfl rfl rfl rfl rfl)

/-- A trip that has begun and not brought a sample. -/
def underway (errCtr : Int) : Place → Nat
  | .count => 0
  | .again | .waiting => 1
  | .ended => if errCtr < 0 then 1 else 0

theorem taken_step (h : Counted s.trips s.errCtr s.place) (hStep : Step l id s a t) :
    t.samples.length + t.trips + underway t.errCtr t.place = s.samples.length + s.trips + underway s.errCtr s.place := by
  cases hStep with
  | finish place trips =>
    have hFull : s.errCtr = 100 := by simpa only [place, Counted] using h
    rw [place, hFull]
    rfl
  | count place trips done =>
    rw [place, trips]
    rfl
  | send place done =>
    rw [place]
    dsimp only
    split
    · rename_i hNegative
      exact congrArg (s.samples.length + s.trips + ·) (if_pos hNegative)
    · rfl
  | @recv _ _ u place done endUs =>
    obtain ⟨hTrips, ⟨hPlace, hErrCtr, hSamples⟩ | ⟨hPlace, hErrCtr, hSamples⟩⟩ := compared_cases l s u endUs
    · rw [place, hPlace, hTrips, hSamples]
      rfl
    · rw [place, hPlace, hTrips, hSamples]
      exact congrArg (· + 0) (Nat.add_right_comm _ _ _)
  | reads | writes | report | lose => rfl

end Steps

/-- The measurement ends after a bounded number of steps and of messages. When it ends, every trip has brought a
sample, or it has been given up after 101 calls of `send` and 100 of `recv` since the last one. -/
theorem measurement_ends {l : Locals} {id : Int} {s t : Roundtrip} {actions : List RoundtripAction}
    (hPlace : s.place = .count) (hErrCtr : s.errCtr = 100) (hRun : Path (Step l id) s actions t) :
    actions.countP RoundtripAction.isTool ≤ 201 * s.trips + 1 ∧
      actions.countP RoundtripAction.isSend ≤ 100 * s.trips + 1 ∧
      (t.place = .ended → t.samples.length = s.samples.length + s.trips ∨
        ∃ older newer u, actions = older ++ newer ∧ Path (Step l id) s older u ∧ Path (Step l id) u newer t ∧
          u.place = .count ∧ t.samples = u.samples ∧ newer.countP RoundtripAction.isSend = 101 ∧
          newer.countP RoundtripAction.isRecv = 100) := by
  have hStart := attempts_start hPlace hErrCtr
  have hTaken := hRun.invariant (p := fun t : Roundtrip => Counted t.trips t.errCtr t.place ∧
    t.samples.length + t.trips + underway t.errCtr t.place = s.samples.length + s.trips + underway s.errCtr s.place)
      (fun _ _ _ h hStep => ⟨(counted_step h.1 hStep).1, (taken_step h.1 hStep).trans h.2⟩) ⟨hStart.counted, rfl⟩
  obtain ⟨hCounted, hTaken⟩ := hTaken
  have hSteps := steps_le hStart.counted hRun
  have hSends := sends_le hStart.counted hRun
  rw [hPlace] at hSteps hSends hTaken
  refine ⟨hSteps, hSends, fun hEnded => ?_⟩
  rw [hEnded] at hCounted hTaken
  rcases hCounted with hGivenUp | ⟨hFull, hTrips⟩
  · obtain ⟨older, newer, u, hSplit, hOlder, hNewer, h⟩ :=
      path_since (p := Attempts) (fun _ _ _ _ _ h hStep => h.step hStep) hRun (.nil s) (.nil s) hStart
    have hCalls := h.sends
    have hAnswered : _ = _ + unanswered (-1) .ended := hGivenUp ▸ hEnded ▸ h.recvs
    have hOne : unanswered (-1) .ended = 1 := rfl
    exact Or.inr ⟨older, newer, u, hSplit, hOlder, hNewer, h.place, h.samples, by omega, by omega⟩
  · rw [hFull, hTrips] at hTaken
    exact Or.inl hTaken

theorem measurement_ends_one : ∃ (s t : Roundtrip) (actions : List RoundtripAction), s.trips = 1 ∧ t.place = .ended ∧
    actions.countP RoundtripAction.isTool ≤ 202 ∧ actions.countP RoundtripAction.isSend ≤ 101 := by
  obtain ⟨m, hM⟩ : ∃ m : Memory, ⟨fun a => if a = 16 then 1 else 0, []⟩ = m := ⟨_, rfl⟩
  obtain ⟨m', hM'⟩ : ∃ m', m.write 20 (leBytes 4 (leNat (m.read 20 4) + 1)) = m' := ⟨_, rfl⟩
  have hSame : numberAt m' 20 = numberAt m' 16 := by
    rw [← hM', ← hM]
    decide +kernel
  have hCount : Session.Step (.start m (fun _ => 0) Session.noneFiled) (.call (.assign 20 (leBytes 4 (leNat (m.read 20 4) + 1))))
      ⟨.fresh m' (fun _ => 0), Session.noneFiled, []⟩ := hM' ▸ .other (.assign (.fresh m fun _ => 0) 20 _) rfl
  have hSend := Session.Step.send (s := ⟨.fresh m' (fun _ => 0), Session.noneFiled, []⟩) (.send (.fresh m' fun _ => 0) 1 (-1))
  have hRecv := Session.Step.other (s := ⟨.fresh m' (fun _ => 0), Session.noneFiled, []⟩) (c := .recv none 0) (.recv rfl) rfl
  obtain ⟨s, hS⟩ : ∃ s : Roundtrip, ⟨.start m (fun _ => 0) Session.noneFiled, .count, 1, 100, [], none, none, []⟩ = s := ⟨_, rfl⟩
  obtain ⟨t, hRun, hEnded⟩ : ∃ t, Path (Step tool 1) s [.count, .send (-1), .recv none 0 5, .finish] t ∧
      t.place = .ended := by
    rw [← hS]
    exact ⟨_, .cons (.count rfl rfl hCount) (.cons (.send rfl hSend) (.cons (.sampled rfl hRecv 5 hSame)
      (.cons (.finish rfl rfl) (.nil _)))), rfl⟩
  have hTrips : s.trips = 1 := by rw [← hS]
  obtain ⟨hSteps, hSends, -⟩ := measurement_ends (by rw [← hS]) (by rw [← hS]) hRun
  rw [hTrips] at hSteps hSends
  exact ⟨s, t, _, hTrips, hEnded, hSteps, hSends⟩

end Roundtrip

end LibUrx.Tools
