import LibUrx.Base.Runs
import LibUrx.Script.UrxScript

/-! # The life of a script

A script is valid from a successful reading of its file until the next reading that fails and the next name
that is accepted. The object keeps the validity in a flag and the content in a buffer that `get_script` formats
in place.
-/
namespace LibUrx.Script
open Text Runs
set_option autoImplicit false

/-- What the calls so far amount to. No name has been accepted (`unnamed`); or, since the last one that was, no
reading has succeeded (`unread`), the last reading has read this text, which has been handed out since or not
(`valid`), or the last reading has failed after one that succeeded (`lost`). -/
inductive Phase where
  | unnamed
  | unread
  | valid (content : List UInt8) (handedOut : Bool)
  | lost
  deriving DecidableEq

/-- What a reading gets, if it succeeds. -/
def contentOf (opened : Option (List UInt8)) : Option (List UInt8) :=
  opened.bind fun content => if joinLines content = [] then none else some (joinLines content)

namespace Phase

def named (p : Phase) (fname : List UInt8) (found : Bool) : Phase := if fname ≠ [] ∧ found = true then unread else p

def read (p : Phase) (opened : Option (List UInt8)) : Phase :=
  match p, contentOf opened with
  | unnamed, _ => unnamed
  | _, some content => valid content false
  | unread, none => unread
  | _, none => lost

def gotten : Phase → Phase
  | valid content _ => valid content true
  | p => p

def after (p : Phase) : Call → Phase
  | .setScript fname found => p.named fname found
  | .readFile opened => p.read opened
  | .getScript => p.gotten
  | .readScript fname found opened =>
    if fname ≠ [] ∧ found = true then (unread.read opened).gotten else p

/-- A script is handed out if and only if there is a valid one. -/
def gets : Phase → Result
  | valid content _ => .script (formatScript content)
  | _ => .thrown (text "Script not read")

def expected (p : Phase) : Call → Result
  | .setScript fname found => .returned (decide (fname ≠ [] ∧ found = true))
  | .readFile opened =>
    if p = unnamed then .thrown (text "No filename provided") else .returned (contentOf opened).isSome
  | .getScript => p.gets
  | .readScript fname found opened =>
    if ¬ (fname ≠ [] ∧ found = true) then .thrown (text "Invalid filename provided")
    else if contentOf opened = none then .thrown (text "Reading file failed")
    else (unread.read opened).gets

/-- A name has been accepted, the script has not got lost, and it has not been handed out before if a line of it ends
in two carriage returns. -/
def AllowsGet : Phase → Prop
  | unnamed | lost => False
  | unread | valid _ false => True
  | valid content true => ¬ [carriageReturn, carriageReturn, lineFeed] <:+: content

def Allows (p : Phase) : Call → Prop
  | .getScript => p.AllowsGet
  | _ => True

end Phase

structure Session where
  script : UrxScript
  phase : Phase

theorem formatScript_eq (script : List UInt8) :
    formatScript script = expand tab (text "        ") (dropBefore carriageReturn lineFeed script) := by
  rw [formatScript, replaceAll_pair (by decide), replaceAll_singleton]

theorem formatScript_ne_nil {script : List UInt8} (h : script ≠ []) : formatScript script ≠ [] := by
  rw [formatScript_eq]
  exact expand_ne_nil (by decide) (dropBefore_ne_nil (by decide) h)

/-- A pair of carriage return and line feed is left where a line has ended in two carriage returns. -/
theorem infix_formatScript_iff (script : List UInt8) : [carriageReturn, lineFeed] <:+: formatScript script ↔
    [carriageReturn, carriageReturn, lineFeed] <:+: script := by
  rw [formatScript_eq, infix_expand_iff (by decide) (by decide) (by decide) (by decide) (by decide),
    infix_dropBefore_iff (by decide)]

/-- What is left of a formatted script has no tabs, so formatting it again only looks for line ends. -/
theorem formatScript_of_part {content script : List UInt8} (hPart : script.Sublist (formatScript content)) :
    formatScript script = dropBefore carriageReturn lineFeed script := by
  have hNoTab : tab ∉ script := by
    rw [formatScript_eq] at hPart
    exact fun hMem => notMem_expand (by decide) (hPart.subset hMem)
  rw [formatScript_eq]
  exact expand_eq_self fun hMem => hNoTab (dropBefore_sublist.subset hMem)

theorem formatScript_again_iff {content script : List UInt8} (hPart : script.Sublist (formatScript content))
    (hSame : ¬ [carriageReturn, carriageReturn, lineFeed] <:+: content → script = formatScript content) :
    formatScript script = formatScript content ↔ ¬ [carriageReturn, carriageReturn, lineFeed] <:+: content := by
  rw [formatScript_of_part hPart, ← infix_formatScript_iff] at *
  constructor
  · intro hAgain
    have hLength : (formatScript content).length ≤ script.length := by
      rw [← hAgain]
      exact dropBefore_sublist.length_le
    obtain rfl := hPart.eq_of_length_le hLength
    exact dropBefore_eq_self_iff.mp hAgain
  · intro hNone
    rw [hSame hNone]
    exact dropBefore_eq_self_iff.mpr hNone

namespace Session

def new (fname : List UInt8) (found : Bool) : Session :=
  ⟨UrxScript.construct fname found, Phase.unnamed.named fname found⟩

def Step (s : Session) (c : Call) (t : Session) : Prop :=
  ∃ result, s.script.call c = some (result, t.script) ∧ t.phase = s.phase.after c

/-- How the members of the object stand in each phase. -/
inductive Tracks : UrxScript → Phase → Prop where
  | unnamed (script : List UInt8) : Tracks ⟨[], script, none⟩ .unnamed
  | unread {fname : List UInt8} (hName : fname ≠ []) (script : List UInt8) : Tracks ⟨fname, script, some false⟩ .unread
  | fresh {fname content : List UInt8} (hName : fname ≠ []) (hContent : content ≠ []) :
      Tracks ⟨fname, content, some true⟩ (.valid content false)
  | handedOut {fname content script : List UInt8} (hName : fname ≠ []) (hContent : content ≠ [])
      (hPart : script.Sublist (formatScript content))
      (hSame : ¬ [carriageReturn, carriageReturn, lineFeed] <:+: content → script = formatScript content) :
      Tracks ⟨fname, script, some true⟩ (.valid content true)
  | lost {fname : List UInt8} (hName : fname ≠ []) : Tracks ⟨fname, [], some true⟩ .lost

theorem setScript_eq (s : UrxScript) (fname : List UInt8) (found : Bool) : s.setScript fname found =
    if fname ≠ [] ∧ found = true then (true, { s with fname, parsed := some false }) else (false, s) := by
  cases fname with
  | nil => rfl
  | cons c rest => cases found <;> rfl

theorem Tracks.named {s : UrxScript} {p : Phase} (h : Tracks s p) (fname : List UInt8) (found : Bool) :
    Tracks (s.setScript fname found).2 (p.named fname found) := by
  rw [setScript_eq, Phase.named]
  split
  · rename_i hAccepted
    exact .unread hAccepted.1 s.script
  · exact h

theorem contentOf_ne_nil {opened : Option (List UInt8)} {content : List UInt8} (h : contentOf opened = some content) :
    content ≠ [] := by
  obtain ⟨lines, -, hLines⟩ := Option.bind_eq_some_iff.mp h
  split at hLines
  · cases hLines
  · rename_i hSome
    exact Option.some.inj hLines ▸ hSome

theorem readFile_eq {s : UrxScript} (hName : s.fname ≠ []) (opened : Option (List UInt8)) : s.readFile opened =
    match contentOf opened with
    | none => (.returned false, { s with script := [] })
    | some content => (.returned true, { s with script := content, parsed := some true }) := by
  unfold UrxScript.readFile
  rw [if_neg (by simpa using hName)]
  cases opened with
  | none => rfl
  | some content =>
    by_cases hEmpty : joinLines content = []
    · simp [contentOf, hEmpty]
    · simp [contentOf, hEmpty]

theorem Tracks.read {s : UrxScript} {p : Phase} (h : Tracks s p) (opened : Option (List UInt8)) :
    (s.readFile opened).1 = p.expected (.readFile opened) ∧ Tracks (s.readFile opened).2 (p.read opened) := by
  cases hContent : contentOf opened with
  | none =>
    cases h with
    | unnamed script => exact ⟨rfl, .unnamed script⟩
    | unread hName script =>
      rw [readFile_eq hName, hContent]
      refine ⟨by simp [Phase.expected, hContent], ?_⟩
      simp only [Phase.read, hContent]
      exact .unread hName []
    | fresh hName | handedOut hName | lost hName =>
      rw [readFile_eq hName, hContent]
      refine ⟨by simp [Phase.expected, hContent], ?_⟩
      simp only [Phase.read, hContent]
      exact .lost hName
  | some content =>
    have hSome := contentOf_ne_nil hContent
    cases h with
    | unnamed script => exact ⟨rfl, .unnamed script⟩
    | unread hName | fresh hName | handedOut hName | lost hName =>
      rw [readFile_eq hName, hContent]
      refine ⟨by simp [Phase.expected, hContent], ?_⟩
      simp only [Phase.read, hContent]
      exact .fresh hName hSome

/-- The object says what its phase says if and only if the phase allows the question, and tracks it in any case. -/
theorem Tracks.get {s : UrxScript} {p : Phase} (h : Tracks s p) :
    (s.getScript.map Prod.fst = some p.gets ↔ p.AllowsGet) ∧
      ∀ result t, s.getScript = some (result, t) → Tracks t p.gotten := by
  cases h with
  | unnamed script => exact ⟨iff_of_false (fun hSame => by cases hSame) id, fun result t hGet => by cases hGet⟩
  | unread hName script =>
    refine ⟨iff_of_true rfl trivial, fun result t hGet => ?_⟩
    cases hGet
    exact .unread hName script
  | @fresh fname content hName hContent =>
    refine ⟨iff_of_true rfl trivial, fun result t hGet => ?_⟩
    cases hGet
    exact .handedOut hName hContent (List.Sublist.refl _) fun _ => rfl
  | @handedOut fname content script hName hContent hPart hSame =>
    have hAgain := formatScript_again_iff hPart hSame
    constructor
    · rw [Phase.AllowsGet, ← hAgain]
      simp [UrxScript.getScript, Phase.gets]
    · intro result t hGet
      cases hGet
      refine .handedOut hName hContent ?_ hAgain.mpr
      rw [formatScript_of_part hPart]
      exact dropBefore_sublist.trans hPart
  | lost hName =>
    refine ⟨iff_of_false (fun hSame => by cases hSame) id, fun result t hGet => ?_⟩
    cases hGet
    exact .lost hName

theorem Tracks.reread {s : UrxScript} {p : Phase} (h : Tracks s p) (fname : List UInt8) (found : Bool)
    (opened : Option (List UInt8)) :
    (s.readScript fname found opened).map Prod.fst = some (p.expected (.readScript fname found opened)) ∧
      ∀ result t, s.readScript fname found opened = some (result, t) →
        Tracks t (p.after (.readScript fname found opened)) := by
  unfold UrxScript.readScript
  rw [setScript_eq, Phase.expected, Phase.after]
  by_cases hAccepted : fname ≠ [] ∧ found = true
  · rw [if_pos hAccepted, if_pos hAccepted, if_neg (not_not.mpr hAccepted)]
    have hNamed : Tracks { s with fname, parsed := some false } .unread := .unread hAccepted.1 s.script
    have hRead := (hNamed.read opened).2
    dsimp only
    rw [readFile_eq hAccepted.1] at hRead ⊢
    cases hContent : contentOf opened with
    | none =>
      simp only [hContent, Phase.read] at hRead
      refine ⟨rfl, fun result t hDone => ?_⟩
      cases hDone
      simp only [Phase.read, hContent]
      exact hRead
    | some content =>
      simp only [hContent, Phase.read] at hRead
      obtain ⟨hShown, hNext⟩ := hRead.get
      simp only [Phase.read, hContent]
      exact ⟨hShown.mpr trivial, hNext⟩
  · rw [if_neg hAccepted, if_neg hAccepted, if_pos hAccepted]
    refine ⟨rfl, fun result t hDone => ?_⟩
    cases hDone
    exact h

theorem Tracks.call {s : UrxScript} {p : Phase} (h : Tracks s p) (c : Call) :
    ((s.call c).map Prod.fst = some (p.expected c) ↔ p.Allows c) ∧
      ∀ result t, s.call c = some (result, t) → Tracks t (p.after c) := by
  cases c with
  | setScript fname found =>
    refine ⟨iff_of_true ?_ trivial, fun result t hDone => ?_⟩
    · rw [UrxScript.call, setScript_eq, Phase.expected, Option.map_some]
      split
      · rename_i hAccepted
        rw [decide_eq_true hAccepted]
      · rename_i hRefused
        rw [decide_eq_false hRefused]
    · cases hDone
      exact h.named fname found
  | readFile opened =>
    refine ⟨iff_of_true (congrArg some (h.read opened).1) trivial, fun result t hDone => ?_⟩
    obtain ⟨-, rfl⟩ := Prod.mk.inj (Option.some.inj hDone)
    exact (h.read opened).2
  | getScript => exact h.get
  | readScript fname found opened =>
    obtain ⟨hResult, hNext⟩ := h.reread fname found opened
    exact ⟨iff_of_true hResult trivial, hNext⟩

/-- In every run the object is in the state that its phase asks for. -/
theorem tracks_run {fname : List UInt8} {found : Bool} {calls : List Call} {s : Session}
    (hRun : Path Step (new fname found) calls s) : Tracks s.script s.phase := by
  have hStart : Tracks (new fname found).script (new fname found).phase :=
    (Tracks.unnamed []).named fname found
  apply hRun.invariant (p := fun s => Tracks s.script s.phase) _ hStart
  rintro s c t hTracks ⟨result, hCall, hPhase⟩
  rw [hPhase]
  exact (hTracks.call c).2 result t.script hCall

/-- After any calls, `get_script` hands out the formatted script of the last reading, or throws where there is none,
if and only if it is allowed. All other calls do as they should, a name that is refused changes nothing, and no
script that is handed out is empty. -/
theorem get_script_iff {fname : List UInt8} {found : Bool} {calls : List Call} {s : Session}
    (hRun : Path Step (new fname found) calls s) :
    (∀ c, (s.script.call c).map Prod.fst = some (s.phase.expected c) ↔ s.phase.Allows c) ∧
      (∀ name present, (s.script.setScript name present).1 = false →
        (s.script.setScript name present).2 = s.script) ∧
      ∀ content, s.phase.gets = .script content → content ≠ [] := by
  have hTracks := tracks_run hRun
  refine ⟨fun c => (hTracks.call c).1, fun name present hRefused => ?_, fun content hGets => ?_⟩
  · rw [setScript_eq] at hRefused ⊢
    split at hRefused
    · cases hRefused
    · rename_i hNot
      rw [if_neg hNot]
  · generalize s.phase = phase, s.script = script at hTracks hGets
    cases hTracks with
    | unnamed | unread | lost => cases hGets
    | fresh _ hContent | handedOut _ hContent =>
      cases hGets
      exact formatScript_ne_nil hContent

theorem get_script_iff_read :
    ∃ s, Path Step (new (text "a.script") true) [.readFile (some (text "textmsg()\r\n"))] s ∧
      (s.script.call .getScript).map Prod.fst = some (.script (text "textmsg()\n")) := by
  have hStep : Step (new (text "a.script") true) (.readFile (some (text "textmsg()\r\n")))
      ⟨⟨text "a.script", text "textmsg()\r\n", some true⟩, .valid (text "textmsg()\r\n") false⟩ := by
    refine ⟨.returned true, ?_, ?_⟩ <;> decide
  have hRun := Path.cons hStep (.nil _)
  exact ⟨_, hRun, ((get_script_iff hRun).1 .getScript).mpr trivial⟩

/-- The file is read, and read again when it has become empty. -/
theorem lost_script_is_handed_out : ¬ ∀ (fname : List UInt8) (found : Bool) (calls : List Call) (s : Session),
    Path Step (new fname found) calls s →
      ∀ c, (s.script.call c).map Prod.fst = some (s.phase.expected c) := by
  intro h
  have hFirst : Step (new (text "a.script") true) (.readFile (some (text "a")))
      ⟨⟨text "a.script", text "a\n", some true⟩, .valid (text "a\n") false⟩ := by
    refine ⟨.returned true, ?_, ?_⟩ <;> decide
  have hSecond : Step ⟨⟨text "a.script", text "a\n", some true⟩, .valid (text "a\n") false⟩ (.readFile (some []))
      ⟨⟨text "a.script", [], some true⟩, .lost⟩ := by
    refine ⟨.returned false, ?_, ?_⟩ <;> decide
  cases h _ _ _ _ (.cons hFirst (.cons hSecond (.nil _))) .getScript

end Session

end LibUrx.Script
