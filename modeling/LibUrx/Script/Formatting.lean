import LibUrx.Script.Lifecycle

/-! # Formatting a script and uploading it

`get_script` formats the stored script in place, so that a second call formats what the first one has left. An
upload reads the file again. What the connection answers to the bytes it is given is the environment's choice.
-/
namespace LibUrx.Script
open Text
set_option autoImplicit false

/-- The answer of `upload_script`, or the exception that leaves it, and what it has handed to the connection. -/
structure Upload where
  result : Result
  sent : Option (List UInt8)
  script : UrxScript

namespace UrxScript

def uploadScript (s : UrxScript) (scriptName : List UInt8) (found : Bool) (opened : Option (List UInt8))
    (doSend : List UInt8 → Int) : Option Upload :=
  match s.setScript scriptName found with
  | (false, s) => some ⟨.returned false, none, s⟩
  | (true, s) =>
    match s.readFile opened with
    | (.returned true, s) =>
      match s.getScript with
      | some (.script content, s) => some ⟨.returned (decide (doSend content > 0)), some content, s⟩
      | other => other.map fun (thrown, s) => ⟨thrown, none, s⟩
    | (.returned false, s) => some ⟨.returned false, none, s⟩
    | (thrown, s) => some ⟨thrown, none, s⟩

/-- The object after some calls of `get_script`. -/
def fetched (s : UrxScript) : Nat → Option UrxScript
  | 0 => some s
  | n + 1 => (s.fetched n).bind fun s => s.getScript.map Prod.snd

end UrxScript

/-- What reading a file should make of it. -/
structure Formatted (s : UrxScript) (content script : List UInt8) : Prop where
  handedOut : s.getScript.map Prod.fst = some (.script script)
  tabs : tab ∉ script
  pairs : ¬ [carriageReturn, lineFeed] <:+: script
  lastLine : [lineFeed] <:+ script
  again : ((s.fetched 1).bind UrxScript.getScript).map Prod.fst = some (.script script)
  uploads : ∀ n name doSend, name ≠ [] →
    ((s.fetched n).bind fun s => s.uploadScript name true (some content) doSend).map (fun u => (u.result, u.sent)) =
      some (.returned (decide (doSend script > 0)), some script)

theorem joinLines_cases {content : List UInt8} (h : content ≠ []) :
    ([lineFeed] <:+ content ∧ joinLines content = content) ∨ joinLines content = content ++ [lineFeed] :=
  join_getlines lineFeed h

theorem joinLines_ends {content : List UInt8} (h : content ≠ []) : [lineFeed] <:+ joinLines content := by
  cases joinLines_cases h with
  | inl hSame => exact hSame.2.symm ▸ hSame.1
  | inr hMore => exact ⟨content, hMore.symm⟩

theorem formatScript_ends {script : List UInt8} (h : [lineFeed] <:+ script) : [lineFeed] <:+ formatScript script := by
  rw [formatScript_eq]
  exact suffix_expand (by decide) (suffix_dropBefore (by decide) h)

theorem tab_notMem_formatScript (script : List UInt8) : tab ∉ formatScript script := by
  rw [formatScript_eq]
  exact notMem_expand (by decide)

/-- A line feed behind the last one ends no line that has carriage returns. -/
theorem infix_joinLines_iff {content : List UInt8} (h : content ≠ []) :
    [carriageReturn, carriageReturn, lineFeed] <:+: joinLines content ↔
      [carriageReturn, carriageReturn, lineFeed] <:+: content ++ [lineFeed] := by
  cases joinLines_cases h with
  | inl hSame =>
    obtain ⟨⟨front, rfl⟩, hJoin⟩ := hSame
    rw [hJoin]
    apply Iff.symm (List.infix_concat_iff.trans (or_iff_right _))
    rintro ⟨more, hEnd⟩
    have hLast := congrArg (fun text => text.dropLast.getLast?) hEnd
    simp [carriageReturn, lineFeed] at hLast
  | inr hMore => rw [hMore]

namespace UrxScript

theorem fetched_eq (fname content : List UInt8) (n : Nat) :
    fetched ⟨fname, content, some true⟩ n = some ⟨fname, formatScript^[n] content, some true⟩ := by
  induction n with
  | zero => rfl
  | succ n ih =>
    rw [fetched, ih, Function.iterate_succ_apply']
    rfl

/-- An upload sends the formatted file, whatever the object has been used for. -/
theorem uploadScript_eq (s : UrxScript) {name content : List UInt8} {opened : Option (List UInt8)} (hName : name ≠ [])
    (hContent : contentOf opened = some content) (doSend : List UInt8 → Int) :
    s.uploadScript name true opened doSend =
      some ⟨.returned (decide (doSend (formatScript content) > 0)), some (formatScript content),
        ⟨name, formatScript content, some true⟩⟩ := by
  rw [uploadScript, Session.setScript_eq, if_pos ⟨hName, rfl⟩]
  dsimp only
  rw [Session.readFile_eq hName, hContent]
  rfl

/-- A file is read and formatted as it should be if and only if none of its lines ends in two carriage returns. -/
theorem formatted_iff {s : UrxScript} {content : List UInt8} (hName : s.fname ≠ []) (hContent : content ≠ []) :
    (s.readFile (some content)).1 = .returned true ∧
      ((∃ script, Formatted (s.readFile (some content)).2 content script) ↔
        ¬ [carriageReturn, carriageReturn, lineFeed] <:+: content ++ [lineFeed]) := by
  have hEnds := joinLines_ends hContent
  have hRead : contentOf (some content) = some (joinLines content) := by
    rw [contentOf, Option.bind_some, if_neg]
    exact hEnds.ne_nil (List.cons_ne_nil _ _)
  rw [Session.readFile_eq hName, hRead]
  refine ⟨rfl, ?_⟩
  dsimp only
  rw [← infix_joinLines_iff hContent]
  constructor
  · rintro ⟨script, hFormatted⟩
    obtain rfl : formatScript (joinLines content) = script :=
      Result.script.inj (Option.some.inj hFormatted.handedOut)
    rw [← infix_formatScript_iff]
    exact hFormatted.pairs
  · intro hNone
    refine ⟨formatScript (joinLines content), rfl, tab_notMem_formatScript _, ?_, formatScript_ends hEnds, ?_, ?_⟩
    · rwa [infix_formatScript_iff]
    · have hAgain := (formatScript_again_iff (List.Sublist.refl _) fun _ => rfl).mpr hNone
      rw [fetched_eq]
      exact congrArg (fun script => some (Result.script script)) hAgain
    · intro n name doSend hOther
      rw [fetched_eq, Option.bind_some, uploadScript_eq _ hOther hRead]
      rfl

theorem formatted_iff_first :
    (∃ script, Formatted ((construct (text "first.script") true).readFile (some (text "first\r\n"))).2
      (text "first\r\n") script) ↔
      ¬ [carriageReturn, carriageReturn, lineFeed] <:+: text "first\r\n" ++ [lineFeed] :=
  (formatted_iff (s := construct (text "first.script") true) (by decide) (by decide)).2

/-- Of two carriage returns at the end of a line the first call takes one, and the second call the other. -/
theorem second_script_differs : ¬ ∀ (s : UrxScript) (content : List UInt8), s.fname ≠ [] → content ≠ [] →
    (s.readFile (some content)).1 = .returned true →
      ∃ script, Formatted (s.readFile (some content)).2 content script := by
  intro h
  obtain ⟨script, hFormatted⟩ := h (construct (text "a.script") true) (text "a\r\r\n") (by decide) (by decide) (by decide)
  obtain rfl : text "a\r\n" = script := Result.script.inj (Option.some.inj hFormatted.handedOut)
  exact absurd hFormatted.again (by decide)

end UrxScript

end LibUrx.Script
