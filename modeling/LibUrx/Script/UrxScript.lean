import LibUrx.Base.Replace
import LibUrx.Base.Text

/-! # Scripts

A script object knows the name of a file and reads the file on request. What the file system does is given
with each call: whether a name is found, and what the file contains if it can be opened. `none` stands for a
call whose behaviour the language leaves undefined.
-/
namespace LibUrx.Script
open Text
set_option autoImplicit false

def lineFeed : UInt8 := 10
def carriageReturn : UInt8 := 13
def tab : UInt8 := 9

/-- `parsed` is `none` as long as nothing was assigned to it, which the constructor leaves to `set_script`. -/
structure UrxScript where
  fname : List UInt8
  script : List UInt8
  parsed : Option Bool
  deriving DecidableEq

inductive Result where
  | returned (ok : Bool)
  | script (content : List UInt8)
  | thrown (what : List UInt8)
  deriving DecidableEq

/-- Line by line, each with a line feed behind it. -/
def joinLines (content : List UInt8) : List UInt8 := (getlines lineFeed content).flatMap fun line => line ++ [lineFeed]

/-- Format script to make it ready for shipping. -/
def formatScript (script : List UInt8) : List UInt8 :=
  replaceAll (replaceAll script [carriageReturn, lineFeed] [lineFeed]) [tab] (text "        ")

namespace UrxScript

def setScript (s : UrxScript) (fname : List UInt8) (found : Bool) : Bool × UrxScript :=
  if fname.length = 0 then (false, s)
  else if !found then (false, s)
  else (true, { s with fname, parsed := some false })

/-- The constructor looks at no result. -/
def construct (fname : List UInt8) (found : Bool) : UrxScript := (setScript ⟨[], [], none⟩ fname found).2

def readFile (s : UrxScript) (opened : Option (List UInt8)) : Result × UrxScript :=
  if s.fname.length = 0 then (.thrown (text "No filename provided"), s)
  else
    let s := { s with script := [] }
    match opened with
    | none => (.returned false, s)
    | some content =>
      let s := { s with script := joinLines content }
      if s.script.length ≤ 0 then (.returned false, s) else (.returned true, { s with parsed := some true })

def getScript (s : UrxScript) : Option (Result × UrxScript) :=
  s.parsed.map fun parsed =>
    if !parsed then (.thrown (text "Script not read"), s)
    else
      let s := { s with script := formatScript s.script }
      (.script s.script, s)

def readScript (s : UrxScript) (fname : List UInt8) (found : Bool) (opened : Option (List UInt8)) :
    Option (Result × UrxScript) :=
  match s.setScript fname found with
  | (false, s) => some (.thrown (text "Invalid filename provided"), s)
  | (true, s) =>
    match s.readFile opened with
    | (.returned true, s) => s.getScript
    | (.returned false, s) => some (.thrown (text "Reading file failed"), s)
    | (other, s) => some (other, s)

end UrxScript

/-- A call of the object, with what the file system does during it. -/
inductive Call where
  | setScript (fname : List UInt8) (found : Bool)
  | readFile (opened : Option (List UInt8))
  | getScript
  | readScript (fname : List UInt8) (found : Bool) (opened : Option (List UInt8))

def UrxScript.call (s : UrxScript) : Call → Option (Result × UrxScript)
  | .setScript fname found => some (.returned (s.setScript fname found).1, (s.setScript fname found).2)
  | .readFile opened => some (s.readFile opened)
  | .getScript => s.getScript
  | .readScript fname found opened => s.readScript fname found opened

end LibUrx.Script
