import SelfNamed.Settings
import SelfNamed.Toml.Excerpt
import SelfNamed.Toml.Read

/-!
# The settings file of a project

Settings are kept in a TOML document. Names that are no setting are passed over, and a setting that
is missing has its standard value. A value of the wrong kind is reported with an excerpt of its
place. The quotes may be named by a text or by a table whose one field has that name and holds
nothing.
-/

namespace SelfNamed.SettingsFile

open Json (Got Mismatch choose)
open Toml (Fields Key Node Scalar Span)

/-- Why a file gives no settings. -/
inductive Flaw where
  /-- There is no file. -/
  | absent
  /-- The file is no text in UTF-8. -/
  | noText
  /-- The text is no TOML document. -/
  | noDocument
  /-- The quotes are named neither by a text nor by a table with one empty field. -/
  | noChoice
  /-- A value is not what the setting asks for. -/
  | mismatch (mismatch : Mismatch) (span : Span)

/-- A number as a message shows it: all digits in place. -/
def realText (x : Binary64) : String :=
  if x.isUndefined then "NaN"
  else
    let sign := if x.isNegative then "-" else ""
    if x.isFinite then sign ++ String.ofList (x.shortest .up).positional else sign ++ "inf"

/-- The wording of a mismatch. -/
def reason (m : Mismatch) : String := m.message realText

/-- The wording of a flaw of the given text. -/
def Flaw.message (text : List Char) : Flaw → String
  | .absent => "failed to read config file: No such file or directory (os error 2)"
  | .noText => "failed to read config file: stream did not contain valid UTF-8"
  | .noDocument => "failed to parse config file: TOML parse error"
  | .noChoice => "failed to parse config file: wanted string or table"
  | .mismatch m span => "failed to parse config file: " ++ span.excerpt text ++ reason m ++ "\n"

/-- A flaw of the given text as a failure. -/
def Flaw.failure (text : List Char) (flaw : Flaw) : Failure := .settings (flaw.message text)

/-- A value of another kind than asked for, in the words of a message. -/
def got : Node → Got
  | .scalar _ (.text s) => .text s
  | .scalar _ (.integer n) => .integer n
  | .scalar _ (.real x) => .real x
  | .scalar _ (.truth b) => .boolean b
  | .scalar _ .date => .map
  | .array .. => .sequence
  | .table .. => .map
  | .tables _ => .sequence

/-- The place that a message shows for a value: its own, or else that of its name. -/
def placeOf (key : Key) (node : Node) : Span := node.span?.getD key.span

/-- A text. -/
def text (span : Span) : Node → Except Flaw String
  | .scalar _ (.text s) => .ok s
  | node => .error (.mismatch (.kind (got node) "a string") span)

/-- An integer from zero on. -/
def word (span : Span) : Node → Except Flaw UInt64
  | .scalar _ (.integer n) =>
    if 0 ≤ n then .ok (UInt64.ofNat n.toNat)
    else .error (.mismatch (.value (.integer n) "u64") span)
  | node => .error (.mismatch (.kind (got node) "u64") span)

/-- Quotes by their name. -/
def named (span : Span) (name : String) : Except Flaw QuoteStyle :=
  match choose Settings.quoteChoices name with
  | .ok quote => .ok quote
  | .error (.mismatch m) => .error (.mismatch m span)
  | .error (.fault _) => .error .noChoice

/-- Whether something is a table or a list without anything in it. -/
def isVoid : Node → Bool
  | .scalar .. => false
  | .array _ items => items.isEmpty
  | .table _ _ fields => fields.isEmpty
  | .tables items => items.isEmpty

/-- Quotes, by a text or by a table with one field. -/
def quote (span : Span) : Node → Except Flaw QuoteStyle
  | .scalar _ (.text s) => named span s
  | .table _ _ [(key, node)] => do
    let quote ← named key.span key.name
    if isVoid node then .ok quote else .error .noChoice
  | _ => .error .noChoice

/-- Puts a field of the document into the settings. -/
def fill (s : Settings) (field : Key × Node) : Except Flaw Settings :=
  let (key, node) := field
  let span := placeOf key node
  if key.name = "alphabet" then do return { s with symbols := ← text span node }
  else if key.name = "start" then do return { s with start := ← word span node }
  else if key.name = "quote" then do return { s with quote := some (← quote span node) }
  else .ok s

/-- The settings in the fields of a document; the first field that is wrong is the error. -/
def ofFields (fields : Fields) : Except Flaw Settings := fields.foldlM fill {}

/-- The settings in a text. -/
def ofText (s : String) : Except Failure Settings :=
  let settings :=
    match Toml.read s.toList with
    | some fields => ofFields fields
    | none => .error .noDocument
  settings.mapError (Flaw.failure s.toList)

/-- The settings in the bytes of a file, if there is one. -/
def load : Option (List UInt8) → Except Failure Settings
  | none => .error (Flaw.absent.failure [])
  | some bytes =>
    match String.fromUTF8? ⟨bytes.toArray⟩ with
    | some s => ofText s
    | none => .error (Flaw.noText.failure [])

/-- The settings of a project. Without a file they are the standard ones. -/
def loadProject : Option (List UInt8) → Except Failure Settings
  | none => .ok {}
  | some bytes => load (some bytes)

end SelfNamed.SettingsFile
