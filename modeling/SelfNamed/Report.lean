import SelfNamed.Failure
import SelfNamed.Json.Decode
import SelfNamed.Walk.Listing

/-!
# Reports and responses

A pass reports every literal that it changed. A tool that drives passes answers with a response: the
report of a success, or the code, wording and details of a failure. Every response says its status
and the version of its layout, is written over several lines and ends with a line break.
-/

namespace SelfNamed

open Json (Draft Decoded Setting Slot)

/-- A literal that got a new value. -/
structure Replacement where
  /-- The exported name, which was the value before. -/
  name : String
  /-- The new value. -/
  value : String
  /-- The first byte of the literal, if recorded. -/
  first : Option UInt64
  /-- The byte after the literal, if recorded. -/
  last : Option UInt64
  deriving DecidableEq, Repr

/-- The literals that a pass changed, in source order. -/
structure Report where
  /-- The changes. -/
  replacements : List Replacement
  deriving DecidableEq, Repr

namespace Replacement

/-- The JSON value of a change. -/
def toJson (r : Replacement) : Json :=
  .obj (("name", .str r.name) :: ("value", .str r.value) ::
    (offsetMember "start" r.first ++ offsetMember "end" r.last))

/-- What is known of a change while it is decoded. -/
structure Partial where
  /-- The name. -/
  name : Option String := none
  /-- The value. -/
  value : Option String := none
  /-- The first byte. -/
  first : Option (Option UInt64) := none
  /-- The byte behind. -/
  last : Option (Option UInt64) := none

/-- The fields of a change. -/
def slots : List (Slot Partial) :=
  [⟨"name", false, fun d r => do return { r with name := some (← d.text) }⟩,
    ⟨"value", false, fun d r => do return { r with value := some (← d.text) }⟩,
    ⟨"start", true, fun d r => do return { r with first := some (← d.optional Draft.word) }⟩,
    ⟨"end", true, fun d r => do return { r with last := some (← d.optional Draft.word) }⟩]

/-- Decodes a change. -/
def decode (setting : Setting) (d : Draft) : Decoded Replacement := do
  let r ← Json.fillRecord setting "Replacement" slots {} d
  return ⟨← Json.demand "name" r.name, ← Json.demand "value" r.value, r.first.getD none,
    r.last.getD none⟩

end Replacement

namespace Report

/-- A report without changes. -/
def empty : Report := ⟨[]⟩

/-- The number of changes. -/
def size (r : Report) : Nat := r.replacements.length

/-- Whether nothing was changed. -/
def isEmpty (r : Report) : Bool := r.replacements.isEmpty

/-- The first change made for a name. -/
def get? (r : Report) (name : String) : Option Replacement :=
  r.replacements.find? fun replacement => replacement.name == name

/-- The fields of a report. -/
def members (r : Report) : Json.Fields :=
  [("replacements", .arr (r.replacements.map Replacement.toJson))]

/-- The JSON value of a report. -/
def toJson (r : Report) : Json := .obj r.members

/-- The field of a report. -/
def slots (setting : Setting) : List (Slot (Option (List Replacement))) :=
  [⟨"replacements", false, fun d _ => (d.list (Replacement.decode setting)).map some⟩]

/-- Decodes a report. -/
def decode (setting : Setting) (d : Draft) : Decoded Report := do
  let replacements ← Json.fillRecord setting "RewriteReport" (slots setting) none d
  return ⟨← Json.demand "replacements" replacements⟩

end Report

/-- The version of the layout of responses. -/
def layoutVersion : String := "1"

/-- The response for a pass that came to its end. -/
structure Success where
  /-- The status. -/
  status : String
  /-- The version of the layout. -/
  version : String
  /-- The number of literals that were changed. -/
  replaced : UInt64
  /-- The changes. -/
  report : Report
  deriving DecidableEq, Repr

namespace Success

/-- The response for a report. -/
def ofReport (report : Report) : Success := ⟨"ok", layoutVersion, UInt64.ofNat report.size, report⟩

/-- The JSON value of a response. -/
def toJson (r : Success) : Json :=
  .obj (("status", .str r.status) :: ("schema_version", .str r.version) ::
    ("replaced", .num (.natural r.replaced)) :: r.report.members)

/-- What is known of a response while it is decoded. -/
structure Partial where
  /-- The status. -/
  status : Option String := none
  /-- The version. -/
  version : Option String := none
  /-- The number of changes. -/
  replaced : Option UInt64 := none
  /-- All other members, in reverse order. -/
  others : List (String × Draft) := []

/-- The fields of a response, those of the report aside. -/
def slots : List (Slot Partial) :=
  [⟨"status", false, fun d r => do return { r with status := some (← d.text) }⟩,
    ⟨"schema_version", false, fun d r => do return { r with version := some (← d.text) }⟩,
    ⟨"replaced", false, fun d r => do return { r with replaced := some (← d.count) }⟩]

/-- Holds a member back for the report. -/
def holdBack (name : String) (d : Draft) (r : Partial) : Decoded Partial := do
  let _ ← d.kept
  return { r with others := (name, d) :: r.others }

/-- Decodes a response. The report is decoded last, from the members that are left. -/
def decode (d : Draft) : Decoded Success := do
  let r ← Json.fillObject "MinifyResponse" slots holdBack {} d
  let status ← Json.demand "status" r.status
  let version ← Json.demand "schema_version" r.version
  let replaced ← Json.demand "replaced" r.replaced
  let replacements ←
    Json.fillMembers (Report.slots .held) Json.passOver [] r.others.reverse none
  return ⟨status, version, replaced, ⟨← Json.demand "replacements" replacements⟩⟩

end Success

/-- What a response says of a failure. -/
structure Problem where
  /-- The number of the failure's code. -/
  code : UInt64
  /-- The wording of the failure. -/
  message : String
  /-- More data, where there is some. -/
  details : Option Json
  deriving Repr

namespace Problem

/-- What is said of a failure; only an exhausted counter has details. -/
def ofFailure (f : Failure) : Problem :=
  ⟨UInt64.ofNat f.code.number, f.message,
    match f with
    | .exhausted count => some (.obj [("count", .num (.natural count))])
    | _ => none⟩

/-- The JSON value. -/
def toJson (p : Problem) : Json :=
  .obj (("code", .num (.natural p.code)) :: ("message", .str p.message) ::
    match p.details with
    | some details => [("details", details)]
    | none => [])

/-- What is known of a problem while it is decoded. -/
structure Partial where
  /-- The code. -/
  code : Option UInt64 := none
  /-- The wording. -/
  message : Option String := none
  /-- More data. -/
  details : Option (Option Json) := none

/-- The fields of a problem. -/
def slots : List (Slot Partial) :=
  [⟨"code", false, fun d p => do return { p with code := some (← d.byte) }⟩,
    ⟨"message", false, fun d p => do return { p with message := some (← d.text) }⟩,
    ⟨"details", false, fun d p => do return { p with details := some (← d.optional Draft.kept) }⟩]

/-- Decodes a problem. -/
def decode (setting : Setting) (d : Draft) : Decoded Problem := do
  let p ← Json.fillRecord setting "ErrorInfo" slots {} d
  return ⟨← Json.demand "code" p.code, ← Json.demand "message" p.message, p.details.getD none⟩

end Problem

/-- The response for a failure. -/
structure Refusal where
  /-- The status. -/
  status : String
  /-- The version of the layout. -/
  version : String
  /-- What is said of the failure. -/
  problem : Problem
  deriving Repr

namespace Refusal

/-- The response for a failure. -/
def ofFailure (f : Failure) : Refusal := ⟨"error", layoutVersion, .ofFailure f⟩

/-- The JSON value of a response. -/
def toJson (r : Refusal) : Json :=
  .obj [("status", .str r.status), ("schema_version", .str r.version), ("error", r.problem.toJson)]

/-- What is known of a response while it is decoded. -/
structure Partial where
  /-- The status. -/
  status : Option String := none
  /-- The version. -/
  version : Option String := none
  /-- The problem. -/
  problem : Option Problem := none

/-- The fields of a response. -/
def slots (setting : Setting) : List (Slot Partial) :=
  [⟨"status", false, fun d r => do return { r with status := some (← d.text) }⟩,
    ⟨"schema_version", false, fun d r => do return { r with version := some (← d.text) }⟩,
    ⟨"error", false, fun d r => do return { r with problem := some (← Problem.decode setting d) }⟩]

/-- Decodes a response. -/
def decode (setting : Setting) (d : Draft) : Decoded Refusal := do
  let r ← Json.fillRecord setting "ErrorResponse" (slots setting) {} d
  return ⟨← Json.demand "status" r.status, ← Json.demand "schema_version" r.version,
    ← Json.demand "error" r.problem⟩

end Refusal

/-- A response as a tool prints it: several lines and a line break at the end. -/
def emit (response : Json) : String := response.pretty ++ "\n"

end SelfNamed
