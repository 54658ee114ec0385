import SelfNamed.Settings
import SelfNamed.Shrink
import SelfNamed.Tree.Decode
import SelfNamed.Tree.Encode

/-!
# Modules as JSON texts

A module comes as the JSON text of its tree, a bare program or one inside a file node, and goes back
in the same shape with its self-named exports shrunk. A text that is no such tree is rejected before
the source is asked for anything.
-/

namespace SelfNamed

/-- A module whose exports have been shrunk. -/
structure Shrunk where
  /-- The tree, in the shape in which it came. -/
  tree : Json
  /-- What was changed. -/
  report : Report

namespace Shrunk

/-- The JSON text of the tree. -/
def text (s : Shrunk) : String := s.tree.compact

/-- What comes of a module: the shrunk module or a failure, the state of the source, what was told.
-/
abbrev Outcome (σ : Type) := Except Failure Shrunk × σ × List Event

variable {σ : Type}

/-- The type that a JSON node names, if it names one. -/
def rootType? (j : Json) : Option String := (j.field? "type").bind Json.text?

/-- The program that a JSON value is. -/
def program? (j : Json) : Except Failure Program :=
  match Json.decodeValue (fun _ => Program.decode) j with
  | .ok program => .ok program
  | .error e => .error (.tree (e.message []))

/-- Shrinks a program held as a JSON value; the tree is put together from what comes of it. -/
def ofProgram (supply : Supply σ) (j : Json) (rebuild : Json → Json) (source : σ) : Outcome σ :=
  match program? j with
  | .error failure => (.error failure, source, [])
  | .ok program =>
    match program.shrink supply source with
    | (.ok report, program, source, log) =>
      (.ok ⟨rebuild program.toJson.sorted, report⟩, source, log)
    | (.error failure, _, source, log) => (.error failure, source, log)

/-- The tree with another value in place of its program. -/
def setProgram (tree program : Json) : Json :=
  match tree with
  | .obj members => .obj (Json.Fields.insert "program" program members)
  | other => other

/-- Shrinks a tree. -/
def ofTree (supply : Supply σ) (tree : Json) (source : σ) : Outcome σ :=
  let reject (message : String) : Outcome σ := (.error (.tree message), source, [])
  match rootType? tree with
  | none => reject "root node has no type"
  | some "Program" => ofProgram supply tree id source
  | some "File" =>
    match tree.field? "program" with
    | none => reject "File node has no program"
    | some program =>
      if rootType? program = some "Program" then
        ofProgram supply program (setProgram tree) source
      else
        reject ("File.program is " ++ (rootType? program).getD "untyped" ++ ", expected Program")
  | some other => reject ("expected a Program or File node, found " ++ other)

/-- Shrinks the module of a text; nesting is free. -/
def ofText (supply : Supply σ) (text : String) (source : σ) : Outcome σ :=
  match Json.read none text.toList with
  | .error fault => (.error (.tree (fault.message text.toList)), source, [])
  | .ok tree => ofTree supply tree source

/-- Shrinks the module of a text with a new generator. Settings that give no generator are the first
thing to be reported. -/
def withSettings (settings : Settings) (text : String) : Except Failure Shrunk :=
  match settings.generator with
  | .error failure => .error failure
  | .ok generator => (ofText Generator.supply text generator).1

/-- Shrinks several modules with strings from one source, each with the state of the source after
it. -/
def session (supply : Supply σ) : List String → σ → List (Except Failure Shrunk × σ)
  | [], _ => []
  | text :: rest, source =>
    let (result, source, _) := ofText supply text source
    (result, source) :: session supply rest source

end Shrunk

end SelfNamed
