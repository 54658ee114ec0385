import SelfNamed.Json.Basic
import SelfNamed.Json.Skip

/-!
# Values as a text writes them

A draft is what reading a text has found: members in written order, a name as often as it is
written, and at the place where reading stopped the fault instead of a value. A draft without faults
means a canonical value. Every draft knows the text from its first character on, so a value that is
not wanted can be passed over instead, which is more lenient than reading.
-/

namespace SelfNamed.Json

/-- A value as written; the first component of most is the text from its first character on. -/
inductive Draft where
  /-- The null value. -/
  | null (start : List Char)
  /-- A truth value. -/
  | bool (start : List Char) (b : Bool)
  /-- A number. -/
  | num (start : List Char) (n : Number)
  /-- A text. -/
  | str (start : List Char) (s : String)
  /-- Items, and the fault that stands in place of a further item or of the end. -/
  | arr (start : List Char) (items : List Draft) (stop : Option Fault)
  /-- Members, and the fault that stands in place of a further member or of the end. -/
  | obj (start : List Char) (members : List (String × Draft)) (stop : Option Fault)
  /-- A value other than an array or an object that cannot be read. -/
  | bad (start : List Char) (fault : Fault)
  /-- Not even the first character of a value. -/
  | cut (fault : Fault)

namespace Draft

/-- The text from the first character of the value on. -/
def start : Draft → List Char
  | .null start => start
  | .bool start _ => start
  | .num start _ => start
  | .str start _ => start
  | .arr start _ _ => start
  | .obj start _ _ => start
  | .bad start _ => start
  | .cut fault => fault.rest

/-- Succeeds unless there is a fault. -/
def settle {α : Type} (stop : Option Fault) (result : α) : Except Fault α :=
  match stop with
  | none => .ok result
  | some fault => .error fault

mutual

/-- The canonical value that a draft means, or its first fault. -/
def value : Draft → Except Fault Json
  | .null _ => .ok .null
  | .bool _ b => .ok (.bool b)
  | .num _ n => .ok (.num n)
  | .str _ s => .ok (.str s)
  | .arr _ items stop => do
    let items ← itemValues items
    settle stop (.arr items)
  | .obj _ members stop => do
    let members ← memberValues members
    settle stop (.obj (Fields.ofMembers members))
  | .bad _ fault => .error fault
  | .cut fault => .error fault

/-- The values of items. -/
def itemValues : List Draft → Except Fault (List Json)
  | [] => .ok []
  | item :: rest => do
    let j ← value item
    let js ← itemValues rest
    return j :: js

/-- The values of members under their names. -/
def memberValues : List (String × Draft) → Except Fault (List (String × Json))
  | [] => .ok []
  | (name, member) :: rest => do
    let j ← value member
    let js ← memberValues rest
    return (name, j) :: js

end

/-- The fault on passing over a draft, if there is one. What can be read can be passed over. -/
def skip : Draft → Option Fault
  | .cut fault => some fault
  | d =>
    match d.value with
    | .ok _ => none
    | .error _ => Skip.fault? d.start

mutual

/-- A value as a draft without places and faults. -/
def ofValue : Json → Draft
  | .null => .null []
  | .bool b => .bool [] b
  | .num n => .num [] n
  | .str s => .str [] s
  | .arr items => .arr [] (ofItems items) none
  | .obj members => .obj [] (ofMembers members) none

/-- Items as drafts. -/
def ofItems : List Json → List Draft
  | [] => []
  | item :: rest => ofValue item :: ofItems rest

/-- Members as drafts. -/
def ofMembers : List (String × Json) → List (String × Draft)
  | [] => []
  | (name, value) :: rest => (name, ofValue value) :: ofMembers rest

end

end Draft

end SelfNamed.Json
