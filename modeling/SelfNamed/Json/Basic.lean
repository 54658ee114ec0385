import SelfNamed.Number.Shortest

/-!
# JSON values

Members are an ordered list, so one type serves a value as it is written and the value that a text
means. The second is canonical: the names of every object strictly increase by code points, as
`sorted` makes them, a name given twice keeping its last value. Looking up a name takes the first
member of that name, which in a canonical object is the only one.
-/

namespace SelfNamed

/-- A JSON number: integers of 64 bits are exact, all others binary floating point. -/
inductive Json.Number where
  /-- An integer from zero up. -/
  | natural (n : UInt64)
  /-- A negative integer, by its magnitude. -/
  | negative (magnitude : UInt64)
  /-- Any other number. -/
  | real (x : Binary64)
  deriving DecidableEq, Repr

/-- A JSON value. -/
inductive Json where
  /-- The null value. -/
  | null
  /-- A truth value. -/
  | bool (b : Bool)
  /-- A number. -/
  | num (n : Json.Number)
  /-- A text. -/
  | str (s : String)
  /-- An array. -/
  | arr (items : List Json)
  /-- An object, members in order. -/
  | obj (members : List (String × Json))
  deriving Repr

namespace Json

instance : Inhabited Json := ⟨.null⟩

/-- Named values in order. -/
abbrev Fields := List (String × Json)

namespace Fields

/-- Puts a value under a name into fields whose names increase, in place of one of the same name. -/
def insert (name : String) (value : Json) : Fields → Fields
  | [] => [(name, value)]
  | (n, v) :: rest =>
    if name < n then (name, value) :: (n, v) :: rest
    else if name = n then (name, value) :: rest
    else (n, v) :: insert name value rest

/-- Fields in increasing order of their names, the last of one name staying. -/
def ofMembers (members : List (String × Json)) : Fields :=
  members.foldl (fun fields member => fields.insert member.1 member.2) []

/-- The value under a name. -/
def get? (name : String) : Fields → Option Json
  | [] => none
  | (n, v) :: rest => if n = name then some v else get? name rest

/-- The names strictly increase. -/
def Increasing (fields : Fields) : Prop := (fields.map Prod.fst).Pairwise (· < ·)

end Fields

/-- The value under a name of an object. -/
def field? (name : String) : Json → Option Json
  | .obj members => Fields.get? name members
  | _ => none

/-- The text of a text value. -/
def text? : Json → Option String
  | .str s => some s
  | _ => none

/-- The number of an integer from zero up. -/
def natural? : Json → Option UInt64
  | .num (.natural n) => some n
  | _ => none

/-- A value with an integer from zero up is the integer. -/
theorem natural?_eq_some_iff (value : Json) (n : UInt64) :
    value.natural? = some n ↔ value = .num (.natural n) := by
  cases value with
  | num number => cases number <;> simp [natural?]
  | _ => simp [natural?]

mutual

/-- The canonical form: every object has its members in increasing order of their names, the last of
one name staying. -/
def sorted : Json → Json
  | .arr items => .arr (sortedItems items)
  | .obj members => .obj (Fields.ofMembers (sortedMembers members))
  | .null => .null
  | .bool b => .bool b
  | .num n => .num n
  | .str s => .str s

/-- The canonical forms of the items of an array. -/
def sortedItems : List Json → List Json
  | [] => []
  | item :: rest => sorted item :: sortedItems rest

/-- The members of an object with their values in canonical form. -/
def sortedMembers : List (String × Json) → List (String × Json)
  | [] => []
  | (name, value) :: rest => (name, sorted value) :: sortedMembers rest

end

mutual

/-- Every object in the value has strictly increasing names. -/
def Canonical : Json → Prop
  | .arr items => CanonicalItems items
  | .obj members => Fields.Increasing members ∧ CanonicalMembers members
  | .null => True
  | .bool _ => True
  | .num _ => True
  | .str _ => True

/-- Every item is canonical. -/
def CanonicalItems : List Json → Prop
  | [] => True
  | item :: rest => Canonical item ∧ CanonicalItems rest

/-- Every member has a canonical value. -/
def CanonicalMembers : List (String × Json) → Prop
  | [] => True
  | (_, value) :: rest => Canonical value ∧ CanonicalMembers rest

end

/-- A value put under a name is found there. -/
theorem get?_insert (name : String) (value : Json) (fields : Fields) :
    Fields.get? name (Fields.insert name value fields) = some value := by
  induction fields with
  | nil => simp [Fields.insert, Fields.get?]
  | cons member rest ih =>
    obtain ⟨n, v⟩ := member
    unfold Fields.insert
    split
    · simp [Fields.get?]
    · split
      · simp [Fields.get?]
      · next h =>
        rw [Fields.get?, if_neg (fun e => h e.symm)]
        exact ih

end Json

end SelfNamed
