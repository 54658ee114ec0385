import SelfNamed.Generator
import SelfNamed.Json.Decode
import SelfNamed.Failure
import SelfNamed.Quote

/-!
# Settings

Three things can be set: the symbols of the strings, the first counter value, and the quotes that
the strings will stand between. Settings are checked when a generator is built from them: the
symbols must form an alphabet, and where quotes are given every symbol must be allowed between them.
-/

namespace SelfNamed

open Json (Draft Decoded Setting Slot)

/-- Settings of a generator. -/
structure Settings where
  /-- The symbols, in digit order. -/
  symbols : String := Alphabet.standardText
  /-- The first counter value. -/
  start : UInt64 := 0
  /-- The quotes around the strings, if they are known. -/
  quote : Option QuoteStyle := none
  deriving DecidableEq, Repr

namespace Settings

/-- The alphabet of the settings. -/
def alphabet (s : Settings) : Except AlphabetError Alphabet :=
  match Alphabet.ofText s.symbols with
  | .error e => .error e
  | .ok alphabet =>
    match s.quote with
    | none => .ok alphabet
    | some quote =>
      match alphabet.symbols.find? fun c => !quote.allows c with
      | some c => .error (.unfit c quote.name)
      | none => .ok alphabet

/-- A generator that starts where the settings say. -/
def generator (s : Settings) : Except Failure Generator :=
  match s.alphabet with
  | .ok alphabet => .ok ⟨alphabet, s.start⟩
  | .error e => .error (.alphabet e)

/-- The JSON value of settings. -/
def toJson (s : Settings) : Json :=
  .obj [("alphabet", .str s.symbols), ("start", .num (.natural s.start)),
    ("quote", match s.quote with
      | some quote => .str quote.name
      | none => .null)]

/-- The names of the quote styles. -/
def quoteChoices : List (String × QuoteStyle) := QuoteStyle.all.map fun quote => (quote.name, quote)

/-- The fields of settings; each one may be missing. -/
def slots (setting : Setting) : List (Slot Settings) :=
  [⟨"alphabet", true, fun d s => do return { s with symbols := ← d.text }⟩,
    ⟨"start", true, fun d s => do return { s with start := ← d.word }⟩,
    ⟨"quote", true, fun d s =>
      do return { s with quote := ← d.optional (Json.choice setting quoteChoices) }⟩]

/-- Decodes settings. -/
def decode (setting : Setting) (d : Draft) : Decoded Settings :=
  Json.fillRecord setting "MirrorConfig" (slots setting) {} d

end Settings

end SelfNamed
