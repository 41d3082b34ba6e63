import LinkedTables.Settings
import LinkedTables.Storage.Codec
import LinkedTables.Storage.Json

/-!
# Stored settings

Settings as bytes and as structured text.
-/

namespace LinkedTables

namespace UnqualifiedRule

/-- How a rule is called. -/
def text : UnqualifiedRule → String
  | preferHome => "PreferHome"
  | strict => "Strict"

/-- The rule of a name. -/
def ofText? (name : String) : Option UnqualifiedRule :=
  if name = "PreferHome" then some preferHome
  else if name = "Strict" then some strict
  else none

/-- The number of a rule. -/
def toNumber : UnqualifiedRule → Nat
  | preferHome => 0
  | strict => 1

/-- The rule of a number. -/
def ofNumber? : Nat → Option UnqualifiedRule
  | 0 => some preferHome
  | 1 => some strict
  | _ => none

/-- Rules, as numbers of 32 bits. -/
def codec : Codec UnqualifiedRule := (Codec.number 4).mapping toNumber ofNumber?

/-- Read a rule: its name alone, or as the name of an empty field. -/
def ofJson? : Json → Option UnqualifiedRule
  | .text (some name) => ofText? name
  | .object [(some name, .null)] => ofText? name
  | _ => none

end UnqualifiedRule

namespace Settings

/-- Settings, field by field. -/
def codec : Codec Settings :=
  (Codec.word.pair (Codec.word.option.pair UnqualifiedRule.codec)).mapping
    (fun s => (s.maxExpressionLength, s.maxFrameRows, s.unqualified))
    (fun (maxExpressionLength, maxFrameRows, unqualified) =>
      some ⟨maxExpressionLength, maxFrameRows, unqualified⟩)

/-- Settings as an object. -/
def toJson (s : Settings) : Json :=
  .object [(some "max_expression_len", .natural s.maxExpressionLength),
    (some "max_frame_rows", s.maxFrameRows.elim .null .natural),
    (some "unqualified", .text s.unqualified.text)]

/-- Read a number that may be missing. -/
def optionalWord? : Option Json → Option (Option Nat)
  | none => some none
  | some .null => some none
  | some j => j.word?.map some

/-- Read settings; a limit on rows that is missing is none. -/
def ofJson? (j : Json) : Option Settings :=
  match j.fields? ["max_expression_len", "max_frame_rows", "unqualified"] with
  | some [some length, rows, some rule] => do
    pure ⟨← length.word?, ← optionalWord? rows, ← UnqualifiedRule.ofJson? rule⟩
  | _ => none

end Settings

end LinkedTables
