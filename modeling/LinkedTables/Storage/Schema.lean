import LinkedTables.Schema
import LinkedTables.Storage.Codec
import LinkedTables.Storage.Json

/-!
# Stored schemas

A schema is stored as it stands, as bytes or as structured text, and is read back without a look
at what it says: identifiers may be those of no table, and names may stand twice.
-/

namespace LinkedTables

/-! ## As bytes -/

/-- Relations, field by field. -/
def Relation.codec : Codec Relation :=
  (Codec.word.pair (Codec.text.pair (Codec.word.pair (Codec.text.pair Codec.text)))).mapping
    (fun r => (r.source, r.name, r.target, r.onLeft, r.onRight))
    (fun (source, name, target, onLeft, onRight) => some ⟨source, name, target, onLeft, onRight⟩)

/-- Tables with their relations. -/
def Schema.Entry.codec : Codec Schema.Entry :=
  (Codec.text.pair Relation.codec.list).mapping (fun e => (e.name, e.relations))
    (fun (name, relations) => some ⟨name, relations⟩)

/-- Schemas. -/
def Schema.codec : Codec Schema :=
  Schema.Entry.codec.list.mapping (fun s => s.entries.toList)
    (fun entries => some ⟨entries.toArray⟩)

/-! ## As structured text -/

/-- A relation as an object. -/
def Relation.toJson (r : Relation) : Json :=
  .object [(some "source", .natural r.source), (some "name", .text r.name),
    (some "target", .natural r.target), (some "on_left", .text r.onLeft),
    (some "on_right", .text r.onRight)]

/-- Read a relation. -/
def Relation.ofJson? (j : Json) : Option Relation :=
  match j.fields? ["source", "name", "target", "on_left", "on_right"] with
  | some [some source, some name, some target, some onLeft, some onRight] => do
    pure ⟨← source.word?, ← name.text?, ← target.word?, ← onLeft.text?, ← onRight.text?⟩
  | _ => none

/-- A table with its relations as an object. -/
def Schema.Entry.toJson (e : Schema.Entry) : Json :=
  .object [(some "name", .text e.name), (some "relations", .list (e.relations.map Relation.toJson))]

/-- Read a table with its relations. -/
def Schema.Entry.ofJson? (j : Json) : Option Schema.Entry :=
  match j.fields? ["name", "relations"] with
  | some [some name, some relations] => do
    pure ⟨← name.text?, ← relations.listOf? Relation.ofJson?⟩
  | _ => none

/-- A schema as an object. -/
def Schema.toJson (s : Schema) : Json :=
  .object [(some "nodes", .list (s.entries.toList.map Schema.Entry.toJson))]

/-- Read a schema. -/
def Schema.ofJson? (j : Json) : Option Schema :=
  match j.fields? ["nodes"] with
  | some [some nodes] => do pure ⟨(← nodes.listOf? Schema.Entry.ofJson?).toArray⟩
  | _ => none

end LinkedTables
