import SchemaGraph.Graph.Element
import SchemaGraph.Wire.Message
import SchemaGraph.Option.Registry

/-!
# Encoded options

A second reading of a descriptor set, through an outline of its grammar that
keeps names and leaves every options message as bytes.  The result maps the
identity of each declaration that has options to their bytes.  A declaration
without options, or with an empty options message, has no entry; of several
declarations with one identity the last one that has options counts.
-/

namespace SchemaGraph

open Wire (Fields Value Grammar Slot)

namespace Outline

/-- The message types of the outline. -/
inductive Kind where
  | set
  | file
  | message
  | declaration
  | enum
  | oneof
  deriving DecidableEq, Repr

/-- The name of a message type in messages about faults. -/
def Kind.name : Kind → String
  | .set => "OptionsSet"
  | .file => "OptionsFile"
  | .message => "OptionsMessage"
  | .declaration => "OptionsDeclaration"
  | .enum => "OptionsEnum"
  | .oneof => "OptionsOneof"

/-- The fields of a message type. -/
def Kind.fields : Kind → List (Nat × String × Slot Kind)
  | .set => [(1, "file", .record .file)]
  | .file =>
    [(2, "package", .text), (4, "message_type", .record .message), (5, "enum_type", .record .enum)]
  | .message =>
    [(1, "name", .text), (2, "field", .record .declaration), (3, "nested_type", .record .message),
     (4, "enum_type", .record .enum), (7, "options", .bytes), (8, "oneof_decl", .record .oneof)]
  | .declaration => [(1, "name", .text), (8, "options", .bytes)]
  | .enum => [(1, "name", .text), (3, "options", .bytes)]
  | .oneof => [(1, "name", .text), (2, "options", .bytes)]

/-- The grammar of the outline. -/
def grammar : Grammar Kind where
  name := Kind.name
  slot kind number := kind.fields.lookup number

/-- A declaration's identity with its option bytes. -/
abbrev Entry := ElementKey × List UInt8

/-- The entry of a declaration in a scope, if it has options, which stand under
`number`. -/
def entryOf (kind : ElementKind) (scope : String) (number : Nat) (fs : Fields) : List Entry :=
  match fs.bytes? number with
  | none => []
  | some [] => []
  | some bs => [(⟨kind, qualify scope ((fs.text? 1).getD "")⟩, bs)]

mutual

/-- The entries of a message in a scope: its own, those of its fields, groups
and enums, and those of the messages inside it. -/
def messageEntries (scope : String) : Value → List Entry
  | .record fs =>
    let fullName := qualify scope ((Fields.text? 1 fs).getD "")
    entryOf .message scope 7 fs ++
      (Fields.records 2 fs).flatMap (entryOf .field fullName 8) ++
      (Fields.records 8 fs).flatMap (entryOf .oneOf fullName 2) ++
      (Fields.records 4 fs).flatMap (entryOf .enum fullName 3) ++
      nestedEntries fullName 3 fs
  | .number _ => []
  | .text _ => []
  | .bytes _ => []

/-- The entries of the messages under a field number. -/
def nestedEntries (scope : String) (number : Nat) : List (Nat × Value) → List Entry
  | [] => []
  | (n, v) :: rest =>
    if n = number then messageEntries scope v ++ nestedEntries scope number rest
    else nestedEntries scope number rest

end

/-- The entries of a file, those of its enums first. -/
def fileEntries (fs : Fields) : List Entry :=
  let package := (fs.text? 2).getD ""
  (fs.records 5).flatMap (entryOf .enum package 3) ++ nestedEntries package 4 fs

end Outline

/-- Option bytes by the identity of the declaration that sets them. -/
structure EncodedOptions where
  entries : List (ElementKey × List UInt8) := []

namespace EncodedOptions

/-- Puts the bytes of a declaration in place. -/
def insert (o : EncodedOptions) (entry : ElementKey × List UInt8) : EncodedOptions :=
  ⟨assign entry.1 entry.2 o.entries⟩

/-- The bytes of a declaration. -/
def get? (o : EncodedOptions) (key : ElementKey) : Option (List UInt8) :=
  o.entries.lookup key

/-- The number of declarations with options. -/
def size (o : EncodedOptions) : Nat := o.entries.length

/-- Entries in order, later ones in place of earlier ones with their key. -/
def ofEntries (entries : List (ElementKey × List UInt8)) : EncodedOptions :=
  entries.foldl insert {}

/-- The option bytes of a serialized descriptor set. -/
def decode (bs : Wire.Bytes) : Except Wire.DecodeError EncodedOptions :=
  (Wire.decode Outline.grammar .set bs).map fun fs =>
    ofEntries ((Fields.records 1 fs).flatMap Outline.fileEntries)

end EncodedOptions

/-- The options message that custom options on an element of a kind extend. -/
def ElementKind.extendee : ElementKind → String
  | .message => "google.protobuf.MessageOptions"
  | .field => "google.protobuf.FieldOptions"
  | .oneOf => "google.protobuf.OneofOptions"
  | .enum => "google.protobuf.EnumOptions"

end SchemaGraph
