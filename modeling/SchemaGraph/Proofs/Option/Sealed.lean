import SchemaGraph.Descriptor.Reader
import SchemaGraph.Graph.Element
import SchemaGraph.Proofs.Wire.Narrow

/-!
# What a descriptor set says of options

The fields of a descriptor set with every options message left as bytes (`Sealed.grammar`).
Whatever is read as a descriptor set is read in this way too, and nothing else is lost
(`Sealed.exists_decode`).

From these fields it is said, without a word on how options are collected, which
declarations there are and which bytes each of them gives for its options
(`Sealed.Declares`).  Fields are named as in the grammar of descriptor sets, so that no
number is repeated here.
-/

namespace SchemaGraph

open Wire

/-- The number of a field of a message type. -/
def Descriptor.Kind.numberOf (type : Kind) (field : String) : Nat :=
  ((type.fields.find? fun entry => entry.2.1 = field).map Prod.fst).getD 0

namespace Sealed

open Descriptor (Kind)

/-- The types of options messages. -/
def isOptions : Kind → Bool
  | .fileOptions | .messageOptions | .fieldOptions | .oneofOptions | .enumOptions
  | .enumValueOptions | .serviceOptions | .methodOptions | .extensionRangeOptions => true
  | _ => false

/-- An options message is read as bytes, everything else as it is. -/
def sealOptions : Slot Kind → Slot Kind
  | .record type => if isOptions type then .bytes else .record type
  | slot => slot

/-- The grammar of a descriptor set with options left as bytes. -/
def grammar : Grammar Kind where
  name := Kind.name
  slot type number :=
    (Descriptor.grammar.slot type number).map fun (field, slot) => (field, sealOptions slot)

theorem narrows_sealOptions (slot : Slot Kind) : (sealOptions slot).Narrows id slot := by
  cases slot with
  | varint => exact .varint
  | varints => exact .varints
  | fixed64 => exact .fixed64
  | text => exact .text
  | bytes => exact .bytes
  | record type =>
      rw [sealOptions]
      split
      · exact .unread type
      · exact .record type

/-- Sealing options hides no field, so that nothing is skipped. -/
def narrowing : Narrowing Kind Kind where
  full := Descriptor.grammar
  part := grammar
  whole := id
  floor := fun _ => 0
  known := by
    intro type number name slot' h
    obtain ⟨⟨field, slot⟩, hfull, heq⟩ := Option.map_eq_some_iff.mp h
    cases heq
    exact ⟨_, _, hfull, narrows_sealOptions slot⟩
  floor_le := fun _ => Nat.zero_le _
  packed := fun _ h hnone =>
    Option.some_ne_none _ (h.symm.trans (Option.map_eq_none_iff.mp hnone))

theorem not_hides (type : Kind) (number : Nat) : ¬ narrowing.Hides type number := by
  rintro ⟨hfull, hnone⟩
  have hslot : Descriptor.grammar.slot type number = none := Option.map_eq_none_iff.mp hnone
  exact Option.isSome_iff_ne_none.mp hfull hslot

/-- What is a descriptor set can be read with options left as bytes. -/
theorem exists_decode {bs : Bytes} {fs : Fields} {type : Kind}
    (h : Wire.decode Descriptor.grammar type bs = .ok fs) :
    ∃ kept, Wire.decode grammar type bs = .ok kept ∧ narrowing.Keeps type fs kept := by
  have hfloor : narrowing.floor type ≤ maxDepth := Nat.zero_le _
  rcases narrowing.decode_of_full hfloor h with
    ⟨-, kept, hkept, hkeeps⟩ | ⟨hnot, -⟩
  · exact ⟨kept, hkept, hkeeps⟩
  · exact absurd (Narrowing.fits_of_all_known not_hides _ _ _) hnot

/-! ## Declarations -/

/-- The submessages under a field. -/
def parts (type : Kind) (field : String) (fs : Fields) : List Fields :=
  fs.records (type.numberOf field)

/-- The name of a declaration. -/
def nameOf (type : Kind) (fs : Fields) : String := (fs.text? (type.numberOf "name")).getD ""

/-- The options that a declaration gives last. -/
def optionsOf (type : Kind) (fs : Fields) : Option Bytes := fs.bytes? (type.numberOf "options")

/-- The package of a file. -/
def packageOf (file : Fields) : String := (file.text? (Kind.file.numberOf "package")).getD ""

/-- A message of a set and the full name of what it lies in. -/
inductive MessageIn (set : Fields) : (scope : String) → Fields → Prop where
  | ofFile {file m : Fields} (hfile : file ∈ parts .fileSet "file" set)
      (hm : m ∈ parts .file "message_type" file) : MessageIn set (packageOf file) m
  | inside {scope : String} {m n : Fields} (hm : MessageIn set scope m)
      (hn : n ∈ parts .message "nested_type" m) :
      MessageIn set (qualify scope (nameOf .message m)) n

/-- What a message declares besides messages: the kind of element, the field that lists it
and the message type that describes it. -/
def messageParts : List (ElementKind × String × Kind) :=
  [(.field, "field", .field), (.oneOf, "oneof_decl", .oneof), (.enum, "enum_type", .enum)]

/-- An identity that a set declares, and the options given with it.  Extensions and the
values of enums have no identity. -/
inductive Declares (set : Fields) : ElementKey → Option Bytes → Prop where
  | message {scope : String} {m : Fields} (hm : MessageIn set scope m) :
      Declares set ⟨.message, qualify scope (nameOf .message m)⟩ (optionsOf .message m)
  | part {scope : String} {m p : Fields} {kind : ElementKind} {field : String} {type : Kind}
      (hm : MessageIn set scope m) (hpart : (kind, field, type) ∈ messageParts)
      (hp : p ∈ parts .message field m) :
      Declares set ⟨kind, qualify (qualify scope (nameOf .message m)) (nameOf type p)⟩
        (optionsOf type p)
  | enum {file e : Fields} (hfile : file ∈ parts .fileSet "file" set)
      (he : e ∈ parts .file "enum_type" file) :
      Declares set ⟨.enum, qualify (packageOf file) (nameOf .enum e)⟩ (optionsOf .enum e)

end Sealed

end SchemaGraph
