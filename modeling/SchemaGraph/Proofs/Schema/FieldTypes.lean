import SchemaGraph.Proofs.Schema.Site
import SchemaGraph.Proofs.Text.Segment

/-!
# The type of a field

What the declared type of a field says, stated on the declaration and on the set:

* `scalarTypes` is the table of the scalar types, and `FieldDecl.RefersTo` says which message
  or enum a reference means, with or without a dot in front;
* `FieldDecl.HasType` gives the native type of a field, the tag of one value in path types,
  and the kind of data of one value;
* `FieldSite.HasShape` gives the path type and the kind of data of the field itself, which
  may be a map or an array of such values.

The main results are `FieldDecl.hasType_iff` and `FieldSite.hasShape_iff`: every field has
exactly one of each, and those are the ones in its vertex.
-/

namespace SchemaGraph

/-! ## References -/

/-- A field refers to a full name if its declared type is the name, with a dot in front or
without. -/
def FieldDecl.RefersTo (f : FieldDecl) (name : String) : Prop :=
  f.typeName.getD "" = "." ++ name ∨ f.typeName.getD "" = name ∧ name.toList.head? ≠ some '.'

/-- A field that holds a message, or a group. -/
def FieldDecl.HoldsMessage (f : FieldDecl) : Prop := f.type = .message ∨ f.type = .group

instance (f : FieldDecl) (name : String) : Decidable (f.RefersTo name) :=
  inferInstanceAs (Decidable (_ ∨ _ ∧ _))

instance (f : FieldDecl) : Decidable f.HoldsMessage := inferInstanceAs (Decidable (_ ∨ _))

theorem FieldDecl.refersTo_iff {f : FieldDecl} {name : String} :
    f.RefersTo name ↔ f.reference = name := by
  rw [RefersTo, reference, nativeTypeName, Text.dropLeading_eq_iff, ← String.toList_inj,
    String.toList_append]
  rfl

theorem FieldDecl.holdsMessage_iff {f : FieldDecl} :
    f.HoldsMessage ↔ f.type.isMessage = true := by
  rw [HoldsMessage]
  cases f.type <;> decide

/-! ## Types -/

/-- The scalar types: the keyword in schema text, the tag in path types, and the kind of
data. -/
def scalarTypes : List (FieldType × String × String × DataType) :=
  [(.double, "double", "double", .number),
   (.float, "float", "float", .number),
   (.int64, "int64", "long", .number),
   (.uint64, "uint64", "long", .number),
   (.sint64, "sint64", "long", .number),
   (.fixed64, "fixed64", "long", .number),
   (.sfixed64, "sfixed64", "long", .number),
   (.int32, "int32", "int", .number),
   (.uint32, "uint32", "int", .number),
   (.sint32, "sint32", "int", .number),
   (.fixed32, "fixed32", "int", .number),
   (.sfixed32, "sfixed32", "int", .number),
   (.bool, "bool", "boolean", .boolean),
   (.string, "string", "string", .string),
   (.bytes, "bytes", "bytes", .bytes)]

/-- The tag of a message is its full name with underscores for the dots. -/
def IsMessageTag (fullName tag : String) : Prop :=
  tag.toList = fullName.toList.map fun c => if c = '.' then '_' else c

instance (fullName tag : String) : Decidable (IsMessageTag fullName tag) :=
  inferInstanceAs (Decidable (_ = _))

/-- The native type of a field, the tag of one value and the kind of data of one value. -/
inductive FieldDecl.HasType (f : FieldDecl) : String → String → DataType → Prop where
  | scalar {keyword tag : String} {dataType : DataType}
      (htype : (f.type, keyword, tag, dataType) ∈ scalarTypes) : f.HasType keyword tag dataType
  | enum {name : String} (htype : f.type = .enum) (hname : f.RefersTo name) :
      f.HasType name "enum" .enum
  | message {name tag : String} (htype : f.HoldsMessage) (hname : f.RefersTo name)
      (htag : IsMessageTag name tag) : f.HasType name tag .record

theorem isMessageTag_iff {fullName tag : String} :
    IsMessageTag fullName tag ↔ tag = messageTag fullName := by
  rw [IsMessageTag, ← String.toList_inj, messageTag, Text.replace, String.toList_map]

/-- A field has the type that its vertex says, and no other. -/
theorem FieldDecl.hasType_iff {f : FieldDecl} {nativeType tag : String} {dataType : DataType} :
    f.HasType nativeType tag dataType ↔
      nativeType = f.nativeType ∧ tag = f.tag ∧ dataType = f.type.dataType := by
  -- The type has to be a variable, for the rows of the table to decide it.
  obtain ⟨name, number, label, type, typeName, extendee, oneofIndex, jsonName, optional⟩ := f
  constructor
  · intro h
    cases h with
    | scalar htype =>
        simp only [scalarTypes, List.mem_cons, List.not_mem_nil, or_false, Prod.mk.injEq] at htype
        rcases htype with h | h | h | h | h | h | h | h | h | h | h | h | h | h | h <;>
          obtain ⟨rfl, rfl, rfl, rfl⟩ := h <;> exact ⟨rfl, rfl, rfl⟩
    | enum htype hname =>
        obtain rfl := htype
        exact ⟨(refersTo_iff.mp hname).symm, rfl, rfl⟩
    | message htype hname htag =>
        obtain rfl := refersTo_iff.mp hname
        obtain rfl := isMessageTag_iff.mp htag
        rcases htype with htype | htype
        · obtain rfl := htype
          exact ⟨rfl, rfl, rfl⟩
        · obtain rfl := htype
          exact ⟨rfl, rfl, rfl⟩
  · rintro ⟨rfl, rfl, rfl⟩
    cases type with
    | enum => exact .enum rfl (refersTo_iff.mpr rfl)
    | message => exact .message (Or.inl rfl) (refersTo_iff.mpr rfl) (isMessageTag_iff.mpr rfl)
    | group => exact .message (Or.inr rfl) (refersTo_iff.mpr rfl) (isMessageTag_iff.mpr rfl)
    | _ =>
        refine .scalar ?_
        simp [scalarTypes, nativeType, FieldType.isNamed, FieldType.keyword, tag,
          FieldType.dataType]

/-! ## Entries of maps -/

mutual

/-- The map entries inside a message are its flagged messages. -/
theorem mapEntries_eq (decl : MessageDecl) (file : FileDecl) (outer : List String)
    (path : List Int32) :
    decl.mapEntries (scopeName file outer) =
      ((decl.sites file outer path).filter fun m => m.decl.isMapEntry).map
        MessageSite.fullName := by
  match decl with
  | ⟨name, fields, nested, enums, extensions, oneofs, isMapEntry⟩ =>
    have hnested := nestedMapEntries_eq nested file (outer ++ [name]) path messageNested 0
    have hscope : scopeName file (outer ++ [name]) = qualify (scopeName file outer) name := by
      simp [scopeName]
    rw [hscope] at hnested
    rw [MessageDecl.mapEntries, MessageDecl.sites, hnested]
    cases isMapEntry with
    | true => rfl
    | false => rfl

/-- The map entries among several messages are the flagged ones. -/
theorem nestedMapEntries_eq (decls : List MessageDecl) (file : FileDecl) (outer : List String)
    (path : List Int32) (list : Int32) (position : Nat) :
    nestedMapEntries (scopeName file outer) decls =
      ((nestedSites file outer path list position decls).filter fun m => m.decl.isMapEntry).map
        MessageSite.fullName := by
  match decls with
  | [] => rfl
  | decl :: rest =>
    rw [nestedMapEntries, nestedSites, List.filter_append, List.map_append,
      mapEntries_eq decl file outer (childPath path list position),
      nestedMapEntries_eq rest file outer path list (position + 1)]

end

theorem FileSet.mem_mapEntries_iff {set : FileSet} {name : String} :
    name ∈ set.mapEntries ↔
      ∃ m ∈ set.messageSites, m.decl.isMapEntry = true ∧ m.fullName = name := by
  have hfile (file : FileDecl) : nestedMapEntries file.package file.messages =
      (file.messageSites.filter fun m => m.decl.isMapEntry).map MessageSite.fullName :=
    nestedMapEntries_eq file.messages file [] [] fileMessages 0
  simp only [mapEntries, hfile, messageSites, List.mem_flatMap, List.mem_map, List.mem_filter]
  constructor
  · rintro ⟨file, hfile, m, ⟨hm, hentry⟩, hname⟩
    exact ⟨m, ⟨file, hfile, hm⟩, hentry, hname⟩
  · rintro ⟨m, ⟨file, hfile, hm⟩, hentry, hname⟩
    exact ⟨file, hfile, m, ⟨hm, hentry⟩, hname⟩

/-! ## Shapes -/

/-- A field is a map: repeated, and typed as a message that is flagged as an entry, wherever
in the set. -/
def FieldSite.IsMap (set : FileSet) (f : FieldSite) : Prop :=
  f.decl.label = .repeated ∧ f.decl.HoldsMessage ∧
    ∃ m ∈ set.messageSites, m.decl.isMapEntry = true ∧ f.decl.RefersTo m.fullName

/-- The path type and the kind of data of a field: a map, an array if it is repeated, else
one value of its type. -/
inductive FieldSite.HasShape (set : FileSet) (f : FieldSite) : String → DataType → Prop where
  | map {nativeType tag : String} {dataType : DataType} (hmap : f.IsMap set)
      (htype : f.decl.HasType nativeType tag dataType) :
      f.HasShape set ("[type=map].[type=" ++ tag ++ "]") .map
  | array {nativeType tag : String} {dataType : DataType} (hlabel : f.decl.label = .repeated)
      (hmap : ¬ f.IsMap set) (htype : f.decl.HasType nativeType tag dataType) :
      f.HasShape set ("[type=array].[type=" ++ tag ++ "]") .array
  | single {nativeType tag : String} {dataType : DataType} (hlabel : f.decl.label ≠ .repeated)
      (htype : f.decl.HasType nativeType tag dataType) :
      f.HasShape set ("[type=" ++ tag ++ "]") dataType

theorem FieldSite.isMap_iff {set : FileSet} {f : FieldSite} :
    f.IsMap set ↔ f.decl.isMap set.mapEntries = true := by
  rw [FieldDecl.isMap, IsMap, Bool.and_eq_true, Bool.and_eq_true, beq_iff_eq, and_assoc,
    List.contains_iff_mem, FileSet.mem_mapEntries_iff, FieldDecl.holdsMessage_iff]
  refine and_congr_right fun _ => and_congr_right fun hmessage => ?_
  rw [FieldDecl.nativeType_of_isMessage hmessage]
  refine exists_congr fun m => and_congr_right fun _ => and_congr_right fun _ => ?_
  rw [FieldDecl.refersTo_iff, eq_comm]

/-- The path type of several values: a tag for them, and the tag of one value. -/
theorem mapTag_eq (tag : String) :
    typeTag "map" ++ "." ++ typeTag tag = "[type=map].[type=" ++ tag ++ "]" := by
  apply String.toList_injective
  simp [typeTag, String.toList_append]

theorem arrayTag_eq (tag : String) :
    typeTag "array" ++ "." ++ typeTag tag = "[type=array].[type=" ++ tag ++ "]" := by
  apply String.toList_injective
  simp [typeTag, String.toList_append]

/-- A field has the shape that its vertex says, and no other. -/
theorem FieldSite.hasShape_iff {set : FileSet} {f : FieldSite} {pathType : String}
    {dataType : DataType} :
    f.HasShape set pathType dataType ↔
      pathType = (f.decl.shape set.mapEntries).1 ∧ dataType = (f.decl.shape set.mapEntries).2 := by
  have htype : f.decl.HasType f.decl.nativeType f.decl.tag f.decl.type.dataType :=
    FieldDecl.hasType_iff.mpr ⟨rfl, rfl, rfl⟩
  rw [FieldDecl.shape]
  constructor
  · intro h
    cases h with
    | map hmap htype =>
        obtain ⟨-, rfl, -⟩ := FieldDecl.hasType_iff.mp htype
        rw [if_pos (isMap_iff.mp hmap)]
        exact ⟨(mapTag_eq _).symm, rfl⟩
    | array hlabel hmap htype =>
        obtain ⟨-, rfl, -⟩ := FieldDecl.hasType_iff.mp htype
        rw [if_neg (mt isMap_iff.mpr hmap), if_pos hlabel]
        exact ⟨(arrayTag_eq _).symm, rfl⟩
    | single hlabel htype =>
        obtain ⟨-, rfl, rfl⟩ := FieldDecl.hasType_iff.mp htype
        rw [if_neg fun hmap => hlabel (isMap_iff.mpr hmap).1, if_neg hlabel]
        exact ⟨rfl, rfl⟩
  · rintro ⟨rfl, rfl⟩
    by_cases hmap : f.IsMap set
    · rw [if_pos (isMap_iff.mp hmap), mapTag_eq]
      exact .map hmap htype
    · rw [if_neg (mt isMap_iff.mpr hmap)]
      by_cases hlabel : f.decl.label = .repeated
      · rw [if_pos hlabel, arrayTag_eq]
        exact .array hlabel hmap htype
      · rw [if_neg hlabel]
        exact .single hlabel htype

end SchemaGraph
