import SchemaGraph.Descriptor.Basic

/-!
# The extensions a descriptor set declares

Extensions are found by what they extend and their number, and by their full
name.  A later declaration replaces an earlier one with the same key.  A name
leads to a key and the key to an extension, so a name whose key has been taken
over by another declaration leads to that one.
-/

namespace SchemaGraph

/-- A custom option declared as an extension. -/
structure Extension where
  fullName : String
  extendee : String
  number : Int32
  typeName : String
  valueType : FieldType
  file : String
  deriving DecidableEq, Repr

/-- What an extension is found by. -/
abbrev ExtensionKey := String × Int32

/-- The key of an extension. -/
def Extension.key (e : Extension) : ExtensionKey := (e.extendee, e.number)

/-- Puts a value under a key of an association list, in place of the value
that is there. -/
def assign {κ α : Type} [DecidableEq κ] (key : κ) (value : α) : List (κ × α) → List (κ × α)
  | [] => [(key, value)]
  | (k, v) :: rest =>
    if k = key then (key, value) :: rest else (k, v) :: assign key value rest

theorem lookup_assign {κ α : Type} [DecidableEq κ] [BEq κ] [LawfulBEq κ] (key k : κ) (value : α)
    (entries : List (κ × α)) :
    (assign key value entries).lookup k = if k = key then some value else entries.lookup k := by
  induction entries with
  | nil =>
      by_cases h : k = key
      · simp [assign, h]
      · simp [assign, h, List.lookup_cons, beq_false_of_ne h]
  | cons entry rest ih =>
      obtain ⟨k', v⟩ := entry
      unfold assign
      by_cases hk' : k' = key
      · subst hk'
        by_cases h : k = k'
        · simp [h]
        · simp [h, List.lookup_cons, beq_false_of_ne h]
      · by_cases h : k = k'
        · subst h
          simp [hk']
        · simp [hk', List.lookup_cons, beq_false_of_ne h, ih]

theorem mem_keys_assign {κ α : Type} [DecidableEq κ] {key k : κ} {value : α}
    {entries : List (κ × α)} (h : k ∈ (assign key value entries).map Prod.fst) :
    k = key ∨ k ∈ entries.map Prod.fst := by
  induction entries with
  | nil => exact Or.inl (List.mem_singleton.mp h)
  | cons entry rest ih =>
      obtain ⟨k', v⟩ := entry
      rw [assign] at h
      split at h
      · rcases List.mem_cons.mp h with rfl | h
        · exact Or.inl rfl
        · exact Or.inr (List.mem_cons_of_mem _ h)
      · rcases List.mem_cons.mp h with rfl | h
        · exact Or.inr List.mem_cons_self
        · exact (ih h).imp_right (List.mem_cons_of_mem _)

/-- No key is there twice. -/
theorem nodup_keys_assign {κ α : Type} [DecidableEq κ] (key : κ) (value : α)
    {entries : List (κ × α)} (h : (entries.map Prod.fst).Nodup) :
    ((assign key value entries).map Prod.fst).Nodup := by
  induction entries with
  | nil => exact List.nodup_cons.mpr ⟨List.not_mem_nil, List.nodup_nil⟩
  | cons entry rest ih =>
      obtain ⟨k, v⟩ := entry
      obtain ⟨hnot, hrest⟩ := List.nodup_cons.mp h
      rw [assign]
      split
      · next heq =>
        subst heq
        exact h
      · next hne =>
        refine List.nodup_cons.mpr ⟨fun hmem => ?_, ih hrest⟩
        exact (mem_keys_assign hmem).elim hne hnot

/-- Extensions by key, and keys by full name. -/
structure Registry where
  byNumber : List (ExtensionKey × Extension) := []
  byName : List (String × ExtensionKey) := []

namespace Registry

/-- Adds an extension. -/
def insert (r : Registry) (e : Extension) : Registry where
  byNumber := assign e.key e r.byNumber
  byName := assign e.fullName e.key r.byName

/-- The extension of a message type under a field number. -/
def findByNumber (r : Registry) (extendee : String) (number : Int32) : Option Extension :=
  r.byNumber.lookup (extendee, number)

/-- The extension with a full name. -/
def findByName (r : Registry) (fullName : String) : Option Extension :=
  (r.byName.lookup fullName).bind fun key => r.byNumber.lookup key

/-- All extensions of a message type. -/
def extensionsOf (r : Registry) (extendee : String) : List Extension :=
  (r.byNumber.map (·.2)).filter fun e => e.extendee == extendee

/-- The number of extensions. -/
def size (r : Registry) : Nat := r.byNumber.length

end Registry

/-- The extension that a field of an `extend` block in a scope declares. -/
def FieldDecl.extension (f : FieldDecl) (file scope : String) : Extension where
  fullName := qualify scope f.name
  extendee := nativeTypeName f.extendee
  number := f.number
  typeName :=
    match f.typeName with
    | some name => nativeTypeName name
    | none => f.type.keyword
  valueType := f.type
  file := file

mutual

/-- The extensions declared in a message of a scope and in the messages inside
it. -/
def MessageDecl.allExtensions (file scope : String) : MessageDecl → List Extension
  | ⟨name, _, nested, _, extensions, _, _⟩ =>
    extensions.map (·.extension file (qualify scope name)) ++
      nestedExtensions file (qualify scope name) nested

/-- The extensions declared in several messages of a scope. -/
def nestedExtensions (file scope : String) : List MessageDecl → List Extension
  | [] => []
  | m :: rest => m.allExtensions file scope ++ nestedExtensions file scope rest

end

/-- The extensions declared in a file, those of the file itself first. -/
def FileDecl.allExtensions (file : FileDecl) : List Extension :=
  file.extensions.map (·.extension file.name file.package) ++
    nestedExtensions file.name file.package file.messages

/-- The extensions declared in a descriptor set, in order. -/
def FileSet.allExtensions (set : FileSet) : List Extension :=
  set.files.flatMap FileDecl.allExtensions

/-- The registry of a descriptor set. -/
def Registry.ofSet (set : FileSet) : Registry :=
  set.allExtensions.foldl Registry.insert {}

end SchemaGraph
