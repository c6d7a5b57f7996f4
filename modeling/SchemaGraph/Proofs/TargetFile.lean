import SchemaGraph.Proofs.Detected
import SchemaGraph.Proofs.Unused

/-!
# Which file is searched for a root

The file that is searched is the first one of the set whose name is a suffix of a path.
A path may be the name of a file of the set itself, and that file is then searched
unless one that is listed before it has a name that is a suffix of its name
(`FileSet.Shadows`), as `order.proto` is of `acme/order.proto`.

The main result, `targetFile_named`: such a file before it is all that keeps the named
file from being found, and where there is none, the root of every graph that is built is
detected among the messages of files with the name.

The file that is found may be another one of the same name, since names are not assumed
to be different.
-/

namespace SchemaGraph

theorem Text.endsWith_self (text : String) : endsWith text text = true := by
  unfold endsWith
  rw [List.isSuffixOf_iff_suffix]

namespace FileSet

/-- A file listed before the first one of a name is found for the name in its place. -/
def Shadows (set : FileSet) (name : String) : Prop :=
  ∃ other ∈ set.files.takeWhile fun file => file.name != name,
    other.name ≠ "" ∧ Text.endsWith name other.name = true

instance (set : FileSet) (name : String) : Decidable (set.Shadows name) :=
  inferInstanceAs (Decidable (∃ other ∈ set.files.takeWhile fun file => file.name != name,
    other.name ≠ "" ∧ Text.endsWith name other.name = true))

variable {set : FileSet} {name : String}

/-- The files before the first one of a name, and that one. -/
theorem exists_files_eq (hnamed : ∃ file ∈ set.files, file.name = name) :
    ∃ file after, file.name = name ∧
      set.files = (set.files.takeWhile fun file => file.name != name) ++ file :: after := by
  obtain ⟨file, hfile, hname⟩ := hnamed
  have hsplit := List.takeWhile_append_dropWhile (p := fun file : FileDecl => file.name != name)
    (l := set.files)
  cases hrest : set.files.dropWhile fun file => file.name != name with
  | nil =>
      rw [List.dropWhile_eq_nil_iff] at hrest
      have hother := hrest file hfile
      simp [hname] at hother
  | cons first after =>
      refine ⟨first, after, ?_, ?_⟩
      · have hstop := List.head?_dropWhile_not (fun file : FileDecl => file.name != name) set.files
        rw [hrest] at hstop
        simpa using hstop
      · rw [← hrest, hsplit]

theorem targetFile_of_find? {file : FileDecl}
    (hfound : (set.files.find? fun file =>
      file.name != "" && Text.endsWith name file.name) = some file) :
    set.targetFile (some name) = .ok file := by
  unfold targetFile
  rw [Option.bind_some, hfound]

/-- The file that is found is the first one of the name, or one listed before it. -/
theorem targetFile_cases (hname : name ≠ "") (hnamed : ∃ file ∈ set.files, file.name = name) :
    ∃ file ∈ set.files, set.targetFile (some name) = .ok file ∧
      (¬ set.Shadows name ∧ file.name = name ∨ set.Shadows name ∧ file.name ≠ name) := by
  obtain ⟨named, after, hfirst, hfiles⟩ := exists_files_eq hnamed
  cases hbefore : (set.files.takeWhile fun file => file.name != name).find? fun file =>
      file.name != "" && Text.endsWith name file.name with
  | some other =>
      -- A file before the named one is found in its place.
      have hmem := List.mem_of_find?_eq_some hbefore
      have hmatches := List.find?_some hbefore
      rw [Bool.and_eq_true, bne_iff_ne] at hmatches
      have hdiffers : (other.name != name) = true :=
        List.mem_takeWhile_imp (p := fun file : FileDecl => file.name != name) hmem
      have hfound : (set.files.find? fun file =>
          file.name != "" && Text.endsWith name file.name) = some other := by
        rw [hfiles, List.find?_append, hbefore, Option.some_or]
      exact ⟨other, List.mem_of_find?_eq_some hfound, targetFile_of_find? hfound,
        Or.inr ⟨⟨other, hmem, hmatches⟩, bne_iff_ne.mp hdiffers⟩⟩
  | none =>
      have hmatches : (named.name != "" && Text.endsWith name named.name) = true := by
        rw [Bool.and_eq_true, bne_iff_ne, hfirst]
        exact ⟨hname, Text.endsWith_self name⟩
      have hfound : (set.files.find? fun file =>
          file.name != "" && Text.endsWith name file.name) = some named := by
        rw [hfiles, List.find?_append, hbefore, Option.none_or]
        exact List.find?_cons_of_pos hmatches
      refine ⟨named, List.mem_of_find?_eq_some hfound, targetFile_of_find? hfound,
        Or.inl ⟨?_, hfirst⟩⟩
      rintro ⟨other, hmem, hother⟩
      apply List.find?_eq_none.mp hbefore other hmem
      rw [Bool.and_eq_true, bne_iff_ne]
      exact hother

end FileSet

namespace RootedGraph

variable {set : FileSet} {options : GraphOptions} {g : Store} {r : RootedGraph} {name : String}

/-- A named file that is not shadowed is searched. -/
theorem selectRoot_of_named (hname : name ≠ "") (hnamed : ∃ file ∈ set.files, file.name = name)
    (hshadows : ¬ set.Shadows name) (hmessage : options.messageName = none)
    (hfilename : options.filename = some name) (g : Store) :
    set.selectRoot options g = g.detectRoot name := by
  obtain ⟨file, -, htarget, ⟨-, hsame⟩ | ⟨hshadowed, -⟩⟩ := FileSet.targetFile_cases hname hnamed
  · unfold FileSet.selectRoot
    rw [hmessage, hfilename, htarget, ← hsame]
  · exact absurd hshadowed hshadows

/-- The root is a message that a file of a name declares outside other messages. -/
structure IsRootedIn (r : RootedGraph) (name : String) : Prop where
  kind : r.root.kind = .message
  parent : r.root.parent = none
  file : r.root.file = name

theorem isRootedIn_of_build (h : g.Valid) (hname : name ≠ "")
    (hnamed : ∃ file ∈ set.files, file.name = name) (hshadows : ¬ set.Shadows name)
    (hmessage : options.messageName = none) (hfilename : options.filename = some name)
    (hbuild : build set options g = .ok r) : r.IsRootedIn name := by
  obtain ⟨hstore, hselect, helement⟩ := of_build hbuild
  have hvalid : r.store.Valid := by
    rw [hstore]
    split
    · exact (h.applied _).valid
    · exact h
  rw [selectRoot_of_named hname hnamed hshadows hmessage hfilename] at hselect
  obtain ⟨hkind, hparent, hfile⟩ :=
    hvalid.root_of_detectRoot hselect (hvalid.element?_eq_some_iff.mp helement)
  exact ⟨hkind, hparent, hfile⟩

end RootedGraph

/-- The file that is searched for the name of a file of the set has this name just when
no file before it is found in its place.  Then the root is detected in it: detection
looks at the messages of this name only, and so is the root of a graph that is built. -/
theorem targetFile_named {set : FileSet} {name : String} (hname : name ≠ "")
    (hnamed : ∃ file ∈ set.files, file.name = name) :
    ((∃ file ∈ set.files, set.targetFile (some name) = .ok file ∧ file.name = name) ↔
      ¬ set.Shadows name) ∧
    (¬ set.Shadows name → ∀ options : GraphOptions, options.messageName = none →
      options.filename = some name →
        (∀ g : Store, set.selectRoot options g = g.detectRoot name) ∧
        (∀ r, RootedGraph.ofSet set options = .ok r → r.IsRootedIn name) ∧
        ∀ bs r, FileSet.decode bs = .ok set → RootedGraph.ofBytes bs options = .ok r →
          r.IsRootedIn name) := by
  constructor
  · obtain ⟨found, hfound, htarget, hcases⟩ := FileSet.targetFile_cases hname hnamed
    constructor
    · rintro ⟨file, -, hfile, hsame⟩ hshadows
      obtain rfl := Except.ok.inj (htarget.symm.trans hfile)
      rcases hcases with ⟨hnot, -⟩ | ⟨-, hdiffers⟩
      · exact hnot hshadows
      · exact hdiffers hsame
    · intro hnot
      rcases hcases with ⟨-, hsame⟩ | ⟨hshadows, -⟩
      · exact ⟨found, hfound, htarget, hsame⟩
      · exact absurd hshadows hnot
  · intro hshadows options hmessage hfilename
    refine ⟨?_, ?_, ?_⟩
    · exact RootedGraph.selectRoot_of_named hname hnamed hshadows hmessage hfilename
    · intro r hbuild
      exact RootedGraph.isRootedIn_of_build (Store.traced_ofSet set).valid hname hnamed hshadows
        hmessage hfilename hbuild
    · intro bs r hdecode hbytes
      obtain ⟨set', encoded, g, n, hset, -, hattach, hbuild⟩ :=
        RootedGraph.ofBytes_eq_ok_iff.mp hbytes
      obtain rfl := Except.ok.inj (hdecode.symm.trans hset)
      exact RootedGraph.isRootedIn_of_build (RootedGraph.valid_of_attach hattach) hname hnamed
        hshadows hmessage hfilename hbuild

/-- Two files with a message each, the second one in a directory. -/
def cartSet (first : String) : FileSet where
  files :=
    [{ name := first
       package := "base"
       messages :=
         [{ name := "Cart", fields := [{ name := "id", number := 1, type := .string }]
            nested := [], enums := [], extensions := [], oneofs := [], isMapEntry := false }] },
     { name := "acme/order.proto"
       package := "acme"
       messages :=
         [{ name := "Order", fields := [{ name := "total", number := 1, type := .int64 }]
            nested := [], enums := [], extensions := [], oneofs := [], isMapEntry := false }] }]

/-- A file whose name is no suffix does not get in the way. -/
theorem targetFile_named_cartSet :
    "acme/order.proto" ≠ "" ∧
      (∃ file ∈ (cartSet "cart.proto").files, file.name = "acme/order.proto") ∧
      ¬ (cartSet "cart.proto").Shadows "acme/order.proto" ∧
      ∃ r, RootedGraph.ofSet (cartSet "cart.proto") { filename := some "acme/order.proto" } =
          .ok r ∧ r.fullName = "acme.Order" ∧ r.IsRootedIn "acme/order.proto" := by
  have hname : "acme/order.proto" ≠ "" := by decide
  have hnamed : ∃ file ∈ (cartSet "cart.proto").files, file.name = "acme/order.proto" := by
    decide +kernel
  have hshadows : ¬ (cartSet "cart.proto").Shadows "acme/order.proto" := by decide +kernel
  have hroot : (RootedGraph.ofSet (cartSet "cart.proto")
      { filename := some "acme/order.proto" }).map RootedGraph.fullName = .ok "acme.Order" := by
    decide +kernel
  obtain ⟨r, hr, hfullName⟩ := exists_of_map_ok hroot
  obtain ⟨-, hrooted, -⟩ :=
    (targetFile_named hname hnamed).2 hshadows { filename := some "acme/order.proto" } rfl rfl
  exact ⟨hname, hnamed, hshadows, r, hr, hfullName, hrooted r hr⟩

/-- A file outside the directory is found in place of the one that is named, and the root
is detected in the wrong file. -/
theorem targetFile_shadowed :
    "acme/order.proto" ≠ "" ∧
      (∃ file ∈ (cartSet "order.proto").files, file.name = "acme/order.proto") ∧
      (cartSet "order.proto").Shadows "acme/order.proto" ∧
      ((cartSet "order.proto").targetFile (some "acme/order.proto")).map FileDecl.name =
        .ok "order.proto" ∧
      (RootedGraph.ofSet (cartSet "order.proto")
        { filename := some "acme/order.proto" }).map RootedGraph.fullName = .ok "base.Cart" := by
  refine ⟨by decide, by decide +kernel, by decide +kernel, by decide +kernel, by decide +kernel⟩

end SchemaGraph
