import SchemaGraph.Proofs.SchemaFields
import SchemaGraph.Proofs.Identity

/-!
# Roots that are detected and roots that are named

The main result, `ofSet_of_fullName`: a graph that was built is built again, with the same
numbers, the same edges and the same root, when its root is asked for by its full name.
So it makes no difference whether a root is detected in a file or named outright, in a
graph of decoded declarations as in one of bytes.

* A selected root is a message of the store, and the index leads from its name back to its
  number, because every store that is built is valid (`finish_of_fullName`).

Nothing is assumed of the set: its declarations may share names and stand in each other's
place.  Which message is detected is not said here.
-/

namespace SchemaGraph

namespace RootedGraph

variable {set : FileSet} {options : GraphOptions} {g : Store} {r : RootedGraph}

/-- The root of a graph is one of its messages, and leads to the same graph when it is
named. -/
structure IsBuiltAgain (r : RootedGraph) (again : Except BuildError RootedGraph) : Prop where
  graph : again = .ok r
  message : r.root.kind = .message
  root : r.store.element? r.rootId = some r.root

/-- The root of a valid store is selected again by its full name. -/
theorem finish_of_fullName (h : g.Valid) (hfinish : finish set options g = .ok r) :
    r.IsBuiltAgain (finish set { options with messageName := some r.fullName } g) := by
  rw [finish] at hfinish
  split at hfinish
  · cases hfinish
  · next id hselect =>
    split at hfinish
    · cases hfinish
    · next root hroot =>
      obtain rfl := Except.ok.inj hfinish
      have hmem := h.element?_eq_some_iff.mp hroot
      have hkind := (kind_of_selectRoot h hselect hmem).1
      have hkey : root.key = .message root.fullName := congrArg (ElementKey.mk · _) hkind
      have hfind : g.find? (.message root.fullName) = some id :=
        h.find?_eq_some_iff.mpr ⟨root, hmem, hkey⟩
      refine ⟨?_, hkind, hroot⟩
      have hagain : set.selectRoot { options with messageName := some root.fullName } g =
          .ok id := by
        show g.findMessage root.fullName = .ok id
        rw [Store.findMessage, hfind]
      show finish set { options with messageName := some root.fullName } g = _
      rw [finish, hagain]
      simp only [hroot]

theorem build_of_fullName (h : g.Valid) (hbuild : build set options g = .ok r) :
    r.IsBuiltAgain (build set { options with messageName := some r.fullName } g) := by
  rw [build] at hbuild ⊢
  refine finish_of_fullName ?_ hbuild
  split
  · exact (h.applied _).valid
  · exact h

/-- Whatever options are attached, the graph of a set is valid. -/
theorem valid_of_attach {registry : Registry} {encoded : List (ElementKey × List UInt8)} {n : Nat}
    (hattach : Draft.attach registry encoded (Draft.ofSet set).store = .ok (g, n)) : g.Valid := by
  refine Store.Valid.of_withoutOptions ?_
  rw [Draft.withoutOptions_attach hattach, Draft.withoutOptions_ofSet]
  exact (Store.traced_ofSet set).valid

/-- A graph that was built, from decoded declarations or from bytes, is built again when
its root is named. -/
theorem ofSet_of_fullName (options : GraphOptions) :
    (∀ set r, ofSet set options = .ok r →
      r.IsBuiltAgain (ofSet set { options with messageName := some r.fullName })) ∧
    ∀ bs r, ofBytes bs options = .ok r →
      r.IsBuiltAgain (ofBytes bs { options with messageName := some r.fullName }) := by
  refine ⟨fun set r hbuild => build_of_fullName (Store.traced_ofSet set).valid hbuild, ?_⟩
  intro bs r hbytes
  obtain ⟨set, encoded, g, n, hset, hencoded, hattach, hbuild⟩ := ofBytes_eq_ok_iff.mp hbytes
  obtain ⟨hagain, hmessage, hroot⟩ := build_of_fullName (valid_of_attach hattach) hbuild
  exact ⟨ofBytes_eq_ok_iff.mpr ⟨set, encoded, g, n, hset, hencoded, hattach, hagain⟩, hmessage,
    hroot⟩

/-- The only message of the last file is detected, and found again by its name. -/
theorem ofSet_of_fullName_optionBytes :
    ∃ set r r', FileSet.decode optionBytes = .ok set ∧
      ofSet set { filename := some "dir/m" } = .ok r ∧ r.fullName = "m.A" ∧
      r.IsBuiltAgain (ofSet set { messageName := some "m.A", filename := some "dir/m" }) ∧
      ofBytes optionBytes {} = .ok r' ∧ r'.fullName = "m.A" ∧
      r'.IsBuiltAgain (ofBytes optionBytes { messageName := some "m.A" }) := by
  have hset : (FileSet.decode optionBytes).map (fun set =>
      (ofSet set { filename := some "dir/m" }).toOption.map fullName) = .ok (some "m.A") := by
    decide +kernel
  have hbytes : (ofBytes optionBytes {}).map fullName = .ok "m.A" := by decide +kernel
  obtain ⟨set, hdecode, hroot⟩ := exists_of_map_ok hset
  obtain ⟨r, hr, hname⟩ := Option.map_eq_some_iff.mp hroot
  obtain ⟨r', hr', hname'⟩ := exists_of_map_ok hbytes
  have hbuilt : ofSet set { filename := some "dir/m" } = .ok r := by
    cases h : ofSet set { filename := some "dir/m" } with
    | error e =>
        rw [h] at hr
        cases hr
    | ok found =>
        rw [h] at hr
        exact congrArg Except.ok (Option.some.inj hr)
  have hagain := (ofSet_of_fullName { filename := some "dir/m" }).1 set r hbuilt
  have hagain' := (ofSet_of_fullName {}).2 optionBytes r' hr'
  rw [hname] at hagain
  rw [hname'] at hagain'
  exact ⟨set, r, r', hdecode, hbuilt, hname, hagain, hr', hname', hagain'⟩

end RootedGraph

end SchemaGraph
