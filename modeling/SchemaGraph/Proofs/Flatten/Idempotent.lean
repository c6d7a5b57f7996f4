import SchemaGraph.Proofs.Flatten.Leftover

/-!
# Flattening twice

A second flattening finds something to do only if the first one left something of the
wrappers file, for every request goes back to a wrapper message or to something else
that the file declares.

* `Store.planFlattening_eq_empty_iff` says when there is nothing to do;
* `Store.Valid.planFlattening_flatten_iff` says of every valid store when there is
  nothing to do after flattening it;
* `Store.reachable_flatten_flatten` is about the stores whose fields of the wrappers file
  do not lead to fields, and `FileSet.HasShallowWrappers.flatten_flatten` about the sets
  whose graphs are such stores.
-/

namespace SchemaGraph

namespace Store

variable {g : Store}

/-- There is nothing to flatten if and only if nothing is declared in the wrappers file. -/
theorem planFlattening_eq_empty_iff :
    g.planFlattening = {} ↔ ∀ entry ∈ g.elements, isWrapped entry.2 = false := by
  constructor
  · rintro hempty ⟨id, e⟩ hmem
    by_contra hwrapped
    rw [Bool.not_eq_false] at hwrapped
    have hremoved := mem_removedElements_of_isWrapped hmem hwrapped
    rw [hempty] at hremoved
    cases hremoved
  · intro hnone
    have hremovals : (g.elements.filter fun entry => isWrapped entry.2) = [] :=
      List.filter_eq_nil_iff.mpr fun entry hentry => by simp [hnone entry hentry]
    have hwrappers : g.wrappers = [] := by
      have hfilter : (g.elements.filter fun entry =>
          entry.2.kind == .message && isWrapped entry.2) = [] :=
        List.filter_eq_nil_iff.mpr fun entry hentry => by simp [hnone entry hentry]
      rw [wrappers, hfilter, List.map_nil]
    -- Without a wrapper message there is no primitive, so no field is replaced either.
    have hprimitives : g.primitives = [] := by
      rw [primitives, hwrappers]
      rfl
    rw [planFlattening_eq, flatteningRequests, hremovals, hprimitives]
    rfl

/-- After flattening there is nothing to flatten if and only if no field of the wrappers
file was replaced. -/
theorem Valid.planFlattening_flatten_iff (h : g.Valid) :
    g.flatten.planFlattening = {} ↔
      ∀ origin old p, g.Replaces origin old p → isWrapped old = false := by
  rw [planFlattening_eq_empty_iff]
  constructor
  · intro hnone origin old p hreplaces
    by_contra hwrapped
    rw [Bool.not_eq_false] at hwrapped
    obtain ⟨id, e, hmem, he, -⟩ :=
      (wrapped_flatten_iff h).mpr ⟨origin, old, p, hreplaces, hwrapped, rfl⟩
    rw [hnone (id, e) hmem] at he
    cases he
  · rintro hreplaced ⟨id, e⟩ hmem
    by_contra hwrapped
    rw [Bool.not_eq_false] at hwrapped
    obtain ⟨origin, old, p, hreplaces, hold, -⟩ :=
      (wrapped_flatten_iff h).mp ⟨id, e, hmem, hwrapped, rfl⟩
    rw [hreplaced origin old p hreplaces] at hold
    cases hold

theorem Valid.planFlattening_flatten (h : g.Valid) (hshallow : g.HasShallowWrappers) :
    g.flatten.planFlattening = {} :=
  h.planFlattening_flatten_iff.mpr fun _ _ _ hreplaces => hreplaces.not_isWrapped h hshallow

/-- A store with nothing to flatten is left as it is. -/
theorem flatten_of_planFlattening (h : g.planFlattening = {}) : g.flatten = g := by
  rw [flatten, h]
  rfl

/-- Flattening a store that operations lead to leaves nothing to flatten, and flattening
it again changes nothing, if no edge leads from a field of the wrappers file to a field. -/
theorem reachable_flatten_flatten (h : g.Reachable) (hshallow : g.HasShallowWrappers) :
    g.flatten.planFlattening = {} ∧ g.flatten.flatten = g.flatten := by
  have hempty := h.valid.planFlattening_flatten hshallow
  exact ⟨hempty, flatten_of_planFlattening hempty⟩

/-- A field with nothing declared but its type. -/
def bareField (fullName file pathType : String) : Element :=
  .ofName fullName file "" none pathType .string 0 (.field ⟨1, .optional, "", false, none, none⟩)

/-- A wrapper message with two scalar fields and one that is typed as a message of
another file, and a field of that message, typed as the wrapper, which two edges from the
message and one from itself lead to. -/
def tangledWrappers : Patch :=
  Patch.requestAll {}
    [.addElement { bareMessage "Text" with file := wrappersFile },
     .addElement (bareField "Text.value" wrappersFile "[type=string]"),
     .addElement (bareField "Text.size" wrappersFile "[type=int32]"),
     .addElement (bareField "Text.origin" wrappersFile "[type=Item]"),
     .addElement (bareMessage "Item"),
     .addElement (bareField "Item.note" "item.proto" "[type=Text]"),
     .addLink ⟨.message "Text", ⟨.field, "Text.value"⟩, ⟨.field, "[type=string]", false⟩⟩,
     .addLink ⟨.message "Text", ⟨.field, "Text.size"⟩, ⟨.field, "[type=int32]", false⟩⟩,
     .addLink ⟨.message "Text", ⟨.field, "Text.origin"⟩, ⟨.field, "[type=Item]", true⟩⟩,
     .addLink ⟨⟨.field, "Text.origin"⟩, .message "Item", ⟨.typeRef, "[type=Item]", true⟩⟩,
     .addLink ⟨.message "Item", ⟨.field, "Item.note"⟩, ⟨.field, "[type=Text]", true⟩⟩,
     .addLink ⟨.message "Item", ⟨.field, "Item.note"⟩, ⟨.field, "[type=Text]", false⟩⟩,
     .addLink ⟨⟨.field, "Item.note"⟩, ⟨.field, "Item.note"⟩, ⟨.field, "[type=Text]", true⟩⟩,
     .addLink ⟨⟨.field, "Item.note"⟩, .message "Text", ⟨.typeRef, "[type=Text]", true⟩⟩,
     .addLink ⟨⟨.field, "Item.note"⟩, ⟨.field, "Text.value"⟩, ⟨.field, "[type=string]", false⟩⟩,
     .addLink ⟨⟨.field, "Item.note"⟩, ⟨.field, "Text.size"⟩, ⟨.field, "[type=int32]", false⟩⟩]

/-- What the wrappers file declares is removed with the field typed as the wrapper, the
field comes back, and nothing is left to flatten. -/
theorem reachable_flatten_flatten_tangledWrappers :
    ∃ g : Store, g.Reachable ∧ g.HasShallowWrappers ∧
      (g.planFlattening.removedElements = [0, 1, 2, 3, 5] ∧
        g.planFlattening.addedElements.length = 1 ∧ g.planFlattening.addedLinks.length = 4) ∧
      g.flatten.planFlattening = {} ∧ g.flatten.flatten = g.flatten := by
  have hreachable := Reachable.empty.step (.apply tangledWrappers) trivial
  have hshallow : (Operation.perform {} (.apply tangledWrappers)).HasShallowWrappers := by
    decide +kernel
  exact ⟨_, hreachable, hshallow, by decide +kernel,
    reachable_flatten_flatten hreachable hshallow⟩

end Store

/-- Flattening the graph of a set again changes nothing, if no field of the wrappers file
is typed as a message. -/
theorem FileSet.HasShallowWrappers.flatten_flatten {set : FileSet} (h : set.HasShallowWrappers) :
    (Draft.ofSet set).store.flatten.flatten = (Draft.ofSet set).store.flatten := by
  have htraced := Store.traced_ofSet set
  exact Store.flatten_of_planFlattening
    (htraced.valid.planFlattening_flatten (htraced.hasShallowWrappers h))

end SchemaGraph
