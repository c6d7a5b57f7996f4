import SchemaGraph.Proofs.Ownership
import SchemaGraph.Proofs.Store.Paths
import SchemaGraph.Proofs.Wire.Frame
import SchemaGraph.Report.Paths

/-!
# What a path report says

A report looks every edge and every vertex up again by its number, leaves out an edge that is
not there and names a vertex by its full name only.  The main result, `pathReport_renders`, is
that in finished graphs nothing is lost by this:

* every edge of a path is there, so an entry has one step for each of them, with the names of
  the vertices that the edge joins (`PathStep.Describes`, `PathEntry.Renders`);
* the steps lead from the one name to the other (`Store.renders_ofPath`);
* a full name tells which vertex it is, and two vertices are joined by one edge at most, so
  different paths have different steps (`Store.Follows.injOn_ofLink`);
* the terminal text has the vertices of each path, in the order of the paths
  (`PathReport.terminal_ofPaths`).
-/

namespace SchemaGraph

open Text (styled)

/-! ## What is said of a path -/

/-- A step says of an edge of the store what it is, and names the vertices at its ends. -/
def PathStep.Describes (g : Store) (id : EdgeId) (step : PathStep) : Prop :=
  ∃ l a b, g.link? id = some l ∧ g.element? l.source = some a ∧ g.element? l.target = some b ∧
    step = { source := a.fullName
             target := b.fullName
             edgeType := l.edge.type
             typeRef := l.edge.kind == .typeRef
             isMessageType := l.edge.isMessageType }

/-- An entry has a step for each edge of a path, and the steps lead from one name to another. -/
structure PathEntry.Renders (g : Store) (source target : String) (p : Path) (entry : PathEntry) :
    Prop where
  steps : List.Forall₂ (PathStep.Describes g) p.links entry.steps
  length : entry.length = p.links.length
  nonempty : 1 ≤ entry.length
  first : entry.steps.head?.map PathStep.source = some source
  joined : entry.steps.IsChain fun step next => next.source = step.target
  last : entry.steps.getLast?.map PathStep.target = some target

namespace Store

/-- A vertex as it is printed after the edge into it: in parentheses if the edge leads from a
field to its type. -/
def hop (g : Store) (v : VertexId) (id : EdgeId) : String :=
  if (g.link? id).any fun l => l.edge.kind == .typeRef then "(" ++ g.nameOf v ++ ")"
  else g.nameOf v

/-- The text of a path at a position: the vertices after the first one follow its name. -/
def pathLine (g : Store) (source : String) (position : Nat) (p : Path) : String :=
  "  " ++ Text.padLeft 3 (toString (position + 1)) ++ ". " ++
    Text.join " -> " (source :: List.zipWith g.hop p.vertices.tail p.links)

end Store

/-- A report has one entry for each path, in order, no two of them with the same steps, and its
text is that of the paths. -/
structure PathReport.Renders (g : Store) (source target : String) (paths : List Path)
    (report : PathReport) : Prop where
  entries : List.Forall₂ (fun p entry => entry.Renders g source target p) paths report.paths
  distinct : (report.paths.map PathEntry.steps).Nodup
  terminal : ∀ color, report.terminal color =
    if paths = [] then "  No path from " ++ source ++ " to " ++ target
    else
      Text.join "\n"
        (("  " ++ toString paths.length ++ " path(s) from " ++ styled color .cyan source ++
            " to " ++ styled color .cyan target) ::
          paths.mapIdx (g.pathLine source))

namespace Store

variable {g : Store} {source target v : VertexId} {l : Link} {links : List Link} {p : Path}
variable {set : FileSet}

/-! ## Names -/

theorem nameOf_of_mem (hg : g.Valid) {e : Element} (hmem : (v, e) ∈ g.elements) :
    g.nameOf v = e.fullName := by
  rw [nameOf, hg.element?_eq_some_iff.mpr hmem]

/-- A full name tells which vertex it is. -/
theorem Follows.eq_of_nameOf (h : g.Follows set) (hnames : set.UniqueNames) {w : VertexId}
    (hv : v ∈ g.ids) (hw : w ∈ g.ids) (hsame : g.nameOf v = g.nameOf w) : v = w := by
  obtain ⟨a, ha⟩ := mem_ids_iff.mp hv
  obtain ⟨b, hb⟩ := mem_ids_iff.mp hw
  obtain ⟨s, hs, hskey⟩ := h.keys _ (mem_keys_iff.mpr ⟨v, a, ha, rfl⟩)
  obtain ⟨t, ht, htkey⟩ := h.keys _ (mem_keys_iff.mpr ⟨w, b, hb, rfl⟩)
  have hfull : s.fullName = t.fullName := by
    calc s.fullName = a.key.fullName := by rw [← hskey, s.key_fullName]
      _ = b.key.fullName := by
          rw [nameOf_of_mem h.valid ha, nameOf_of_mem h.valid hb] at hsame
          exact hsame
      _ = t.fullName := by rw [← htkey, t.key_fullName]
  obtain rfl := List.inj_on_of_nodup_map hnames hs ht hfull
  exact (h.valid.eq_of_key ha hb (hskey.symm.trans htkey)).1

/-- A step tells which edge it is. -/
theorem Follows.injOn_ofLink (h : g.Follows set) (hnames : set.UniqueNames) :
    Set.InjOn (PathStep.ofLink g) {l | l ∈ g.links} := by
  intro l hl m hm hsame
  obtain ⟨hlsource, hltarget⟩ := h.valid.ends l hl
  obtain ⟨hmsource, hmtarget⟩ := h.valid.ends m hm
  exact h.eq_of_ends hl hm
    (h.eq_of_nameOf hnames hlsource hmsource (congrArg PathStep.source hsame))
    (h.eq_of_nameOf hnames hltarget hmtarget (congrArg PathStep.target hsame))

/-- Edges of the store are known from the steps along them. -/
theorem Follows.eq_of_map_ofLink (h : g.Follows set) (hnames : set.UniqueNames)
    {links' : List Link} (hl : ∀ l ∈ links, l ∈ g.links) (hl' : ∀ l ∈ links', l ∈ g.links)
    (hsame : links.map (PathStep.ofLink g) = links'.map (PathStep.ofLink g)) : links = links' := by
  induction links generalizing links' with
  | nil => exact (List.map_eq_nil_iff.mp hsame.symm).symm
  | cons l rest ih =>
      cases links' with
      | nil => cases hsame
      | cons l' rest' =>
          obtain ⟨hfirst, hrest⟩ := List.cons.inj hsame
          obtain ⟨hhead, htail⟩ := List.forall_mem_cons.mp hl
          obtain ⟨hhead', htail'⟩ := List.forall_mem_cons.mp hl'
          rw [h.injOn_ofLink hnames hhead hhead' hfirst, ih htail htail' hrest]

/-! ## Entries -/

theorem describes_ofLink (hg : g.Valid) (hl : l ∈ g.links) :
    (PathStep.ofLink g l).Describes g l.id := by
  obtain ⟨⟨a, ha⟩, ⟨b, hb⟩⟩ := (hg.ends l hl).imp mem_ids_iff.mp mem_ids_iff.mp
  refine ⟨l, a, b, hg.link?_eq_some_iff.mpr ⟨hl, rfl⟩, hg.element?_eq_some_iff.mpr ha,
    hg.element?_eq_some_iff.mpr hb, ?_⟩
  rw [PathStep.ofLink, nameOf_of_mem hg ha, nameOf_of_mem hg hb]

/-- No edge of a walk is left out of its entry. -/
theorem ofPath_ofLinks (hg : g.Valid) (hl : ∀ l ∈ links, l ∈ g.links) :
    PathEntry.ofPath g (Path.ofLinks v links) =
      ⟨links.length, links.map (PathStep.ofLink g)⟩ := by
  rw [PathEntry.ofPath]
  simp only [Path.ofLinks, filterMap_link? hg hl, List.length_map]

/-- The entry of a path from one vertex to another. -/
theorem renders_ofPath (hg : g.Valid) (h : p ∈ g.paths source target) :
    (PathEntry.ofPath g p).Renders g (g.nameOf source) (g.nameOf target) p := by
  obtain ⟨links, hwalk, hlast, rfl⟩ := exists_walk_of_mem_paths hg h
  have hl := hwalk.mem_links
  obtain ⟨l, rest, rfl⟩ : ∃ l rest, links = l :: rest :=
    List.exists_cons_of_ne_nil fun hnil => by rw [hnil] at hlast; cases hlast
  rw [ofPath_ofLinks hg hl]
  constructor
  case steps =>
    rw [Path.ofLinks, List.forall₂_map_left_iff, List.forall₂_map_right_iff, List.forall₂_same]
    exact fun l hmem => describes_ofLink hg (hl l hmem)
  case length => exact (List.length_map _).symm
  case nonempty => exact Nat.succ_pos rest.length
  case first => exact congrArg (some ∘ g.nameOf) (hwalk.source_of_head? rfl)
  case joined =>
    rw [List.isChain_map]
    exact hwalk.isChain.imp fun _ _ hjoined => congrArg g.nameOf hjoined
  case last =>
    rw [List.getLast?_map, Option.map_map]
    rw [List.getLast?_map] at hlast
    obtain ⟨m, hm, rfl⟩ := Option.map_eq_some_iff.mp hlast
    rw [hm]
    rfl

/-- Different paths have different steps. -/
theorem Follows.injOn_ofPath (h : g.Follows set) (hnames : set.UniqueNames) :
    Set.InjOn (fun p => (PathEntry.ofPath g p).steps) {p | p ∈ g.paths source target} := by
  intro p hp q hq hsame
  obtain ⟨links, hwalk, -, rfl⟩ := exists_walk_of_mem_paths h.valid hp
  obtain ⟨links', hwalk', -, rfl⟩ := exists_walk_of_mem_paths h.valid hq
  have hl := hwalk.mem_links
  have hl' := hwalk'.mem_links
  simp only [ofPath_ofLinks h.valid hl, ofPath_ofLinks h.valid hl'] at hsame
  rw [h.eq_of_map_ofLink hnames hl hl' hsame]

/-! ## Text -/

theorem hop_ofLink (hg : g.Valid) (hl : l ∈ g.links) :
    (PathStep.ofLink g l).hop = g.hop l.target l.id := by
  rw [hop, hg.link?_eq_some_iff.mpr ⟨hl, rfl⟩]
  rfl

/-- The line of a path has its vertices. -/
theorem line_ofPath (hg : g.Valid) (h : p ∈ g.paths source target) (name : String)
    (position : Nat) : (PathEntry.ofPath g p).line name position = g.pathLine name position p := by
  obtain ⟨links, hwalk, -, rfl⟩ := exists_walk_of_mem_paths hg h
  have hl := hwalk.mem_links
  have hhops : (links.map (PathStep.ofLink g)).map PathStep.hop =
      List.zipWith g.hop (links.map Link.target) (links.map Link.id) := by
    rw [List.map_map, List.zipWith_map, List.zipWith_self]
    exact List.map_congr_left fun l hmem => hop_ofLink hg (hl l hmem)
  rw [PathEntry.line, ofPath_ofLinks hg hl, hhops]
  rfl

end Store

/-- The text of a report is that of the paths. -/
theorem PathReport.terminal_ofPaths {g : Store} (hg : g.Valid) {s t : VertexId}
    (source target : String) (color : Bool) :
    (PathReport.ofPaths g source target (g.paths s t)).terminal color =
      if g.paths s t = [] then "  No path from " ++ source ++ " to " ++ target
      else
        Text.join "\n"
          (("  " ++ toString (g.paths s t).length ++ " path(s) from " ++
              styled color .cyan source ++ " to " ++ styled color .cyan target) ::
            (g.paths s t).mapIdx (g.pathLine source)) := by
  have hlines (entry : Path × Nat) (hmem : entry ∈ (g.paths s t).zipIdx) :
      (PathEntry.ofPath g entry.1).line source entry.2 = g.pathLine source entry.2 entry.1 :=
    Store.line_ofPath hg (List.fst_mem_of_mem_zipIdx hmem) source entry.2
  rw [terminal, ofPaths]
  simp only [List.map_eq_nil_iff, List.length_map, List.zipIdx_map, List.map_map,
    List.mapIdx_eq_zipIdx_map]
  rw [← List.map_congr_left hlines]
  rfl

/-! ## Finished graphs -/

/-- A vertex that is found by a name has the name. -/
theorem RootedGraph.nameOf_of_findByName {r : RootedGraph} {name : String} {id : VertexId}
    (hg : r.store.Valid) (hfind : r.findByName name = some id) : r.store.nameOf id = name := by
  obtain ⟨kind, -, hfound⟩ := List.exists_of_findSome?_eq_some hfind
  obtain ⟨e, hmem, hkey⟩ := hg.find?_eq_some_iff.mp hfound
  rw [Store.nameOf_of_mem hg hmem]
  exact congrArg ElementKey.fullName hkey

/-- In a finished graph the report on all paths between two names renders these paths. -/
theorem pathReport_renders {set : FileSet} {options : GraphOptions} {g : Store} {n : Nat}
    {encoded : List (ElementKey × List UInt8)} {r : RootedGraph} (h : set.UniqueNames)
    (hwrappers : set.PlainWrappers)
    (hattach : Draft.attach (Registry.ofSet set) encoded (Draft.ofSet set).store = .ok (g, n))
    (hbuild : RootedGraph.build set options g = .ok r) {source target : String} {s t : VertexId}
    (hsource : r.findByName source = some s) (htarget : r.findByName target = some t) :
    (PathReport.ofPaths r.store source target (r.store.paths s t)).Renders r.store source target
      (r.store.paths s t) := by
  have hfollows := RootedGraph.follows_of_attach h hwrappers hattach hbuild
  have hvalid := hfollows.valid
  constructor
  case entries =>
    rw [PathReport.ofPaths, List.forall₂_map_right_iff, List.forall₂_same]
    intro p hp
    rw [← RootedGraph.nameOf_of_findByName hvalid hsource,
      ← RootedGraph.nameOf_of_findByName hvalid htarget]
    exact Store.renders_ofPath hvalid hp
  case distinct =>
    rw [PathReport.ofPaths, List.map_map]
    exact (Store.nodup_paths hvalid).map_on (hfollows.injOn_ofPath h)
  case terminal => exact PathReport.terminal_ofPaths hvalid source target

/-- An order has a state, and so has each of its parts, which refers to a wrapper too. -/
def orderSet : FileSet where
  files :=
    [{ name := wrappersFile
       package := "google.protobuf"
       messages :=
         [{ name := "StringValue"
            fields := [{ name := "value", number := 1, type := .string }]
            nested := []
            enums := []
            extensions := []
            oneofs := []
            isMapEntry := false }] },
     { name := "order.proto"
       messages :=
         [{ name := "Order"
            fields :=
              [{ name := "state", number := 1, type := .enum, typeName := some ".State" },
               { name := "parts", number := 2, label := .repeated, type := .message
                 typeName := some ".Part" }]
            nested := []
            enums := []
            extensions := []
            oneofs := []
            isMapEntry := false },
          { name := "Part"
            fields :=
              [{ name := "note", number := 1, type := .message
                 typeName := some ".google.protobuf.StringValue" },
               { name := "state", number := 2, type := .enum, typeName := some ".State" }]
            nested := []
            enums := []
            extensions := []
            oneofs := []
            isMapEntry := false }]
       enums := [{ name := "State", values := [⟨"OPEN", 0⟩, ⟨"PAID", 1⟩] }] }]

/-- The paths from an order to the type of the states. -/
def orderPaths : String :=
  Text.join "\n"
    ["  3 path(s) from Order to State",
     "    1. Order -> Order.parts -> (Part) -> Part.state -> (State)",
     "    2. Order -> Order.parts -> Part.state -> (State)",
     "    3. Order -> Order.state -> (State)"]

/-- The three paths are rendered: a field leads to its type and to the fields of its type. -/
theorem pathReport_renders_orderSet :
    orderSet.UniqueNames ∧ orderSet.PlainWrappers ∧
      Draft.attach (Registry.ofSet orderSet) [] (Draft.ofSet orderSet).store =
        .ok ((Draft.ofSet orderSet).store, 0) ∧
      ∃ r, RootedGraph.build orderSet { messageName := some "Order" }
          (Draft.ofSet orderSet).store = .ok r ∧
        r.findByName "Order" = some 3 ∧ r.findByName "State" = some 2 ∧
        (PathReport.ofPaths r.store "Order" "State" (r.store.paths 3 2)).terminal false =
          orderPaths ∧
        (PathReport.ofPaths r.store "Order" "State" (r.store.paths 3 2)).Renders r.store
          "Order" "State" (r.store.paths 3 2) := by
  have hnames : orderSet.UniqueNames := by decide +kernel
  have hwrappers : orderSet.PlainWrappers := by decide +kernel
  have hattach : Draft.attach (Registry.ofSet orderSet) [] (Draft.ofSet orderSet).store =
      .ok ((Draft.ofSet orderSet).store, 0) := rfl
  have hreport : (RootedGraph.build orderSet { messageName := some "Order" }
      (Draft.ofSet orderSet).store).map (fun r =>
        (r.findByName "Order", r.findByName "State",
          (PathReport.ofPaths r.store "Order" "State" (r.store.paths 3 2)).terminal false)) =
      .ok (some 3, some 2, orderPaths) := by decide +kernel
  obtain ⟨r, hbuild, hreport⟩ := exists_of_map_ok hreport
  obtain ⟨hsource, hrest⟩ := Prod.mk.inj hreport
  obtain ⟨htarget, hterminal⟩ := Prod.mk.inj hrest
  exact ⟨hnames, hwrappers, hattach, r, hbuild, hsource, htarget, hterminal,
    pathReport_renders hnames hwrappers hattach hbuild hsource htarget⟩

end SchemaGraph
