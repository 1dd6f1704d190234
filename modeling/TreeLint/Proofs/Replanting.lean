import TreeLint.Proofs.RoundTrip

namespace TreeLint

namespace Forest

inductive Before (f : Forest) : Forest → Prop
  | refl : Before f f
  | construct {g : Forest} (h : Before f g) (kind : KindTag) (label : Label) (parts : List Draft) :
      Before f (g.construct kind label parts).2

theorem getElem?_adopt_of_some (p : Draft) (ds : List Draft) {links : Array (Option Draft)} {j : Nat}
    {q : Draft} (h : links[j]? = some (some q)) : (adopt p links ds)[j]? = some (some q) := by
  rw [getElem?_adopt, h]
  split <;> rfl

theorem parentOf?_eq_some {f : Forest} {j : Nat} {q : Draft} :
    f.parentOf? j = some q ↔ f.links[j]? = some (some q) := by
  rw [parentOf?, Option.join_eq_some_iff]

theorem Before.parentOf? {f g : Forest} (hg : f.Before g) {j : Nat} {q : Draft}
    (h : f.parentOf? j = some q) : g.parentOf? j = some q := by
  induction hg with
  | refl => exact h
  | @construct g _ kind label parts ih =>
    have hadopt := getElem?_adopt_of_some (.node g.size kind label parts) parts
      (parentOf?_eq_some.mp ih)
    have hlt := (Array.getElem?_eq_some_iff.mp hadopt).1
    rw [parentOf?_eq_some, Forest.construct, Array.getElem?_push, if_neg (Nat.ne_of_lt hlt), hadopt]

end Forest

def Node.shape (n : Node) : Outline (Kind × Label) :=
  n.outline.map fun m => (m.kind, m.label)

def Row.entry (row : Row) : Kind × Label :=
  (row.kind, ⟨row.span.getD ⟨0, 0, 0, 0⟩, row.text.getD "", row.identifier, row.role⟩)

def Site.entry (s : Site) : Kind × Label :=
  (s.kind, s.node.label)

structure Site.Alike (s r : Site) : Prop where
  kind : s.kind = r.kind
  label : s.node.label = r.node.label
  children : s.children.length = r.children.length

namespace Document

open Outline Site Forest

theorem map_entry_listTree {t : Tree} (hserial : (t.walk.map (·.node.serial)).Nodup) :
    (listTree t).map Row.entry = t.walk.map Site.entry := by
  have hentry : Row.entry ∘ rowAt = Site.entry ∘ Prod.fst := rfl
  rw [listTree_eq hserial, List.map_map, hentry, ← List.map_map,
    List.map_fst_zip (forall₂_around_walk t).length_eq.le]

theorem labels_shape (t : Tree) : t.root.shape.labels = t.walk.map Site.entry := by
  have hentry : Site.entry = (fun m : Node => (m.kind, m.label)) ∘ Site.node := rfl
  rw [Node.shape, labels_map, hentry, ← List.map_map, Planted.map_node_walk, Node.nodes]

theorem children_length_at {t : Tree} {i : Nat} {s : Site} (hs : t.walk[i]? = some s) :
    s.children.length = (t.root.outline.parents 0 none).count (some i) := by
  rw [children_at_walk hs, length_standingIn (forall₂_around_walk t).length_eq]

theorem shape_eq_of_listTree {t u : Tree} (ht : (t.walk.map (·.node.serial)).Nodup)
    (hu : (u.walk.map (·.node.serial)).Nodup) (h : listTree t = listTree u) :
    t.root.shape = u.root.shape := by
  have hparents : t.root.shape.parents 0 none = u.root.shape.parents 0 none := by
    rw [Node.shape, Node.shape, parents_map, parents_map, ← map_parent_listTree ht, h,
      map_parent_listTree hu]
  refine eq_of_parents _ _ ?_ hparents
  rw [labels_shape, labels_shape, ← map_entry_listTree ht, h, map_entry_listTree hu]

theorem alike_of_listTree {t u : Tree} (ht : (t.walk.map (·.node.serial)).Nodup)
    (hu : (u.walk.map (·.node.serial)).Nodup) (h : listTree t = listTree u) :
    List.Forall₂ Alike t.walk u.walk := by
  have hentries : t.walk.map Site.entry = u.walk.map Site.entry := by
    rw [← map_entry_listTree ht, h, map_entry_listTree hu]
  have hparents : t.root.outline.parents 0 none = u.root.outline.parents 0 none := by
    rw [← map_parent_listTree ht, h, map_parent_listTree hu]
  refine forall₂_iff_getElem?.mpr ⟨by simpa using congrArg List.length hentries, ?_⟩
  intro i s r hs hr
  have hentry : s.entry = r.entry := by
    have := congrArg (·[i]?) hentries
    simpa [hs, hr] using this
  refine ⟨congrArg Prod.fst hentry, congrArg Prod.snd hentry, ?_⟩
  rw [children_length_at hs, children_length_at hr, hparents]

theorem completes_self {row : Row} (htext : row.text.isSome) (hspan : row.span.isSome) :
    Completes row row := by
  obtain ⟨text, htext⟩ := Option.isSome_iff_exists.mp htext
  obtain ⟨span, hspan⟩ := Option.isSome_iff_exists.mp hspan
  refine ⟨rfl, rfl, rfl, rfl, ⟨text, htext, ?_⟩, ⟨span, hspan, ?_⟩⟩
  · intro given hgiven
    exact Option.some.inj (htext.symm.trans hgiven)
  · intro given hgiven
    exact Option.some.inj (hspan.symm.trans hgiven)

theorem Planted.listTree_eq {d : Document} {t : Tree} (h : Planted d t)
    (hfull : ∀ row ∈ d.rows, row.text.isSome ∧ row.span.isSome) : listTree t = d.rows := by
  symm
  rw [← List.forall₂_eq_eq_eq]
  refine forall₂_iff_getElem?.mpr ⟨h.completes.length_eq, ?_⟩
  intro i row full hrow hfilled
  obtain ⟨htext, hspan⟩ := hfull row (List.mem_of_getElem? hrow)
  exact (completes_self htext hspan).trans_eq
    ((forall₂_iff_getElem?.mp h.completes).2 i row full hrow hfilled)

/--
The row says all that there is to say of the `i`-th site, and names the node that the site's parent
link in the forest names, unless it is the root.
-/
structure Lists (g : Forest) (sites : List Site) (i : Nat) (s : Site) (row : Row) : Prop where
  kind : row.kind = s.kind
  text : row.text = some s.node.text
  identifier : row.identifier = s.node.identifier
  role : row.role = s.node.role
  span : row.span = some s.node.span
  first : row.parent = none ↔ i = 0
  parent : ∀ p, row.parent = some p → ∃ r, sites[p]? = some r ∧
    (g.parentOf? s.node.serial).bind Draft.serial? = some r.node.serial

variable {f g : Forest} {t : Tree}

theorem nodup_of_linked (h : f.Linked [t.root]) : (t.walk.map (·.node.serial)).Nodup := by
  apply Planted.nodup_walk
  simpa using h.nodup

theorem mem_nodes {s : Site} (hs : s ∈ t.walk) : s.node ∈ [t.root].flatMap Node.nodes := by
  simpa using Planted.mem_nodes_of_mem_walk hs

theorem valid_of_linked (h : f.Linked [t.root]) (hspans : ∀ s ∈ t.walk, spanFlaws s.node.span = [])
    (path : String) : Valid ⟨path, listTree t⟩ where
  nonempty := by
    intro hnil
    have hparents := map_parent_listTree (nodup_of_linked h)
    obtain ⟨⟨serial, kind, label, children⟩, path, count⟩ := t
    rw [show listTree _ = [] from hnil, Node.outline, parents] at hparents
    simp at hparents
  ordered := checkOrder_listTree (nodup_of_linked h)
  spans := by
    intro row hrow span hspan
    have hmem : span ∈ (listTree t).filterMap Row.span := List.mem_filterMap.mpr ⟨row, hrow, hspan⟩
    rw [filterMap_span_listTree (nodup_of_linked h)] at hmem
    obtain ⟨s, hs, rfl⟩ := List.mem_map.mp hmem
    exact ⟨hspans s hs, h.spans s.node (mem_nodes hs)⟩

theorem lists_of_linked (h : f.Linked [t.root]) (hg : f.Before g) {i : Nat} {s : Site} {row : Row}
    (hs : t.walk[i]? = some s) (hrow : (listTree t)[i]? = some row) : Lists g t.walk i s row := by
  rw [listTree_eq (nodup_of_linked h), List.getElem?_map] at hrow
  obtain ⟨⟨s', q⟩, hzip, rfl⟩ := Option.map_eq_some_iff.mp hrow
  obtain ⟨hs', hq⟩ := List.getElem?_zip_eq_some.mp hzip
  obtain rfl : s = s' := Option.some.inj (hs.symm.trans hs')
  refine ⟨rfl, rfl, rfl, rfl, rfl, parents_at_eq_none_iff hq, ?_⟩
  intro p hp
  obtain rfl : q = some p := hp
  -- The link was looked at when the tree was accepted; building more nodes leaves it as it was.
  obtain ⟨r, hr, -⟩ := (forall₂_iff_getElem?.mp (forall₂_around_walk t)).2 i s _ hs hq
  have hchild : s ∈ r.children := by
    rw [children_at_walk hr]
    exact mem_standingIn hs hq
  rw [children_eq] at hchild
  obtain ⟨c, hc, rfl⟩ := List.mem_map.mp hchild
  have hlink := h.links r.node (mem_nodes (List.mem_of_getElem? hr)) c hc
  obtain ⟨container, hcontainer, hserial⟩ := Option.bind_eq_some_iff.mp hlink
  exact ⟨r, hr, by rw [hg.parentOf? hcontainer]; exact hserial⟩

/--
The number of the node that the parent link of a site's node leads to; the root is asked for none.
Nothing comes of it if the link leads to a node that was not visited before.
-/
def parentByLink (g : Forest) (root : Nat) (visited : List (Nat × Nat)) (s : Site) :
    Option (Option Nat) :=
  match if s.node.serial = root then none else g.parentOf? s.node.serial with
  | none => some none
  | some p => (p.serial?.bind fun serial => visited.lookup serial).map some

def listByLinks (g : Forest) (root : Nat) (visited : List (Nat × Nat)) (index : Nat) :
    List Site → Option (List Row)
  | [] => some []
  | s :: rest => do
    let visited := (s.node.serial, index) :: visited
    let parent ← parentByLink g root visited s
    return rowAt (s, parent) :: (← listByLinks g root visited (index + 1) rest)

theorem Lists.rowAt_eq {sites : List Site} {i : Nat} {s : Site} {row : Row}
    (h : Lists g sites i s row) : rowAt (s, row.parent) = row := by
  rw [rowAt, ← h.kind, ← h.text, ← h.identifier, ← h.role, ← h.span]

theorem Lists.parentByLink_eq {sites : List Site} {i root : Nat} {s : Site} {row : Row}
    {visited : List (Nat × Nat)} (h : Lists g sites i s row) (hroot : s.node.serial = root ↔ i = 0)
    (hvisited : ∀ p r, row.parent = some p → sites[p]? = some r →
      visited.lookup r.node.serial = some p) :
    parentByLink g root visited s = some row.parent := by
  rw [parentByLink]
  cases hparent : row.parent with
  | none => rw [if_pos (hroot.mpr (h.first.mp hparent))]
  | some p =>
    have hne : s.node.serial ≠ root := by
      intro he
      simp [h.first.mpr (hroot.mp he)] at hparent
    obtain ⟨r, hr, hlink⟩ := h.parent p hparent
    obtain ⟨container, hcontainer, hserial⟩ := Option.bind_eq_some_iff.mp hlink
    rw [if_neg hne, hcontainer]
    simp [hserial, hvisited p r hparent hr]

theorem listByLinks_eq {sites : List Site} {rows : List Row} {root : Nat}
    (hserial : (sites.map (·.node.serial)).Nodup) (hlength : rows.length = sites.length)
    (hroot : ∀ (i : Nat) s, sites[i]? = some s → (s.node.serial = root ↔ i = 0))
    (hlists : ∀ (i : Nat) s row, sites[i]? = some s → rows[i]? = some row → Lists g sites i s row)
    (hbefore : ∀ (i : Nat) row p, rows[i]? = some row → row.parent = some p → p < i)
    {visited : List (Nat × Nat)} {index : Nat} {rest : List Site} (hrest : sites.drop index = rest)
    (hvisited : ∀ p r, p < index → sites[p]? = some r → visited.lookup r.node.serial = some p) :
    listByLinks g root visited index rest = some (rows.drop index) := by
  induction rest generalizing visited index with
  | nil =>
    rw [List.drop_eq_nil_iff, ← hlength] at hrest
    rw [List.drop_eq_nil_iff.mpr hrest]
    rfl
  | cons s rest ih =>
    obtain ⟨hs, hlater⟩ := getElem?_of_drop hrest
    have hlt : index < rows.length := hlength ▸ (List.getElem?_eq_some_iff.mp hs).1
    have hrow := List.getElem?_eq_getElem hlt
    have hnew := lookup_visited_cons hserial hs hvisited
    have hl := hlists index s rows[index] hs hrow
    have hparent : parentByLink g root ((s.node.serial, index) :: visited) s =
        some rows[index].parent :=
      hl.parentByLink_eq (hroot index s hs) fun p r hp hr =>
        hnew p r (Nat.lt_succ_of_lt (hbefore index _ p hrow hp)) hr
    rw [listByLinks, hparent, ih hlater hnew, List.drop_eq_getElem_cons hlt]
    exact congrArg (fun row => some (row :: rows.drop (index + 1))) hl.rowAt_eq

theorem listByLinks_of_linked (h : f.Linked [t.root]) (hg : f.Before g) :
    listByLinks g t.root.serial [] 0 t.walk = some (listTree t) := by
  have hserial := nodup_of_linked h
  have hlength : (listTree t).length = t.walk.length := by
    simpa using congrArg List.length (map_entry_listTree hserial)
  have hfirst : t.walk[0]? = some (t.site []) := by
    rw [Tree.walk, Site.walk_eq_preorder, Site.preorder_eq]
    rfl
  apply listByLinks_eq hserial hlength
  · intro i s hs
    constructor
    · exact fun he => eq_of_serial_eq hserial hs hfirst he
    · rintro rfl
      obtain rfl := Option.some.inj (hs.symm.trans hfirst)
      rfl
  · exact fun i s row hs hrow => lists_of_linked h hg hs hrow
  · intro i row p hrow hp
    have hparent : (t.root.outline.parents 0 none)[i]? = some (some p) := by
      rw [← map_parent_listTree hserial, List.getElem?_map, hrow, Option.map_some, hp]
    rcases parents_before _ _ _ i p hparent with hnone | hlt
    · simp at hnone
    · omega
  · rfl
  · intro p r hp
    omega

/--
An accepted tree has a document exactly when its spans may stand in one. The document lists the
tree, also when its root stands in another node by then, and the tree that is planted from it is the
same one but for the serial numbers.
-/
theorem ofTree_toTree {root : Draft} {path : String} (h : f.accept root path = .ok t) :
    ((∃ d, ofTree t = .ok d) ↔ ∀ s ∈ t.walk, 0 ≤ s.node.span.start ∧ 0 ≤ s.node.span.stop ∧
      1 ≤ s.node.span.line ∧ 0 ≤ s.node.span.column) ∧
    ∀ d, ofTree t = .ok d →
      d.path = path ∧ checkOrder d.rows = .ok () ∧ d.rows.length = t.walk.length ∧
      (∀ g, f.Before g → ∀ (i : Nat) s row, t.walk[i]? = some s → d.rows[i]? = some row →
        Lists g t.walk i s row) ∧
      ∃ again, d.toTree = .ok again ∧ again.path = path ∧ again.nodeCount = t.nodeCount ∧
        again.root.shape = t.root.shape ∧ List.Forall₂ Alike again.walk t.walk := by
  obtain ⟨hpath, hcount, hlinked⟩ := linked_of_accept h
  have hserial := nodup_of_linked hlinked
  constructor
  · simp only [ofTree_eq_ok_iff hserial, exists_and_left, exists_eq, and_true, spanFlaws_eq_nil_iff]
  · intro d hd
    obtain ⟨hspans, rfl⟩ := (ofTree_eq_ok_iff hserial).mp hd
    have hvalid := valid_of_linked hlinked hspans t.path
    obtain ⟨again, hagain⟩ := hvalid.planted
    have hlength : (listTree t).length = t.walk.length := by
      simpa using congrArg List.length (map_entry_listTree hserial)
    have hlisted : listTree again = listTree t := by
      apply hagain.listTree_eq
      intro row hrow
      rw [listTree_eq hserial] at hrow
      obtain ⟨e, -, rfl⟩ := List.mem_map.mp hrow
      exact ⟨rfl, rfl⟩
    refine ⟨hpath, hvalid.ordered, hlength, fun g hg i s row => lists_of_linked hlinked hg, again,
      hagain.toTree, hagain.path.trans hpath, ?_,
      shape_eq_of_listTree hagain.nodup_serial hserial hlisted,
      alike_of_listTree hagain.nodup_serial hserial hlisted⟩
    rw [hagain.count, hcount, hlength, ← Planted.map_node_walk, List.length_map]

theorem ofTree_toTree_adopted_root :
    let inner : Label := ⟨⟨0, 1, 1, 0⟩, "x", none, some "flag"⟩
    let outer : Label := ⟨⟨0, 4, 2, 3⟩, "", some "b", none⟩
    let t : Tree := ⟨.mk 1 .block outer [.mk 0 .modifier inner []], "a.cs", 2⟩
    let f : Forest := ⟨#[some t.root.draft, none]⟩
    let g : Forest := (f.construct (.known .block) outer [t.root.draft]).2
    f.accept t.root.draft "a.cs" = .ok t ∧ f.Before g ∧ (g.parentOf? t.root.serial).isSome ∧
      ∃ d again, ofTree t = .ok d ∧ d.rows.length = 2 ∧
        (∀ (i : Nat) s row, t.walk[i]? = some s → d.rows[i]? = some row → Lists g t.walk i s row) ∧
        d.toTree = .ok again ∧ again.root.shape = t.root.shape := by
  intro inner outer t f g
  have hgrown := ((Grown.refl .empty).construct .modifier inner).construct .block outer
  have haccept : f.accept t.root.draft "a.cs" = .ok t := hgrown.accept (by decide) "a.cs"
  have hg : f.Before g := .construct .refl (.known .block) outer [t.root.draft]
  have hwalk : t.walk = preorderOf [] t.root := walk_eq_preorderOf t
  obtain ⟨hsuccess, hdocument⟩ := ofTree_toTree haccept
  obtain ⟨d, hd⟩ := hsuccess.mpr (by rw [hwalk]; decide)
  obtain ⟨-, -, hlength, hlists, again, hagain, -, -, hshape, -⟩ := hdocument d hd
  rw [hwalk] at hlength
  exact ⟨haccept, hg, rfl, d, again, hd, hlength, hlists g hg, hagain, hshape⟩

end Document

end TreeLint
