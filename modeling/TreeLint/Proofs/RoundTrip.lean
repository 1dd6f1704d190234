import TreeLint.Proofs.Listing
import TreeLint.Proofs.OpenPath
import TreeLint.Proofs.Planting
import TreeLint.Proofs.Validity

namespace TreeLint.Document

open Outline Site Forest

theorem zip_parents (d : Document) {t : Outline (Row × Span)}
    (hlabels : t.labels = d.rows.zip d.spans)
    (hparents : t.parents 0 none = d.rows.map Row.parent) :
    t.labels.map (·.1.parent) = t.parents 0 none := by
  have hfst : (d.rows.zip d.spans).map Prod.fst = d.rows :=
    List.map_fst_zip (Nat.le_of_eq (fills_spans d).length_eq)
  have hcomp : (fun e : Row × Span => e.1.parent) = Row.parent ∘ Prod.fst := rfl
  rw [hlabels, hparents, hcomp, ← List.map_map, hfst]

theorem exists_plant {d : Document} (h : d.Valid) (f : Forest) :
    ∃ t : Outline (Row × Span), t.labels = d.rows.zip d.spans ∧
      t.parents 0 none = d.rows.map Row.parent ∧
      ∃ g, d.plant f = ⟨g, [(none, (t.grow f.size).draft)]⟩ ∧ Grown f g [t.grow f.size] := by
  have hlen : (d.rows.zip d.spans).length = (d.rows.map Row.parent).length := by
    simp [(fills_spans d).length_eq]
  obtain ⟨t, hlabels, hparents⟩ :=
    exists_outline (d.rows.zip d.spans) (by simpa using h.nonempty) hlen h.ordered
  obtain ⟨g, hg, hgrown⟩ := plantFrom_grow t f ⟨f, []⟩ 0 none [] rfl
    (zip_parents d hlabels hparents) (by simp)
  rw [List.append_nil, hlabels] at hg
  exact ⟨t, hlabels, hparents, g, hg, hgrown⟩

structure Planted (d : Document) (t : Tree) : Prop where
  toTree : d.toTree = .ok t
  path : t.path = d.path
  count : t.nodeCount = d.rows.length
  shows : List.Forall₂ Shows (d.rows.zip d.spans) t.root.nodes
  parents : t.root.outline.parents 0 none = d.rows.map Row.parent
  grown : Grown .empty (d.plant .empty).forest [t.root]

theorem Valid.planted {d : Document} (h : d.Valid) : ∃ t, Planted d t := by
  obtain ⟨t, hlabels, hparents, g, hplant, hgrown⟩ := exists_plant h .empty
  have hzero : Forest.empty.size = 0 := rfl
  rw [hzero] at hplant hgrown
  have hshows : List.Forall₂ Shows (d.rows.zip d.spans) (t.grow 0).nodes := by
    rw [← hlabels]
    exact shows_grow 0 t
  have hlen : (t.grow 0).nodes.length = d.rows.length := by
    rw [← hshows.length_eq, List.length_zip, ← (fills_spans d).length_eq, Nat.min_self]
  have hspans : ∀ m ∈ (t.grow 0).nodes, m.span.start ≤ m.span.stop := by
    intro m hm
    obtain ⟨i, hi⟩ := List.getElem?_of_mem hm
    have hlt := (List.getElem?_eq_some_iff.mp hi).1
    rw [← hshows.length_eq] at hlt
    have he := List.getElem?_eq_getElem hlt
    rw [((forall₂_iff_getElem?.mp hshows).2 i _ m he hi).span]
    exact (h.isSound _ (List.getElem_mem hlt)).2
  refine ⟨⟨t.grow 0, d.path, d.rows.length⟩, ?_, rfl, rfl, hshows, ?_, ?_⟩
  · have haccept := hgrown.accept hspans d.path
    rw [hlen] at haccept
    rw [Document.toTree, hplant]
    exact haccept
  · rw [parents_grow, hparents]
  · rw [hplant]
    exact hgrown

namespace Planted

variable {d : Document} {t : Tree}

theorem map_node_walk (t : Tree) : t.walk.map Site.node = t.root.nodes := by
  rw [walk_eq_preorderOf, map_node_eq_nodes]

theorem nodup_walk {t : Tree} (h : (t.root.nodes.map Node.serial).Nodup) :
    (t.walk.map (·.node.serial)).Nodup := by
  have hcomp : (fun s : Site => s.node.serial) = Node.serial ∘ Site.node := rfl
  rw [hcomp, ← List.map_map, map_node_walk]
  exact h

theorem mem_nodes_of_mem_walk {t : Tree} {s : Site} (hs : s ∈ t.walk) : s.node ∈ t.root.nodes := by
  rw [← map_node_walk]
  exact List.mem_map_of_mem hs

theorem length_walk (h : Planted d t) : t.walk.length = d.rows.length := by
  have hlen := congrArg List.length h.parents
  rw [parents_length, List.length_map] at hlen
  rw [walk_eq_preorderOf, length_preorderOf, hlen]

theorem nodup_serial (h : Planted d t) : (t.walk.map (·.node.serial)).Nodup := by
  apply nodup_walk
  simpa using h.grown.nodup

theorem shows_at (h : Planted d t) {i : Nat} {s : Site} {row : Row} (hs : t.walk[i]? = some s)
    (hrow : d.rows[i]? = some row) : ∃ span, d.spans[i]? = some span ∧ Shows (row, span) s.node := by
  have hlt := (List.getElem?_eq_some_iff.mp hrow).1
  rw [(fills_spans d).length_eq] at hlt
  have hspan := List.getElem?_eq_getElem hlt
  refine ⟨_, hspan, ?_⟩
  apply (forall₂_iff_getElem?.mp h.shows).2 i
  · rw [List.getElem?_zip_eq_some]
    exact ⟨hrow, hspan⟩
  · rw [← map_node_walk, List.getElem?_map, hs]
    rfl

theorem around_at (h : Planted d t) {i : Nat} {s : Site} {row : Row} (hs : t.walk[i]? = some s)
    (hrow : d.rows[i]? = some row) : Around t.walk s row.parent := by
  apply (forall₂_iff_getElem?.mp (forall₂_around_walk t)).2 i s _ hs
  rw [h.parents, List.getElem?_map, hrow]
  rfl

theorem children_at (h : Planted d t) {i : Nat} {s : Site} (hs : t.walk[i]? = some s) :
    s.children = standingIn t.walk (d.rows.map Row.parent) i := by
  rw [← h.parents]
  exact children_at_walk hs

theorem parent_eq_none_iff (h : Planted d t) {i : Nat} {row : Row} (hrow : d.rows[i]? = some row) :
    row.parent = none ↔ i = 0 := by
  apply parents_at_eq_none_iff (t := t.root.outline)
  rw [h.parents, List.getElem?_map, hrow, Option.map_some]

theorem node_of_root (h : Planted d t) {i : Nat} {s : Site} {row : Row}
    (hs : t.walk[i]? = some s) (hrow : d.rows[i]? = some row) (hroot : row.parent = none) :
    s.node = t.root := by
  obtain rfl := (h.parent_eq_none_iff hrow).mp hroot
  have hfirst := congrArg (·[0]?) (map_node_walk t)
  obtain ⟨⟨serial, kind, label, children⟩, path, count⟩ := t
  simpa [hs, Node.nodes_mk] using hfirst

theorem mem_children (h : Planted d t) {i p : Nat} {s r : Site} {row : Row}
    (hs : t.walk[i]? = some s) (hrow : d.rows[i]? = some row) (hp : row.parent = some p)
    (hr : t.walk[p]? = some r) : s ∈ r.children := by
  rw [h.children_at hr]
  apply mem_standingIn hs
  rw [List.getElem?_map, hrow, Option.map_some, hp]

theorem link_at (h : Planted d t) {i : Nat} {s : Site} {row : Row} (hs : t.walk[i]? = some s)
    (hrow : d.rows[i]? = some row) :
    (d.plant .empty).forest.parentOf? s.node.serial =
      (row.parent.bind (t.walk[·]?)).map (·.node.draft) := by
  have haround := h.around_at hs hrow
  cases hp : row.parent with
  | none =>
    rw [h.node_of_root hs hrow hp]
    exact h.grown.roots t.root (by simp)
  | some p =>
    rw [hp] at haround
    obtain ⟨r, hr, -⟩ := haround
    have hchild : s.node ∈ r.node.children := by
      have hmem := h.mem_children hs hrow hp hr
      rw [children_eq] at hmem
      obtain ⟨c, hc, rfl⟩ := List.mem_map.mp hmem
      exact hc
    have hnode : r.node ∈ [t.root].flatMap Node.nodes := by
      simpa using mem_nodes_of_mem_walk (List.mem_of_getElem? hr)
    rw [h.grown.links r.node hnode s.node hchild, Option.bind_some, hr]
    rfl

theorem isSound_site (h : Planted d t) (hd : d.Valid) {s : Site} (hs : s ∈ t.walk) :
    IsSound s.node.span := by
  obtain ⟨i, hi⟩ := List.getElem?_of_mem hs
  have hlt := (List.getElem?_eq_some_iff.mp hi).1
  rw [h.length_walk] at hlt
  have hrow := List.getElem?_eq_getElem hlt
  obtain ⟨span, hspan, hshows⟩ := h.shows_at hi hrow
  rw [hshows.span]
  refine hd.isSound (d.rows[i], span) (List.mem_iff_getElem?.mpr ⟨i, ?_⟩)
  rw [List.getElem?_zip_eq_some]
  exact ⟨hrow, hspan⟩

theorem ofTree_eq (h : Planted d t) (hd : d.Valid) : ofTree t = .ok ⟨t.path, listTree t⟩ :=
  ofTree_of_spans h.nodup_serial fun _ hs => (h.isSound_site hd hs).1

theorem exists_site (h : Planted d t) {i : Nat} {full : Row} (hfull : (listTree t)[i]? = some full) :
    ∃ s, t.walk[i]? = some s ∧ ∃ parent, (d.rows.map Row.parent)[i]? = some parent ∧
      full = rowAt (s, parent) := by
  rw [listTree_eq h.nodup_serial, h.parents, List.getElem?_map] at hfull
  obtain ⟨⟨s, parent⟩, hzip, rfl⟩ := Option.map_eq_some_iff.mp hfull
  obtain ⟨hs, hparent⟩ := List.getElem?_zip_eq_some.mp hzip
  exact ⟨s, hs, parent, hparent, rfl⟩

end Planted

structure Completes (row full : Row) : Prop where
  kind : full.kind = row.kind
  parent : full.parent = row.parent
  identifier : full.identifier = row.identifier
  role : full.role = row.role
  text : ∃ text, full.text = some text ∧ ∀ given, row.text = some given → text = given
  span : ∃ span, full.span = some span ∧ ∀ given, row.span = some given → span = given

theorem Completes.trans_eq {row full again : Row} (h : Completes row full)
    (h' : Completes full again) : full = again := by
  obtain ⟨text, htext, -⟩ := h.text
  obtain ⟨span, hspan, -⟩ := h.span
  obtain ⟨text', htext', hgiven⟩ := h'.text
  obtain ⟨span', hspan', hgiven'⟩ := h'.span
  obtain rfl := hgiven text htext
  obtain rfl := hgiven' span hspan
  cases full
  cases again
  rw [Row.mk.injEq]
  exact ⟨h'.kind.symm, h'.parent.symm, htext.trans htext'.symm, h'.identifier.symm, h'.role.symm,
    hspan.trans hspan'.symm⟩

namespace Planted

variable {d : Document} {t : Tree}

theorem completes (h : Planted d t) : List.Forall₂ Completes d.rows (listTree t) := by
  have hlen : d.rows.length = (listTree t).length := by
    have hps := congrArg List.length (map_parent_listTree h.nodup_serial)
    rw [h.parents, List.length_map, List.length_map] at hps
    exact hps.symm
  refine forall₂_iff_getElem?.mpr ⟨hlen, ?_⟩
  intro i row full hrow hfull
  obtain ⟨s, hs, parent, hparent, rfl⟩ := h.exists_site hfull
  obtain ⟨span, hspan, hshows⟩ := h.shows_at hs hrow
  have hfills := (forall₂_iff_getElem?.mp (fills_spans d)).2 i row span hrow hspan
  refine ⟨hshows.kind, ?_, hshows.identifier, hshows.role, ⟨_, rfl, hshows.text⟩,
    ⟨_, rfl, ?_⟩⟩
  · rw [List.getElem?_map, hrow] at hparent
    exact (Option.some.inj hparent).symm
  · intro given hgiven
    rw [hshows.span]
    exact hfills.1 given hgiven

theorem valid_listTree (h : Planted d t) (hd : d.Valid) (path : String) :
    Valid ⟨path, listTree t⟩ where
  nonempty := by
    intro hnil
    have hlen := h.completes.length_eq
    rw [show listTree t = [] from hnil, List.length_nil] at hlen
    exact hd.nonempty (List.eq_nil_of_length_eq_zero hlen)
  ordered := checkOrder_listTree h.nodup_serial
  spans := by
    intro full hfull span hspan
    obtain ⟨i, hi⟩ := List.getElem?_of_mem hfull
    obtain ⟨s, hs, parent, -, rfl⟩ := h.exists_site hi
    obtain rfl : s.node.span = span := Option.some.inj hspan
    exact h.isSound_site hd (List.mem_of_getElem? hs)

end Planted

/--
The tree of a valid document has its rows as nodes, in their order and one inside the other as they
say. Its own document fills in what was left out and nothing else, and is its own completion.
-/
theorem toTree_ofTree (d : Document) (hd : d.Valid) :
    ∃ t full, d.toTree = .ok t ∧ t.walk.length = d.rows.length ∧
      (t.walk.map (·.node.serial)).Nodup ∧
      (∀ (i : Nat) s row, t.walk[i]? = some s → d.rows[i]? = some row →
        s.kind = row.kind ∧ s.node.identifier = row.identifier ∧ s.node.role = row.role ∧
          (row.parent = none ↔ i = 0) ∧ Around t.walk s row.parent ∧
          (d.plant .empty).forest.parentOf? s.node.serial =
            (row.parent.bind (t.walk[·]?)).map (·.node.draft) ∧
          s.children = standingIn t.walk (d.rows.map Row.parent) i) ∧
      ofTree t = .ok full ∧ full.Valid ∧ full.path = d.path ∧
      List.Forall₂ Completes d.rows full.rows ∧
      ∃ again, full.toTree = .ok again ∧ ofTree again = .ok full := by
  obtain ⟨t, h⟩ := hd.planted
  have hfull : Valid ⟨t.path, listTree t⟩ := h.valid_listTree hd t.path
  obtain ⟨again, h'⟩ := hfull.planted
  have hsame : listTree again = listTree t := by
    symm
    rw [← List.forall₂_eq_eq_eq]
    refine forall₂_iff_getElem?.mpr ⟨h'.completes.length_eq, ?_⟩
    intro i full full' hi hi'
    have hlt := (List.getElem?_eq_some_iff.mp hi).1
    rw [← h.completes.length_eq] at hlt
    have hrow := List.getElem?_eq_getElem hlt
    exact ((forall₂_iff_getElem?.mp h.completes).2 i _ full hrow hi).trans_eq
      ((forall₂_iff_getElem?.mp h'.completes).2 i full full' hi hi')
  refine ⟨t, ⟨t.path, listTree t⟩, h.toTree, h.length_walk, h.nodup_serial, ?_, h.ofTree_eq hd,
    hfull, h.path, h.completes, again, h'.toTree, ?_⟩
  · intro i s row hs hrow
    obtain ⟨span, -, hshows⟩ := h.shows_at hs hrow
    exact ⟨hshows.kind, hshows.identifier, hshows.role, h.parent_eq_none_iff hrow,
      h.around_at hs hrow, h.link_at hs hrow, h.children_at hs⟩
  · rw [h'.ofTree_eq hfull, h'.path, hsame]

theorem toTree_ofTree_mixed :
    let d : Document := ⟨"a.cs", [
      ⟨.classDeclaration, none, none, some "C", none, none⟩,
      ⟨.block, some 0, none, none, some "body", some ⟨3, 9, 2, 1⟩⟩,
      ⟨.identifierName, some 1, some "value", none, none, none⟩,
      ⟨.modifier, some 0, some "", none, none, some ⟨0, 0, 1, 0⟩⟩]⟩
    d.Valid ∧ ∃ t full, d.toTree = .ok t ∧ t.walk.length = 4 ∧ ofTree t = .ok full ∧
      full.path = "a.cs" ∧ List.Forall₂ Completes d.rows full.rows := by
  intro d
  have hd : d.Valid := by
    refine ⟨by simp [d], rfl, ?_⟩
    simp [d, isSound_iff]
  obtain ⟨t, full, htree, hlen, -, -, hfull, -, hpath, hcompletes, -⟩ := toTree_ofTree d hd
  exact ⟨hd, t, full, htree, hlen, hfull, hpath, hcompletes⟩

end TreeLint.Document
