import TreeLint.Analysis.Basic
import TreeLint.Proofs.Branching

namespace TreeLint

open Checked

namespace Registry

variable {r : Registry}

theorem outcome_append (r : Registry) (t : Tree) (xs ys : List Site) :
    r.outcome t (xs ++ ys) =
      ⟨(r.outcome t xs).diagnostics ++ (r.outcome t ys).diagnostics,
        (r.outcome t xs).failures ++ (r.outcome t ys).failures⟩ := by
  simp only [outcome, duties_append, List.filterMap_append]

theorem outcome_flatMap {α : Type} (r : Registry) (t : Tree) (f : α → List Site) (as : List α) :
    r.outcome t (as.flatMap f) =
      ⟨as.flatMap fun a => (r.outcome t (f a)).diagnostics,
        as.flatMap fun a => (r.outcome t (f a)).failures⟩ := by
  induction as with
  | nil => rfl
  | cons a rest ih =>
    rw [List.flatMap_cons, outcome_append, ih, List.flatMap_cons, List.flatMap_cons]

def declared (r : Registry) (t : Tree) (n : Node) : Sink :=
  r.outcome t (Site.preorderOf [⟨0, .known .compilationUnit⟩] n.plain)

theorem FromCatalogue.outcome_unit (h : r.FromCatalogue) {t : Tree}
    (hroot : t.root.kind = .compilationUnit) :
    r.outcome t (t.site []).preorder =
      ⟨t.root.children.flatMap fun n => (r.declared t n).diagnostics,
        t.root.children.flatMap fun n => (r.declared t n).failures⟩ := by
  have hplain : ((t.site []).children.flatMap Site.preorder).map Site.plain =
      t.root.children.flatMap fun n =>
        Site.preorderOf [⟨0, .known .compilationUnit⟩] n.plain := by
    simp only [List.map_flatMap, Site.children, List.flatMap_map, Site.preorder,
      Site.map_plain_preorderOf]
    simp only [Tree.site, hroot]
    rfl
  have hunit : r.outcome t [t.site []] = ⟨[], []⟩ := by
    have hsite : (t.site []).kind = .compilationUnit := hroot
    rw [outcome, h.duties_unit hsite]
    rfl
  rw [Site.preorder_eq, ← List.singleton_append, outcome_append, hunit,
    ← h.outcome_map_plain rfl, hplain, outcome_flatMap]
  rfl

theorem FromCatalogue.analyze_eq (h : r.FromCatalogue) {input : Input} {t : Tree}
    {outside : List Enclosing} (hinput : input.prepare = .ok ⟨t, outside⟩) (ht : t.Accepted) :
    analyze r input none =
      .ok ((r.outcome t (t.site outside).preorder).diagnostics, none) := by
  have hover : Pass.over r t outside .empty none = _ :=
    Pass.over_of_passes ht outside .empty rfl h.contained
  rw [Input.prepare] at hinput
  rw [analyze, analyzeBy, hinput]
  simp only [hover]
  rfl

end Registry

structure Document.Yields (registry : Registry) (d : Document) (t : Tree) (sink : Sink) : Prop where
  toTree : d.toTree = .ok t
  prepare : ∀ s : Source, s.read = .ok d → (Input.source s).prepare = .ok ⟨t, []⟩
  analyze : ∀ input : Input, input.prepare = .ok ⟨t, []⟩ →
    analyze registry input none = .ok (sink.diagnostics, none)
  analyzeUnit : ∀ input : Input, input.prepare = .ok ⟨t, []⟩ →
    ∃ tally, tally.cancelled = false ∧
      analyzeUnit registry input none = .ok (.completed d.path sink tally, none)

theorem Source.prepare_of_read {s : Source} {d : Document} {t : Tree} (hread : s.read = .ok d)
    (ht : d.toTree = .ok t) : (Input.source s).prepare = .ok ⟨t, []⟩ := by
  obtain ⟨path, hpath⟩ := Option.isSome_iff_exists.mp (isSome_path?_of_read hread)
  have hload : (s.loadBy Source.read).map (fun t => (⟨t, []⟩ : Prepared)) = .ok ⟨t, []⟩ := by
    rw [loadBy_of_toTree hpath hread ht]
    rfl
  cases s with
  | text own => exact hload
  | bytes own => exact hload
  | value v =>
    cases v with
    | record entries => exact hload
    | _ => simp [read, Document.ofValue, flawAt] at hread

namespace Document

variable {registry : Registry}

theorem Planted.yields {d : Document} {t : Tree} (ht : Planted d t) (h : registry.FromCatalogue) :
    d.Yields registry t (registry.outcome t (t.site []).preorder) := by
  have haccepted : t.Accepted := ⟨_, _, accept_of_toTree ht.toTree⟩
  have hover : Pass.over registry t [] .empty none = _ :=
    Pass.over_of_passes haccepted [] .empty rfl h.contained
  refine ⟨ht.toTree, fun s hs => Source.prepare_of_read hs ht.toTree, ?_, ?_⟩
  · intro input hinput
    rw [h.analyze_eq hinput haccepted]
  · intro input hinput
    rw [Input.prepare] at hinput
    rw [TreeLint.analyzeUnit, analyzeUnitBy, hinput, ← ht.path]
    simp only [hover]
    exact ⟨_, rfl, rfl⟩

theorem Planted.yields_declared {part : Document} {t whole : Tree} (ht : Planted part t)
    (h : registry.FromCatalogue) (hpath : t.path = whole.path)
    (hroot : t.root.kind = .compilationUnit) {n : Node}
    (hchildren : t.root.children.map Node.plain = [n.plain]) :
    part.Yields registry t (registry.declared whole n) := by
  have hyields := ht.yields h
  obtain ⟨child, hchild, hplain⟩ := List.map_eq_singleton_iff.mp hchildren
  have hdeclared : registry.declared t child = registry.declared whole n := by
    rw [Registry.declared, Registry.declared, hplain, h.outcome_congr hpath]
  rw [h.outcome_unit hroot, hchild, List.flatMap_singleton, List.flatMap_singleton,
    hdeclared] at hyields
  exact hyields

/--
Under built-in rules a unit whose spans are all given comes to what its declarations come to one by
one, each alone below the root.
-/
theorem yields_by_branch (d : Document) (hd : d.Valid)
    (hroot : d.rows.head?.map Row.kind = some .compilationUnit)
    (hspans : ∀ row ∈ d.rows, row.span ≠ none)
    (calls : List Registry.Call) (hcalls : ∀ c ∈ calls, c.rule ∈ Rule.catalogue) :
    let registry := (Registry.empty.replay [] calls).1
    ∃ t sink sinks, d.Yields registry t sink ∧
      List.Forall₂ (fun n part => part.Valid ∧ part.path = d.path ∧ ∃ t', part.toTree = .ok t' ∧
        t'.root.children.map Node.shape = [n.shape]) t.root.children d.byBranch ∧
      List.Forall₂ (fun part own => ∃ t', part.Yields registry t' own) d.byBranch sinks ∧
      sink.diagnostics = sinks.flatMap Sink.diagnostics ∧
      sink.failures = sinks.flatMap Sink.failures := by
  intro registry
  have hregistry := Registry.fromCatalogue_replay hcalls
  obtain ⟨t, ht⟩ := hd.planted
  have hunit : t.root.kind = .compilationUnit :=
    Option.some.inj ((ht.kind_root hd).symm.trans hroot)
  have hparts := ht.children_byBranch hd hspans
  have hyields := ht.yields hregistry
  rw [hregistry.outcome_unit hunit] at hyields
  refine ⟨t, _, t.root.children.map (registry.declared t), hyields, ?_, ?_, ?_, ?_⟩
  · refine hparts.imp ?_
    rintro n part ⟨hvalid, hpath, t', ht', -, hplain⟩
    exact ⟨hvalid, hpath, t', ht'.toTree, Node.map_shape_of_map_plain hplain⟩
  · rw [List.forall₂_map_right_iff]
    refine (hparts.imp ?_).flip
    rintro n part ⟨-, hpath, t', ht', hkind, hplain⟩
    have htree : t'.path = t.path := by rw [ht'.path, hpath, ht.path]
    exact ⟨t', ht'.yields_declared hregistry htree (hkind.trans hunit) hplain⟩
  · rw [List.flatMap_map]
  · rw [List.flatMap_map]

theorem yields_by_branch_class_and_struct :
    let unit : Row := ⟨.compilationUnit, none, none, none, none, some ⟨0, 60, 1, 0⟩⟩
    let clazz : Row := ⟨.classDeclaration, some 0, none, some "OrderManager", none,
      some ⟨0, 30, 1, 0⟩⟩
    let block : Row := ⟨.block, some 1, some "", none, none, some ⟨22, 24, 1, 22⟩⟩
    let struct : Row := ⟨.structDeclaration, some 0, none, some "Point", none, some ⟨31, 60, 2, 0⟩⟩
    let modifier : Row := ⟨.modifier, some 3, some "public", none, none, some ⟨31, 37, 2, 0⟩⟩
    let d : Document := ⟨"a.cs", [unit, clazz, block, struct, modifier]⟩
    let calls := Rule.catalogue.map Registry.Call.registerRule
    let registry := (Registry.empty.replay [] calls).1
    d.Valid ∧
      d.byBranch = [⟨"a.cs", [unit, clazz, block]⟩,
        ⟨"a.cs", [unit, struct, { modifier with parent := some 1 }]⟩] ∧
      ∃ t sink sinks, d.Yields registry t sink ∧
        List.Forall₂ (fun part own => ∃ t', part.Yields registry t' own) d.byBranch sinks ∧
        sink.diagnostics = sinks.flatMap Sink.diagnostics := by
  intro unit clazz block struct modifier d calls registry
  have hd : d.Valid := by
    refine ⟨by simp [d], rfl, ?_⟩
    simp [d, unit, clazz, block, struct, modifier, isSound_iff]
  have hspans : ∀ row ∈ d.rows, row.span ≠ none := by
    simp [d, unit, clazz, block, struct, modifier]
  have hcalls : ∀ c ∈ calls, c.rule ∈ Rule.catalogue := by
    intro c hc
    obtain ⟨rule, hrule, rfl⟩ := List.mem_map.mp hc
    exact hrule
  obtain ⟨t, sink, sinks, hwhole, -, hparts, hdiagnostics, -⟩ :=
    yields_by_branch d hd rfl hspans calls hcalls
  exact ⟨hd, rfl, t, sink, sinks, hwhole, hparts, hdiagnostics⟩

end Document

end TreeLint
