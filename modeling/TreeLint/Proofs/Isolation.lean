import TreeLint.Proofs.Dispatch
import TreeLint.Proofs.Registration

namespace TreeLint

def Tree.sitesWithin (t : Tree) (outside : List Enclosing) (kinds : List Kind) : List Site :=
  (t.site outside).walk.filter (·.node.isKind kinds)

theorem Site.isKind_toList (s : Site) (kinds : KindSet) :
    s.node.isKind kinds.toList = kinds.has s.kind := by
  rw [Bool.eq_iff_iff, ← KindSet.mem_toList]
  exact List.contains_iff_mem

namespace Rule

def duties (r : Rule) (sites : List Site) : List Duty :=
  sites.map (⟨·, r⟩)

def diagnostics (r : Rule) (t : Tree) (sites : List Site) : List Diagnostic :=
  (r.duties sites).filterMap (Duty.diagnostic? t)

def failures (r : Rule) (t : Tree) (sites : List Site) : List Failure :=
  (r.duties sites).filterMap (Duty.failure? t)

end Rule

namespace Duty

theorem ruleId_diagnostic? {t : Tree} {d : Duty} {x : Diagnostic}
    (h : d.diagnostic? t = some x) : x.ruleId = d.rule.id := by
  rw [diagnostic?] at h
  split at h
  · obtain rfl := Option.some.inj h
    rfl
  · simp at h

theorem ruleId_failure? {t : Tree} {d : Duty} {x : Failure} (h : d.failure? t = some x) :
    x.ruleId = d.rule.id := by
  rw [failure?] at h
  split at h
  · obtain rfl := Option.some.inj h
    rfl
  · obtain rfl := Option.some.inj h
    rfl
  · simp at h

theorem filter_filterMap_id {α : Type} (id : String) (f : Duty → Option α) (ruleId : α → String)
    (hf : ∀ d x, f d = some x → ruleId x = d.rule.id) (ds : List Duty) :
    (ds.filterMap f).filter (ruleId · == id) = (ds.filter (·.rule.id == id)).filterMap f := by
  induction ds with
  | nil => rfl
  | cons d rest ih =>
    cases hd : f d with
    | none => by_cases hid : d.rule.id = id <;> simp [hd, hid, ih]
    | some x =>
      have hx := hf d x hd
      by_cases hid : d.rule.id = id <;> simp [hd, hid, hx, ih]

end Duty

namespace Registry.Holds

variable {registry : Registry} {rules : List Rule}

theorem filter_duties (h : registry.Holds rules) {rule : Rule} (hrule : rule ∈ rules)
    (sites : List Site) :
    (registry.duties sites).filter (·.rule.id == rule.id) =
      rule.duties (sites.filter (·.node.isKind rule.kinds.toList)) := by
  induction sites with
  | nil => rfl
  | cons s rest ih =>
    have hhere : (registry.duties [s]).filter (·.rule.id == rule.id) =
        ([rule].filter (·.kinds.has s.kind)).map (⟨s, ·⟩) := by
      rw [← h.filter_id hrule]
      simp [duties, h.rulesFor_eq, List.filter_map, List.filter_filter, Function.comp_def,
        Bool.and_comm]
    rw [registry.duties_cons, List.filter_append, ih, hhere]
    have hkinds := s.isKind_toList rule.kinds
    by_cases hkind : rule.kinds.has s.kind
    · rw [hkind] at hkinds
      simp [Rule.duties, hkind, hkinds]
    · rw [Bool.not_eq_true] at hkind
      rw [hkind] at hkinds
      simp [Rule.duties, hkind, hkinds]

theorem filter_diagnostics (h : registry.Holds rules) {rule : Rule} (hrule : rule ∈ rules)
    (t : Tree) (sites : List Site) :
    ((registry.duties sites).filterMap (Duty.diagnostic? t)).filter (·.ruleId == rule.id) =
      rule.diagnostics t (sites.filter (·.node.isKind rule.kinds.toList)) := by
  rw [Duty.filter_filterMap_id rule.id _ Diagnostic.ruleId fun _ _ => Duty.ruleId_diagnostic?,
    h.filter_duties hrule]
  rfl

theorem filter_failures (h : registry.Holds rules) {rule : Rule} (hrule : rule ∈ rules)
    (t : Tree) (sites : List Site) :
    ((registry.duties sites).filterMap (Duty.failure? t)).filter (·.ruleId == rule.id) =
      rule.failures t (sites.filter (·.node.isKind rule.kinds.toList)) := by
  rw [Duty.filter_filterMap_id rule.id _ Failure.ruleId fun _ _ => Duty.ruleId_failure?,
    h.filter_duties hrule]
  rfl

theorem mem_duties (h : registry.Holds rules) {sites : List Site} {d : Duty} :
    d ∈ registry.duties sites ↔ d.rule ∈ rules ∧ d.site ∈ sites ∧ d.rule.kinds.has d.site.kind := by
  obtain ⟨s, rule⟩ := d
  simp only [duties, List.mem_flatMap, List.mem_map, h.rulesFor_eq, List.mem_filter, Duty.mk.injEq]
  constructor
  · rintro ⟨s', hs, rule', ⟨hrule, hkind⟩, rfl, rfl⟩
    exact ⟨hrule, hs, hkind⟩
  · rintro ⟨hrule, hs, hkind⟩
    exact ⟨s, hs, rule, ⟨hrule, hkind⟩, rfl, rfl⟩

theorem diagnostics_insert {other : Registry} {before after : List Rule} {rule : Rule}
    (h : registry.Holds (before ++ after)) (hother : other.Holds (before ++ rule :: after))
    {t : Tree} (hsilent : ∀ s, Duty.diagnostic? t ⟨s, rule⟩ = none) (sites : List Site) :
    (other.duties sites).filterMap (Duty.diagnostic? t) =
      (registry.duties sites).filterMap (Duty.diagnostic? t) := by
  induction sites with
  | nil => rfl
  | cons s rest ih =>
    rw [registry.duties_cons, other.duties_cons, List.filterMap_append, List.filterMap_append, ih]
    congr 1
    by_cases hkind : rule.kinds.has s.kind <;>
      simp [duties, h.rulesFor_eq, hother.rulesFor_eq, hkind, hsilent]

end Registry.Holds

def Pass.Adds (registry : Registry) (t : Tree) (outside : List Enclosing) (sink : Sink)
    (signal : Signal) (diagnostics : List Diagnostic) (failures : List Failure) : Prop :=
  ∃ p after, Pass.over registry t outside sink signal = .ok (p, after) ∧
    p.tally.cancelled = false ∧
    p.sink = ⟨sink.diagnostics ++ diagnostics, sink.failures ++ failures⟩

/--
On the nodes it listens to the rule is never stopped from outside, and each error it raises has a
text.
-/
def Rule.Proper (r : Rule) (t : Tree) (outside : List Enclosing) : Prop :=
  Duty.Contained t (r.duties (t.sitesWithin outside r.kinds.toList))

theorem Registry.Holds.adds {registry : Registry} {rules : List Rule} (h : registry.Holds rules)
    {t : Tree} (ht : t.Accepted) (outside : List Enclosing) (sink : Sink) {signal : Signal}
    (hsignal : signal.passes t.nodeCount = t.nodeCount) (hrules : ∀ r ∈ rules, r.Proper t outside) :
    let duties := registry.duties (t.site outside).preorder
    Pass.Adds registry t outside sink signal (duties.filterMap (Duty.diagnostic? t))
      (duties.filterMap (Duty.failure? t)) := by
  have hduties : Duty.Contained t (registry.duties (t.site outside).preorder) := by
    intro d hd
    obtain ⟨hrule, hsite, hkind⟩ := h.mem_duties.mp hd
    apply hrules d.rule hrule d
    rw [Rule.duties, List.mem_map]
    refine ⟨d.site, ?_, rfl⟩
    rw [Tree.sitesWithin, Site.walk_eq_preorder, List.mem_filter]
    exact ⟨hsite, by rwa [Site.isKind_toList]⟩
  exact ⟨_, _, Pass.over_of_passes ht outside sink hsignal hduties, rfl, rfl⟩

/--
Of what a pass adds, a rule accounts for what it says of the nodes of its kinds, whichever rules
stand before and behind it; and a rule that always raises changes no diagnostic. That holds among
rules whose errors all have a text: an error without one ends the pass.
-/
theorem Registry.isolation {rules rules' : List Rule} {registry registry' : Registry}
    (hregistry : Registry.ofRules rules = .ok registry)
    (hregistry' : Registry.ofRules rules' = .ok registry')
    (t : Tree) (ht : t.Accepted) (outside : List Enclosing) (sink sink' : Sink)
    (signal signal' : Signal) (hsignal : signal.passes t.nodeCount = t.nodeCount)
    (hsignal' : signal'.passes t.nodeCount = t.nodeCount)
    (hrules : ∀ r ∈ rules, r.Proper t outside) (hrules' : ∀ r ∈ rules', r.Proper t outside) :
    ∃ ds fs ds' fs',
      Pass.Adds registry t outside sink signal ds fs ∧
      Pass.Adds registry' t outside sink' signal' ds' fs' ∧
      (∀ r ∈ rules, ds.filter (·.ruleId == r.id) =
          r.diagnostics t (t.sitesWithin outside r.kinds.toList) ∧
        fs.filter (·.ruleId == r.id) = r.failures t (t.sitesWithin outside r.kinds.toList)) ∧
      (∀ r ∈ rules, r ∈ rules' →
        ds'.filter (·.ruleId == r.id) = ds.filter (·.ruleId == r.id) ∧
          fs'.filter (·.ruleId == r.id) = fs.filter (·.ruleId == r.id)) ∧
      (∀ before after r, rules = before ++ after → rules' = before ++ r :: after →
        (∀ s, ∃ errorType text, r.evaluate t s = .raise errorType (.ok text)) → ds' = ds) := by
  have hholds := Registry.holds_ofRules hregistry
  have hholds' := Registry.holds_ofRules hregistry'
  refine ⟨_, _, _, _, hholds.adds ht outside sink hsignal hrules,
    hholds'.adds ht outside sink' hsignal' hrules', ?_, ?_, ?_⟩
  · intro r hr
    rw [Tree.sitesWithin, Site.walk_eq_preorder]
    exact ⟨hholds.filter_diagnostics hr t _, hholds.filter_failures hr t _⟩
  · intro r hr hr'
    rw [hholds.filter_diagnostics hr, hholds'.filter_diagnostics hr', hholds.filter_failures hr,
      hholds'.filter_failures hr']
    exact ⟨rfl, rfl⟩
  · rintro before after r rfl rfl hraises
    apply hholds.diagnostics_insert hholds'
    intro s
    obtain ⟨errorType, text, hs⟩ := hraises s
    simp [Duty.diagnostic?, Duty.verdict, hs]

theorem Registry.isolation_raising_first :
    let span : Span := ⟨0, 1, 1, 0⟩
    let t : Tree := ⟨.mk 0 .block ⟨span, "x", none, none⟩ [], "a.cs", 1⟩
    let notes : Rule := ⟨0, "A1", "notes", .ofList [.block], [], "", .info, "c",
      fun _ s => .report (.at s.node "seen")⟩
    let fails : Rule := ⟨1, "B2", "fails", .ofList [.block, .modifier], [], "", .error, "c",
      fun _ _ => .raise "ValueError" (.ok "no")⟩
    ∃ registry registry' ds fs ds' fs',
      Registry.ofRules [notes] = .ok registry ∧ Registry.ofRules [fails, notes] = .ok registry' ∧
      Pass.Adds registry t [] .empty none ds fs ∧
      Pass.Adds registry' t [] .empty (some ⟨1, 0⟩) ds' fs' ∧
      ds' = ds ∧ ds.filter (·.ruleId == "A1") = [⟨"A1", "c", .info, span, "seen", "a.cs"⟩] := by
  intro span t notes fails
  have ht : t.Accepted := by
    let root : Draft := .node 0 (.known .block) ⟨span, "x", none, none⟩ []
    have hseen : Forest.inspect ⟨#[none]⟩ [] [root] = .ok [0] := by
      simp [Forest.inspect, root, span, Forest.checkChildren]
    refine ⟨⟨#[none]⟩, root, ?_⟩
    simp only [Forest.accept, hseen]
    rfl
  have hnotes : notes.Proper t [] := by
    simp [Rule.Proper, Duty.Contained, Rule.duties, Duty.interruption?, Duty.verdict, notes,
      Verdict.interruption?]
  have hfails : fails.Proper t [] := by
    simp [Rule.Proper, Duty.Contained, Rule.duties, Duty.interruption?, Duty.verdict, fails,
      Verdict.interruption?]
  obtain ⟨ds, fs, ds', fs', hadds, hadds', hown, -, hraises⟩ :=
    @Registry.isolation [notes] [fails, notes] _ _ rfl rfl t ht [] .empty .empty none
      (some ⟨1, 0⟩) rfl rfl (by simpa using hnotes) (by simp [hnotes, hfails])
  have hsites : t.sitesWithin [] notes.kinds.toList = [t.site []] := by
    rw [Tree.sitesWithin, Site.walk_eq_preorder]
    rfl
  refine ⟨_, _, ds, fs, ds', fs', rfl, rfl, hadds, hadds', ?_, ?_⟩
  · exact hraises [] [notes] fails rfl rfl fun s => ⟨"ValueError", "no", rfl⟩
  · have hdiagnostics := (hown notes (by simp)).1
    rw [hsites] at hdiagnostics
    exact hdiagnostics

end TreeLint
