import TreeLint.Proofs.Cancellation
import TreeLint.Proofs.Location
import TreeLint.Proofs.Loading
import TreeLint.Proofs.ProperTree

namespace TreeLint

namespace Judgement

def Answers (j : Judgement) : Prop :=
  ∃ found, j = .ok found

namespace Answers

theorem abstain : Answers (pure none) :=
  ⟨none, rfl⟩

theorem reportIf (fires : Bool) (n : Node) (message : String) :
    Answers (Judgement.reportIf fires n message) :=
  ⟨_, rfl⟩

theorem bind {α : Type} {x : Except AccessFault α} {f : α → Judgement} (hx : ∃ a, x = .ok a)
    (h : ∀ a, Answers (f a)) : Answers (x >>= f) := by
  obtain ⟨a, rfl⟩ := hx
  exact h a

theorem ite {p : Prop} [Decidable p] {j k : Judgement} (hj : p → Answers j) (hk : ¬ p → Answers k) :
    Answers (if p then j else k) := by
  split
  · next h => exact hj h
  · next h => exact hk h

end Answers

theorem eq_of_verdict {j : Judgement} {f : Finding} (h : j.verdict = .report f) :
    j = .ok (some f) := by
  match j with
  | .ok none => cases h
  | .ok (some found) =>
    cases h
    rfl
  | .error fault => cases h

end Judgement

namespace Site

def Placed (s : Site) : Prop :=
  ∀ e ∈ s.above, ∃ k, e.kind = .known k

theorem exists_enclosingIs (kinds : List Kind) {above : List Enclosing}
    (h : ∀ e ∈ above, ∃ k, e.kind = .known k) : ∃ b, enclosingIs kinds above.head? = .ok b := by
  cases above with
  | nil => exact ⟨false, rfl⟩
  | cons e rest =>
    obtain ⟨k, hk⟩ := h e List.mem_cons_self
    exact ⟨kinds.contains k, by rw [List.head?_cons, enclosingIs, hk, OuterKind.isAmong_known]⟩

namespace Placed

variable {s : Site}

theorem parentIs (h : s.Placed) (kinds : List Kind) : ∃ b, s.parentIs kinds = .ok b :=
  exists_enclosingIs kinds h

theorem grandparentIs (h : s.Placed) (kinds : List Kind) : ∃ b, s.grandparentIs kinds = .ok b :=
  exists_enclosingIs kinds fun e he => h e (List.mem_of_mem_tail he)

end Placed

theorem placed_of_mem_preorderOf {n : Node} {above : List Enclosing}
    (h : ∀ e ∈ above, ∃ k, e.kind = .known k) : ∀ s ∈ preorderOf above n, s.Placed := by
  induction n using Node.by_children generalizing above with
  | mk serial kind label children ih =>
    intro s hs
    rw [preorderOf, preordersOf_eq] at hs
    rcases List.mem_cons.mp hs with rfl | hs
    · exact h
    · obtain ⟨c, hc, hs⟩ := List.mem_flatMap.mp hs
      refine ih c hc (List.forall_mem_cons.mpr ⟨⟨kind, rfl⟩, h⟩) s hs

end Site

theorem Tree.placed_of_mem_walk {t : Tree} {s : Site} (hs : s ∈ t.walk) : s.Placed := by
  rw [Document.walk_eq_preorderOf] at hs
  exact Site.placed_of_mem_preorderOf (by simp) s hs

variable {s : Site}

theorem Declarations.answers_encapsulateField (s : Site) : (encapsulateField s).Answers :=
  .ite (fun _ => .abstain) fun _ => .ite (fun _ => .abstain) fun hne =>
    .bind (firstOf_of_ne_nil fun hnil => hne (List.isEmpty_iff.mpr hnil)) fun _ => .reportIf _ _ _

theorem Declarations.exists_initializerValue (member : Node) :
    ∃ value, initializerValue member = .ok value := by
  unfold initializerValue
  split
  · exact ⟨none, rfl⟩
  · next clause rest _ =>
    cases hvalue : clause.child? "value" with
    | some value => exact ⟨some value, rfl⟩
    | none =>
      cases hchildren : clause.children with
      | nil => exact ⟨none, rfl⟩
      | cons child more => exact ⟨some child, rfl⟩

theorem Declarations.exists_allNonzero (members : List Node) :
    ∃ fires, allNonzero members = .ok fires := by
  induction members with
  | nil => exact ⟨true, rfl⟩
  | cons member rest ih =>
    obtain ⟨value, hvalue⟩ := exists_initializerValue member
    rw [allNonzero, hvalue]
    cases value with
    | none => exact ⟨false, rfl⟩
    | some value =>
      simp only [bind, Except.bind]
      split
      · exact ⟨false, rfl⟩
      · exact ih

theorem Declarations.answers_enumDefaultValue (s : Site) : (enumDefaultValue s).Answers :=
  .bind (exists_allNonzero _) fun _ => .reportIf _ _ _

theorem Declarations.answers_preferClassOverStruct (s : Site) : (preferClassOverStruct s).Answers :=
  .reportIf true _ _

theorem Names.answers_contextualKeyword (h : s.Placed) : (contextualKeyword s).Answers :=
  .ite (fun _ => .abstain) fun _ => .bind (h.parentIs _) fun _ => .ite (fun _ => .abstain) fun _ =>
    .bind (h.grandparentIs _) fun _ => .ite (fun _ => .abstain) fun _ =>
      .ite (fun _ => .abstain) fun _ => .reportIf true _ _

theorem Names.answers_classesAreNouns (s : Site) : (classesAreNouns s).Answers := by
  unfold classesAreNouns
  split
  · exact .abstain
  · exact .reportIf _ _ _

theorem Statements.answers_blankCode (h : s.Placed) : (blankCode s).Answers :=
  .ite (fun _ => .abstain) fun _ => .bind (h.parentIs _) fun _ =>
    .ite (fun _ => .abstain) fun _ => .reportIf true _ _

theorem Statements.answers_toArrayInForeach (s : Site) : (toArrayInForeach s).Answers := by
  unfold toArrayInForeach
  split
  · exact .abstain
  · exact .reportIf _ _ _

theorem Statements.exists_child_of_report {f : Finding}
    (h : (toArrayInForeach s).verdict = .report f) : ∃ c ∈ s.node.children, f.location = c.span := by
  have hj := Judgement.eq_of_verdict h
  have hlocation := liesAt_toArrayInForeach s f hj
  cases hchild : s.node.child? "expression" with
  | none =>
    rw [toArrayInForeach, hchild] at hj
    cases hj
  | some expression =>
    rw [hchild] at hlocation
    exact ⟨expression, List.mem_of_find?_eq_some hchild, hlocation⟩

theorem Statements.answers_switchWithoutDefault (s : Site) : (switchWithoutDefault s).Answers :=
  .reportIf _ _ _

theorem Signatures.exists_typeName (n : Node) : ∃ name, typeName n = .ok name := by
  obtain ⟨head, hhead⟩ := firstOf_of_ne_nil (Text.pieces_ne_nil '<' n.text.toList)
  unfold typeName
  split
  · exact ⟨_, rfl⟩
  · exact ⟨_, rfl⟩
  · unfold genericTypeName
    split
    · exact ⟨_, rfl⟩
    · rw [hhead]
      exact ⟨_, rfl⟩
  · exact ⟨_, rfl⟩

theorem Signatures.answers_liskovSubstitution (h : s.Placed) : (liskovSubstitution s).Answers := by
  refine .bind (h.parentIs _) fun _ => .ite (fun _ => .abstain) fun _ =>
    .bind (exists_typeName _) fun _ => ?_
  split
  · exact .abstain
  · exact .bind (lastOf_of_ne_nil (Text.pieces_ne_nil '.' _)) fun _ => .reportIf _ _ _

theorem Signatures.answers_tooManyParameters (h : s.Placed) : (tooManyParameters s).Answers :=
  .bind (h.parentIs _) fun _ => .ite (fun _ => .abstain) fun _ => .reportIf _ _ _

theorem Signatures.answers_boolParameter (h : s.Placed) : (boolParameter s).Answers :=
  .bind (h.parentIs _) fun _ => .ite (fun _ => .abstain) fun _ => .reportIf _ _ _

theorem Throws.answers_genericExceptionType (h : s.Placed) : (genericExceptionType s).Answers :=
  .ite (fun _ => .abstain) fun _ => .bind (h.parentIs _) fun _ => .ite (fun _ => .abstain) fun _ =>
    .bind (h.grandparentIs _) fun _ => .reportIf _ _ _

theorem Throws.answers_exceptionWithoutContext (h : s.Placed) :
    (exceptionWithoutContext s).Answers :=
  .bind (h.parentIs _) fun _ => .ite (fun _ => .abstain) fun _ => .ite (fun _ => .abstain) fun hne =>
    .bind (firstOf_of_ne_nil fun hnil => hne (List.isEmpty_iff.mpr hnil)) fun _ => .reportIf _ _ _

def Finding.LocatedBy (f : Finding) (ruleId : String) (n : Node) : Prop :=
  if ruleId = "SEV006" then ∃ c ∈ n.children, f.location = c.span else f.location = n.span

namespace Rule

def Faultless (r : Rule) : Prop :=
  ∀ (t : Tree) (s : Site), s.Placed → r.evaluate t s = .abstain ∨ ∃ f, r.evaluate t s = .report f

theorem faultless_builtin {judge : Site → Judgement} {definition : Nat} {id name : String}
    {kinds : List Kind} {about : String} (h : ∀ s : Site, s.Placed → (judge s).Answers) :
    (builtin definition id name kinds about judge).Faultless := by
  intro t s hs
  obtain ⟨found, hfound⟩ := h s hs
  have hevaluate : (builtin definition id name kinds about judge).evaluate t s =
      Judgement.verdict (.ok found) := congrArg Judgement.verdict hfound
  rw [hevaluate]
  cases found with
  | none => exact .inl rfl
  | some f => exact .inr ⟨f, rfl⟩

theorem faultless_of_mem_catalogue : ∀ r ∈ catalogue, r.Faultless := by
  simp only [catalogue, List.forall_mem_cons]
  exact ⟨faultless_builtin fun s _ => Declarations.answers_encapsulateField s,
    faultless_builtin fun _ => Names.answers_contextualKeyword,
    faultless_builtin fun s _ => Names.answers_classesAreNouns s,
    faultless_builtin fun _ => Statements.answers_blankCode,
    faultless_builtin fun _ => Signatures.answers_liskovSubstitution,
    faultless_builtin fun s _ => Statements.answers_toArrayInForeach s,
    faultless_builtin fun s _ => Statements.answers_switchWithoutDefault s,
    faultless_builtin fun _ => Throws.answers_genericExceptionType,
    faultless_builtin fun _ => Throws.answers_exceptionWithoutContext,
    faultless_builtin fun s _ => Declarations.answers_enumDefaultValue s,
    faultless_builtin fun _ => Signatures.answers_tooManyParameters,
    faultless_builtin fun _ => Signatures.answers_boolParameter,
    faultless_builtin fun s _ => Declarations.answers_preferClassOverStruct s, by simp⟩

theorem has_foreachStatement_iff : ∀ r ∈ catalogue,
    r.kinds.has .foreachStatement ↔ r.id = "SEV006" := by
  decide

theorem evaluate_of_id : ∀ r ∈ catalogue, r.id = "SEV006" →
    ∀ t s, r.evaluate t s = (Statements.toArrayInForeach s).verdict := by
  simp [catalogue, builtin]

theorem locatedBy_of_mem_catalogue {r : Rule} (hr : r ∈ catalogue) {t : Tree} {s : Site}
    {f : Finding} (hkind : r.kinds.has s.kind) (hf : r.evaluate t s = .report f) :
    f.LocatedBy r.id s.node := by
  have hlocation := targets_of_mem_catalogue r hr t s f hkind hf
  unfold Finding.LocatedBy
  split
  · next hid =>
    rw [evaluate_of_id r hr hid] at hf
    exact Statements.exists_child_of_report hf
  · next hid =>
    have hne : s.kind ≠ .foreachStatement := by
      intro he
      exact hid ((has_foreachStatement_iff r hr).mp (he ▸ hkind))
    rwa [Site.target, if_neg hne] at hlocation

end Rule

namespace Registry

variable {r : Registry}

namespace FromCatalogue

theorem failures_eq_nil (h : r.FromCatalogue) {t : Tree} {sites : List Site}
    (hsites : ∀ s ∈ sites, s.Placed) : (r.duties sites).filterMap (Duty.failure? t) = [] := by
  apply List.filterMap_eq_nil_iff.mpr
  intro d hd
  have hplaced : d.site.Placed := by
    obtain ⟨s, hs, hd⟩ := List.mem_flatMap.mp hd
    obtain ⟨rule, -, rfl⟩ := List.mem_map.mp hd
    exact hsites s hs
  have hverdict := Rule.faultless_of_mem_catalogue d.rule (h.mem_catalogue hd) t d.site hplaced
  rw [← Duty.verdict] at hverdict
  unfold Duty.failure?
  rcases hverdict with habstain | ⟨f, hreport⟩
  · rw [habstain]
  · rw [hreport]

theorem exists_locatedBy (h : r.FromCatalogue) {t : Tree} {sites : List Site} {x : Diagnostic}
    (hx : x ∈ (r.outcome t sites).diagnostics) : ∃ s ∈ sites, ∃ rule ∈ r.rulesFor s.kind, ∃ f,
      rule.evaluate t s = .report f ∧ x = rule.sign t.path f ∧ f.LocatedBy rule.id s.node := by
  obtain ⟨s, hs, rule, hrule, f, hf, rfl⟩ := mem_diagnostics_outcome.mp hx
  obtain ⟨hmem, hkind⟩ := h s.kind rule hrule
  exact ⟨s, hs, rule, hrule, f, hf, rfl, Rule.locatedBy_of_mem_catalogue hmem hkind hf⟩

end FromCatalogue

end Registry

structure Pass.Clean (registry : Registry) (t : Tree) (sites : List Site) (sink : Sink)
    (p : Pass) : Prop where
  failures : p.sink.failures = sink.failures
  failed : p.tally.failures = 0
  diagnostics : p.sink.diagnostics = sink.diagnostics ++ (registry.outcome t sites).diagnostics
  reports : p.tally.reports = (registry.outcome t sites).diagnostics.length
  invocations : p.tally.invocations =
    p.tally.reports + ((registry.duties sites).filter (Duty.abstains t)).length

theorem Pass.CutAt.clean {registry : Registry} {t : Tree} {outside : List Enclosing} {sink : Sink}
    {n : Nat} {p : Pass} (h : CutAt registry t outside sink n p) (hregistry : registry.FromCatalogue)
    (hsites : ∀ s ∈ (t.site outside).preorder, s.Placed) :
    p.Clean registry t ((t.site outside).preorder.take n) sink := by
  have hnone := hregistry.failures_eq_nil (t := t) fun s hs =>
    hsites s (List.mem_of_mem_take (i := n) hs)
  have hfailures := h.failures
  rw [hnone, List.append_nil] at hfailures
  have hfailed := h.failed
  rw [hfailures] at hfailed
  have hreports := h.reports
  rw [h.diagnostics, List.length_append] at hreports
  have hcontained : Duty.Contained t (registry.duties ((t.site outside).preorder.take n)) :=
    hregistry.contained
  have hlength := Duty.length_eq hcontained
  rw [hnone, List.length_nil] at hlength
  refine ⟨hfailures, by omega, h.diagnostics, Nat.add_left_cancel hreports, ?_⟩
  rw [h.invocations, hlength, Nat.add_left_cancel hreports]
  rfl

namespace Document

/--
Under built-in rules no document leads to a failure, wherever the pass over its tree is stopped. Each
rule that is asked abstains or reports, and reports at the node or, of a loop, at one of its children.
-/
theorem pass_faultless (d : Document) (hd : d.Valid) (calls : List Registry.Call)
    (hcalls : ∀ c ∈ calls, c.rule ∈ Rule.catalogue) (sink : Sink) (signal : Signal) :
    let registry := (Registry.empty.replay [] calls).1
    ∃ t p left, d.toTree = .ok t ∧ Pass.over registry t [] sink signal = .ok (p, left) ∧
      (∀ rule ∈ Rule.catalogue, ∀ s ∈ t.walk,
        rule.evaluate t s = .abstain ∨ ∃ f, rule.evaluate t s = .report f) ∧
      p.tally.visited = signal.passes d.rows.length ∧
      let sites := t.walk.take p.tally.visited
      p.Clean registry t sites sink ∧
      ∀ x ∈ (registry.outcome t sites).diagnostics,
        ∃ s ∈ sites, ∃ rule ∈ registry.rulesFor s.kind, ∃ f,
          rule.evaluate t s = .report f ∧ x = rule.sign t.path f ∧ f.LocatedBy rule.id s.node := by
  intro registry
  have hregistry : registry.FromCatalogue := Registry.fromCatalogue_replay hcalls
  obtain ⟨t, h⟩ := hd.planted
  have ht : t.Accepted := ⟨_, _, accept_of_toTree h.toTree⟩
  have hwalk : (t.site []).preorder = t.walk := (t.site []).walk_eq_preorder.symm
  have hplaced : ∀ s ∈ t.walk, s.Placed := fun _ => Tree.placed_of_mem_walk
  obtain ⟨p, left, hover, hcut⟩ : ∃ p left, Pass.over registry t [] sink signal = .ok (p, left) ∧
      Pass.CutAt registry t [] sink (signal.passes t.nodeCount) p :=
    ⟨_, _, Pass.over_eq_cut ht [] sink signal hregistry.contained,
      Pass.cutAt_cut registry ht [] sink (signal.passes_le t.nodeCount)⟩
  have hclean := hcut.clean hregistry (hwalk ▸ hplaced)
  rw [hwalk, ← hcut.visited] at hclean
  refine ⟨t, p, left, h.toTree, hover, ?_, ?_, hclean, ?_⟩
  · intro rule hrule s hs
    exact Rule.faultless_of_mem_catalogue rule hrule t s (hplaced s hs)
  · rw [← h.count]
    exact hcut.visited
  · intro x hx
    exact hregistry.exists_locatedBy hx

theorem pass_faultless_bare_nodes :
    let d : Document := ⟨"a.cs", [
      ⟨.structDeclaration, none, none, none, none, none⟩,
      ⟨.fieldDeclaration, some 0, none, none, none, none⟩,
      ⟨.foreachStatement, some 0, none, none, none, none⟩,
      ⟨.enumDeclaration, some 0, none, none, none, none⟩,
      ⟨.enumMemberDeclaration, some 3, none, none, none, none⟩,
      ⟨.equalsValueClause, some 4, none, none, none, none⟩,
      ⟨.genericName, some 5, none, none, none, none⟩]⟩
    let registry := (Registry.empty.replay [] (Rule.catalogue.map .registerRule)).1
    d.Valid ∧ ∃ t p left, d.toTree = .ok t ∧
      Pass.over registry t [] .empty (some ⟨6, 0⟩) = .ok (p, left) ∧
      p.tally.visited = 6 ∧ p.tally.failures = 0 ∧ p.sink.failures = [] := by
  intro d registry
  have hd : d.Valid := by
    refine ⟨by simp [d], rfl, ?_⟩
    simp [d]
  have hcalls : ∀ c ∈ Rule.catalogue.map Registry.Call.registerRule, c.rule ∈ Rule.catalogue := by
    intro c hc
    obtain ⟨rule, hrule, rfl⟩ := List.mem_map.mp hc
    exact hrule
  obtain ⟨t, p, left, ht, hover, -, hvisited, hclean, -⟩ :=
    pass_faultless d hd _ hcalls .empty (some ⟨6, 0⟩)
  exact ⟨hd, t, p, left, ht, hover, hvisited, hclean.failed, hclean.failures⟩

end Document

end TreeLint
