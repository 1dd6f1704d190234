import TreeLint.Proofs.Locality

namespace TreeLint

namespace Judgement

def LiesAt (n : Node) (j : Judgement) : Prop :=
  ∀ f, j = .ok (some f) → f.location = n.span

namespace LiesAt

variable {n : Node}

theorem abstain : LiesAt n (pure none) := by
  intro f hf
  cases hf

theorem reportIf (fires : Bool) (message : String) :
    LiesAt n (Judgement.reportIf fires n message) := by
  intro f hf
  cases fires with
  | false => cases hf
  | true =>
    cases hf
    rfl

theorem bind {α : Type} {x : Except AccessFault α} {f : α → Judgement}
    (h : ∀ a, LiesAt n (f a)) : LiesAt n (x >>= f) := by
  cases x with
  | error fault =>
    intro f hf
    cases hf
  | ok a => exact h a

theorem ite {p : Prop} [Decidable p] {j k : Judgement} (hj : LiesAt n j) (hk : LiesAt n k) :
    LiesAt n (if p then j else k) := by
  split
  · exact hj
  · exact hk

end LiesAt

end Judgement

variable (s : Site)

theorem Declarations.liesAt_encapsulateField : (encapsulateField s).LiesAt s.node :=
  .ite .abstain (.ite .abstain (.bind fun _ => .reportIf _ _))

theorem Declarations.liesAt_enumDefaultValue : (enumDefaultValue s).LiesAt s.node :=
  .bind fun _ => .reportIf _ _

theorem Declarations.liesAt_preferClassOverStruct : (preferClassOverStruct s).LiesAt s.node :=
  .reportIf true _

theorem Names.liesAt_contextualKeyword : (contextualKeyword s).LiesAt s.node :=
  .ite .abstain (.bind fun _ => .ite .abstain (.bind fun _ => .ite .abstain
    (.ite .abstain (.reportIf true _))))

theorem Names.liesAt_classesAreNouns : (classesAreNouns s).LiesAt s.node := by
  unfold classesAreNouns
  split
  · exact .abstain
  · exact .reportIf _ _

theorem Statements.liesAt_blankCode : (blankCode s).LiesAt s.node :=
  .ite .abstain (.bind fun _ => .ite .abstain (.reportIf true _))

theorem Statements.liesAt_toArrayInForeach :
    (toArrayInForeach s).LiesAt ((s.node.child? "expression").getD s.node) := by
  unfold toArrayInForeach
  cases s.node.child? "expression" with
  | none => exact .abstain
  | some expression => exact .reportIf _ _

theorem Statements.liesAt_switchWithoutDefault : (switchWithoutDefault s).LiesAt s.node :=
  .reportIf _ _

theorem Signatures.liesAt_liskovSubstitution : (liskovSubstitution s).LiesAt s.node := by
  refine .bind fun _ => .ite .abstain (.bind fun _ => ?_)
  split
  · exact .abstain
  · exact .bind fun _ => .reportIf _ _

theorem Signatures.liesAt_tooManyParameters : (tooManyParameters s).LiesAt s.node :=
  .bind fun _ => .ite .abstain (.reportIf _ _)

theorem Signatures.liesAt_boolParameter : (boolParameter s).LiesAt s.node :=
  .bind fun _ => .ite .abstain (.reportIf _ _)

theorem Throws.liesAt_genericExceptionType : (genericExceptionType s).LiesAt s.node :=
  .ite .abstain (.bind fun _ => .ite .abstain (.bind fun _ => .reportIf _ _))

theorem Throws.liesAt_exceptionWithoutContext : (exceptionWithoutContext s).LiesAt s.node :=
  .bind fun _ => .ite .abstain (.ite .abstain (.bind fun _ => .reportIf _ _))

def Site.target (s : Site) : Node :=
  if s.kind = .foreachStatement then (s.node.child? "expression").getD s.node else s.node

theorem Site.target_eq_or_mem_children : s.target = s.node ∨ s.target ∈ s.node.children := by
  unfold target
  split
  · cases hchild : s.node.child? "expression" with
    | none => exact .inl rfl
    | some expression => exact .inr (List.mem_of_find?_eq_some hchild)
  · exact .inl rfl

namespace Rule

def Targets (r : Rule) : Prop :=
  ∀ (t : Tree) (s : Site) f, r.kinds.has s.kind → r.evaluate t s = .report f →
    f.location = s.target.span

theorem targets_builtin {judge : Site → Judgement} {definition : Nat} {id name : String}
    {kinds : List Kind} {about : String}
    (h : ∀ s : Site, s.kind ∈ kinds → (judge s).LiesAt s.target) :
    (builtin definition id name kinds about judge).Targets := by
  intro _ s f hkind hf
  have hf : (judge s).verdict = .report f := hf
  apply h s (KindSet.has_ofList.mp hkind)
  match hj : judge s with
  | .ok none => simp [Judgement.verdict, hj] at hf
  | .ok (some found) =>
    rw [hj] at hf
    cases hf
    rfl
  | .error fault => simp [Judgement.verdict, hj] at hf

theorem targets_at_node {judge : Site → Judgement} (h : ∀ s : Site, (judge s).LiesAt s.node)
    {definition : Nat} {id name : String} {kinds : List Kind} {about : String}
    (hkinds : .foreachStatement ∉ kinds) :
    (builtin definition id name kinds about judge).Targets := by
  apply targets_builtin
  intro s hs
  have hne : s.kind ≠ .foreachStatement := fun he => hkinds (he ▸ hs)
  rw [Site.target, if_neg hne]
  exact h s

theorem targets_of_mem_catalogue : ∀ r ∈ catalogue, r.Targets := by
  simp only [catalogue, List.forall_mem_cons]
  refine ⟨targets_at_node Declarations.liesAt_encapsulateField (by decide),
    targets_at_node Names.liesAt_contextualKeyword (by decide),
    targets_at_node Names.liesAt_classesAreNouns (by decide),
    targets_at_node Statements.liesAt_blankCode (by decide),
    targets_at_node Signatures.liesAt_liskovSubstitution (by decide),
    targets_builtin ?_,
    targets_at_node Statements.liesAt_switchWithoutDefault (by decide),
    targets_at_node Throws.liesAt_genericExceptionType (by decide),
    targets_at_node Throws.liesAt_exceptionWithoutContext (by decide),
    targets_at_node Declarations.liesAt_enumDefaultValue (by decide),
    targets_at_node Signatures.liesAt_tooManyParameters (by decide),
    targets_at_node Signatures.liesAt_boolParameter (by decide),
    targets_at_node Declarations.liesAt_preferClassOverStruct (by decide), by simp⟩
  intro s hs
  obtain hs : s.kind = .foreachStatement := by simpa using hs
  rw [Site.target, if_pos hs]
  exact Statements.liesAt_toArrayInForeach s

end Rule

theorem Duty.diagnostic?_eq_some {d : Duty} {t : Tree} {x : Diagnostic} :
    d.diagnostic? t = some x ↔ ∃ f, d.verdict t = .report f ∧ d.rule.sign t.path f = x := by
  unfold diagnostic?
  cases d.verdict t with
  | report f => simp [Rule.sign]
  | _ => simp

namespace Registry

variable {r : Registry}

theorem mem_diagnostics_outcome {t : Tree} {sites : List Site} {x : Diagnostic} :
    x ∈ (r.outcome t sites).diagnostics ↔ ∃ s ∈ sites, ∃ rule ∈ r.rulesFor s.kind, ∃ f,
      rule.evaluate t s = .report f ∧ rule.sign t.path f = x := by
  simp only [outcome, duties, List.mem_filterMap, List.mem_flatMap, List.mem_map,
    Duty.diagnostic?_eq_some]
  constructor
  · rintro ⟨d, ⟨s, hs, rule, hrule, rfl⟩, f, hf⟩
    exact ⟨s, hs, rule, hrule, f, hf⟩
  · rintro ⟨s, hs, rule, hrule, f, hf⟩
    exact ⟨⟨s, rule⟩, ⟨s, hs, rule, hrule, rfl⟩, f, hf⟩

theorem FromCatalogue.location_of_mem_outcome (h : r.FromCatalogue) {t : Tree}
    {sites : List Site} {x : Diagnostic} (hx : x ∈ (r.outcome t sites).diagnostics) :
    ∃ s ∈ sites, x.location = s.target.span := by
  obtain ⟨s, hs, rule, hrule, f, hf, rfl⟩ := mem_diagnostics_outcome.mp hx
  obtain ⟨hmem, hkind⟩ := h s.kind rule hrule
  exact ⟨s, hs, Rule.targets_of_mem_catalogue rule hmem t s f hkind hf⟩

end Registry

end TreeLint
