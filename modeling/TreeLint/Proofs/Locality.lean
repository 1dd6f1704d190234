import TreeLint.Proofs.Dispatch
import TreeLint.Proofs.Ledger
import TreeLint.Proofs.Recasting

namespace TreeLint

namespace Node

mutual

def plain : Node → Node
  | mk _ kind label children => mk 0 kind label (plains children)

def plains : List Node → List Node
  | [] => []
  | n :: rest => n.plain :: plains rest

end

theorem plains_eq_map (ns : List Node) : plains ns = ns.map plain := by
  induction ns with
  | nil => rfl
  | cons n rest ih => rw [plains, ih, List.map_cons]

end Node

def Recast.blank : Recast :=
  ⟨fun _ => 0, id⟩

namespace Node

mutual

theorem plain_eq_recast (n : Node) : n.plain = n.recast .blank := by
  match n with
  | mk serial kind label children =>
    rw [plain, recast, plains_eq_recastAll children]
    rfl

theorem plains_eq_recastAll (ns : List Node) : plains ns = recastAll .blank ns := by
  match ns with
  | [] => rfl
  | n :: rest => rw [plains, recastAll, plain_eq_recast n, plains_eq_recastAll rest]

end

theorem text_plain (n : Node) : n.plain.text = n.text := by
  rw [plain_eq_recast, text_recast]

end Node

def Enclosing.plain (e : Enclosing) : Enclosing :=
  { e with serial := 0 }

namespace Site

def plain (s : Site) : Site :=
  ⟨s.node.plain, s.above.map Enclosing.plain⟩

theorem plain_eq_recast (s : Site) : s.plain = s.recast .blank := by
  rw [plain, Node.plain_eq_recast]
  rfl

theorem map_plain_preorderOf (above : List Enclosing) (n : Node) :
    (preorderOf above n).map plain = preorderOf (above.map Enclosing.plain) n.plain := by
  rw [Node.plain_eq_recast, funext plain_eq_recast, map_recast_preorderOf]
  rfl

end Site

theorem Judgement.interruption?_verdict (j : Judgement) : j.verdict.interruption? = none := by
  match j with
  | .ok none => rfl
  | .ok (some f) => rfl
  | .error fault => rfl

def Diagnostic.recast (c : Recast) (x : Diagnostic) : Diagnostic :=
  { x with location := c.span x.location }

def Failure.recast (c : Recast) (f : Failure) : Failure :=
  { f with location := c.span f.location }

def Sink.recast (c : Recast) (s : Sink) : Sink :=
  ⟨s.diagnostics.map (Diagnostic.recast c), s.failures.map (Failure.recast c)⟩

theorem Sink.recast_blank (s : Sink) : s.recast .blank = s := by
  have hdiagnostic : Diagnostic.recast .blank = id := rfl
  have hfailure : Failure.recast .blank = id := rfl
  rw [recast, hdiagnostic, hfailure, List.map_id, List.map_id]

namespace Duty

def recast (c : Recast) (d : Duty) : Duty :=
  ⟨d.site.recast c, d.rule⟩

variable {d : Duty} (c : Recast) {t t' : Tree}

theorem verdict_recast (t t' : Tree) (h : d.rule.Follows) :
    (d.recast c).verdict t = (d.verdict t').recast c :=
  h c t t' d.site

theorem diagnostic?_recast (ht : t.path = t'.path) (h : d.rule.Follows) :
    (d.recast c).diagnostic? t = (d.diagnostic? t').map (Diagnostic.recast c) := by
  rw [diagnostic?, diagnostic?, verdict_recast c t t' h, ht]
  cases d.verdict t' <;> rfl

theorem failure_recast (errorType error : String) :
    (d.recast c).failure errorType error = (d.failure errorType error).recast c := by
  simp [failure, recast, Failure.recast]

theorem failure?_recast (t t' : Tree) (h : d.rule.Follows) :
    (d.recast c).failure? t = (d.failure? t').map (Failure.recast c) := by
  rw [failure?, failure?, verdict_recast c t t' h]
  cases d.verdict t' with
  | raise errorType text => cases text <;> simp [Verdict.recast, failure_recast]
  | _ => simp [Verdict.recast, failure_recast]

end Duty

namespace Rule

theorem interruption?_of_mem_catalogue :
    ∀ r ∈ catalogue, ∀ t s, (r.evaluate t s).interruption? = none := by
  simp [catalogue, builtin, Judgement.interruption?_verdict]

theorem evaluate_of_mem_catalogue :
    ∀ r ∈ catalogue, ∀ t t' s, r.evaluate t s = r.evaluate t' s := by
  simp [catalogue, builtin]

theorem strays_of_mem_catalogue : ∀ r ∈ catalogue, r.strays = [] := by
  simp [catalogue, builtin]

theorem not_has_compilationUnit : ∀ r ∈ catalogue, r.kinds.has .compilationUnit = false := by
  decide

theorem nodup_definition_catalogue : (catalogue.map definition).Nodup := by
  decide

end Rule

namespace Registry

def FromCatalogue (r : Registry) : Prop :=
  ∀ kind, ∀ rule ∈ r.rulesFor kind, rule ∈ Rule.catalogue ∧ rule.kinds.has kind

theorem fromCatalogue_replay {calls : List Call} (h : ∀ c ∈ calls, c.rule ∈ Rule.catalogue) :
    (empty.replay [] calls).1.FromCatalogue := by
  have hconsistent : Consistent calls := by
    intro c hc c' hc' he
    exact List.inj_on_of_nodup_map Rule.nodup_definition_catalogue (h c hc) (h c' hc') he
  have hreflects := reflects_empty.replay hconsistent (by simp [Ledger.Admits])
  intro kind rule hrule
  rw [hreflects.rulesFor_eq] at hrule
  have hw := Ledger.mem_rulesFor.mp hrule
  rcases mem_replay hw with hnil | ⟨c, hc, he⟩
  · simp at hnil
  · have he : rule = c.rule := he
    have hmem : rule ∈ Rule.catalogue := he ▸ h c hc
    have hdeclares : rule.declares kind := hreflects.declared _ hw
    rw [Rule.declares_of_strays_nil (Rule.strays_of_mem_catalogue rule hmem)] at hdeclares
    exact ⟨hmem, hdeclares⟩

def outcome (r : Registry) (t : Tree) (sites : List Site) : Sink :=
  ⟨(r.duties sites).filterMap (Duty.diagnostic? t), (r.duties sites).filterMap (Duty.failure? t)⟩

variable {r : Registry}

theorem duties_map_recast (r : Registry) (c : Recast) (sites : List Site) :
    r.duties (sites.map (Site.recast c)) = (r.duties sites).map (Duty.recast c) := by
  simp [duties, List.flatMap_map, List.map_flatMap, Function.comp_def, Duty.recast]

theorem FromCatalogue.mem_catalogue (h : r.FromCatalogue) {sites : List Site} {d : Duty}
    (hd : d ∈ r.duties sites) : d.rule ∈ Rule.catalogue := by
  obtain ⟨s, -, hd⟩ := List.mem_flatMap.mp hd
  obtain ⟨rule, hrule, rfl⟩ := List.mem_map.mp hd
  exact (h s.kind rule hrule).1

theorem FromCatalogue.contained (h : r.FromCatalogue) {t : Tree} {sites : List Site} :
    Duty.Contained t (r.duties sites) := by
  intro d hd
  exact Rule.interruption?_of_mem_catalogue d.rule (h.mem_catalogue hd) t d.site

theorem FromCatalogue.outcome_map_recast (h : r.FromCatalogue) (c : Recast) {t t' : Tree}
    (ht : t.path = t'.path) (sites : List Site) :
    r.outcome t (sites.map (Site.recast c)) = (r.outcome t' sites).recast c := by
  rw [outcome, outcome, Sink.recast, duties_map_recast, List.filterMap_map, List.filterMap_map,
    List.map_filterMap, List.map_filterMap]
  congr 1
  · apply List.filterMap_congr
    intro d hd
    exact Duty.diagnostic?_recast c ht (Rule.follows_of_mem_catalogue d.rule (h.mem_catalogue hd))
  · apply List.filterMap_congr
    intro d hd
    exact Duty.failure?_recast c t t' (Rule.follows_of_mem_catalogue d.rule (h.mem_catalogue hd))

theorem FromCatalogue.outcome_map_plain (h : r.FromCatalogue) {t t' : Tree} (ht : t.path = t'.path)
    (sites : List Site) : r.outcome t (sites.map Site.plain) = r.outcome t' sites := by
  rw [funext Site.plain_eq_recast, h.outcome_map_recast _ ht, Sink.recast_blank]

theorem FromCatalogue.outcome_congr (h : r.FromCatalogue) {t t' : Tree} (ht : t.path = t'.path)
    (sites : List Site) : r.outcome t sites = r.outcome t' sites := by
  rw [← h.outcome_map_plain rfl sites, h.outcome_map_plain ht]

theorem FromCatalogue.duties_unit (h : r.FromCatalogue) {s : Site}
    (hs : s.kind = .compilationUnit) : r.duties [s] = [] := by
  have hrules : r.rulesFor .compilationUnit = [] := by
    rw [List.eq_nil_iff_forall_not_mem]
    intro rule hrule
    obtain ⟨hmem, hhas⟩ := h .compilationUnit rule hrule
    simp [Rule.not_has_compilationUnit rule hmem] at hhas
  simp [duties, hs, hrules]

end Registry

end TreeLint
