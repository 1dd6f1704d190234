import TreeLint.Proofs.Composition
import TreeLint.Proofs.Faultless
import TreeLint.Proofs.Frontier
import TreeLint.Proofs.Isolation
import TreeLint.Proofs.Revalidation

namespace TreeLint

theorem map_some_filterMap {α β : Type} (f : α → Option β) (l : List α) :
    (l.filterMap f).map some = (l.findIdxs fun a => (f a).isSome).map fun i => l[i]?.bind f := by
  have hfilter : (l.filterMap f).map some = (l.filter fun a => (f a).isSome).map f := by
    induction l with
    | nil => rfl
    | cons a rest ih => cases hf : f a <;> simp [hf, ih]
  have hat := congrArg (List.map (·.bind f)) (map_getElem?_findIdxs (fun a => (f a).isSome) l)
  rw [List.map_map, List.map_map] at hat
  rw [hfilter]
  exact hat.symm

namespace Rule

theorem sign_of_mem_catalogue : ∀ r ∈ catalogue, ∀ path f,
    r.sign path f = ⟨r.id, defaultCategory, .warning, f.location, f.message, path⟩ := by
  simp [catalogue, builtin, sign]

def report? (r : Rule) (t : Tree) (s : Site) : Option Diagnostic :=
  if r.kinds.has s.kind then Duty.diagnostic? t ⟨s, r⟩ else none

variable {r : Rule} {judge : Site → Judgement} {t : Tree} {s : Site}

theorem report?_eq_some_iff {x : Diagnostic} :
    r.report? t s = some x ↔
      r.kinds.has s.kind ∧ ∃ f, r.evaluate t s = .report f ∧ r.sign t.path f = x := by
  unfold report?
  split
  · next hkind => simp [hkind, Duty.diagnostic?_eq_some, Duty.verdict]
  · next hkind => simp [hkind]

theorem kind_of_report? {kind : Kind} (hkinds : r.kinds = .ofList [kind])
    (h : (r.report? t s).isSome) : s.kind = kind := by
  obtain ⟨x, hx⟩ := Option.isSome_iff_exists.mp h
  have hhas := (report?_eq_some_iff.mp hx).1
  rw [hkinds, KindSet.has_ofList] at hhas
  exact List.mem_singleton.mp hhas

theorem report?_of_report (hr : r ∈ catalogue) (hkinds : r.kinds = .ofList [s.kind])
    (hjudge : r.evaluate t s = (judge s).verdict) {n : Node} {message : String}
    (h : judge s = .report n message) :
    r.report? t s = some ⟨r.id, defaultCategory, .warning, n.span, message, t.path⟩ := by
  rw [report?_eq_some_iff, hkinds, KindSet.has_ofList, hjudge, h]
  exact ⟨List.mem_cons_self, .at n message, rfl, sign_of_mem_catalogue r hr t.path _⟩

theorem report?_of_abstain (hjudge : r.evaluate t s = (judge s).verdict)
    (h : judge s = .abstain) : r.report? t s = none := by
  rw [Option.eq_none_iff_forall_ne_some]
  intro x hx
  obtain ⟨-, f, hf, -⟩ := report?_eq_some_iff.mp hx
  rw [hjudge, h] at hf
  cases hf

theorem filter_outcome (hr : r ∈ catalogue) (t : Tree) (sites : List Site) :
    (Registry.builtin.outcome t sites).diagnostics.filter (·.ruleId == r.id) =
      sites.filterMap (r.report? t) := by
  have hfilter := Registry.holds_builtin.filter_diagnostics hr t sites
  rw [diagnostics, duties, List.filterMap_map, List.filterMap_filter] at hfilter
  apply hfilter.trans
  apply List.filterMap_congr
  intro s _
  rw [s.isKind_toList]
  rfl

end Rule

namespace Tree

def remarks (t : Tree) : List (Nat × Diagnostic) :=
  t.walk.zipIdx.flatMap fun e => (Registry.builtin.outcome t [e.1]).diagnostics.map (e.2, ·)

def reported (t : Tree) (id : String) : List Nat :=
  (t.remarks.filter (·.2.ruleId == id)).map Prod.fst

theorem map_snd_remarks (t : Tree) :
    t.remarks.map Prod.snd = (Registry.builtin.outcome t t.walk).diagnostics := by
  have hsites : t.walk = t.walk.zipIdx.flatMap fun e => [e.1] := by
    rw [← List.map_eq_flatMap, List.zipIdx_map_fst]
  conv_rhs => rw [hsites, Registry.outcome_flatMap]
  simp [remarks, List.map_flatMap, Function.comp_def]

theorem pairwise_remarks (t : Tree) : t.remarks.Pairwise (·.1 ≤ ·.1) := by
  have hpositions : t.walk.zipIdx.Pairwise (·.2 < ·.2) := by
    rw [← List.pairwise_map, List.zipIdx_map_snd]
    exact List.pairwise_lt_range'
  rw [remarks, List.pairwise_flatMap]
  constructor
  · intro e _
    rw [List.pairwise_map]
    exact List.pairwise_of_forall fun _ _ => Nat.le_refl e.2
  · refine hpositions.imp ?_
    intro e e' hlt x hx y hy
    obtain ⟨_, -, rfl⟩ := List.mem_map.mp hx
    obtain ⟨_, -, rfl⟩ := List.mem_map.mp hy
    exact Nat.le_of_lt hlt

theorem lt_of_getElem?_remarks {t : Tree} {a b i j : Nat} {x y : Diagnostic}
    (ha : t.remarks[a]? = some (i, x)) (hb : t.remarks[b]? = some (j, y)) (hij : i < j) :
    a < b := by
  by_contra hab
  rcases Nat.eq_or_lt_of_not_lt hab with rfl | hba
  · rw [ha] at hb
    cases hb
    exact Nat.lt_irrefl i hij
  · obtain ⟨hlta, hax⟩ := List.getElem?_eq_some_iff.mp ha
    obtain ⟨hltb, hby⟩ := List.getElem?_eq_some_iff.mp hb
    have hle := List.pairwise_iff_getElem.mp t.pairwise_remarks b a hltb hlta hba
    rw [hax, hby] at hle
    exact Nat.not_le_of_lt hij hle

theorem reported_eq {r : Rule} (hr : r ∈ Rule.catalogue) (t : Tree) :
    t.reported r.id = t.walk.findIdxs fun s => (r.report? t s).isSome := by
  rw [reported, remarks, List.filter_flatMap, List.map_flatMap, List.findIdxs_eq_filterMap_zipIdx,
    List.filterMap_eq_flatMap_toList]
  apply List.flatMap_congr
  intro e _
  have hown := Rule.filter_outcome hr t [e.1]
  rw [List.filter_map, List.map_map]
  simp only [Function.comp_def, hown]
  cases hreport : r.report? t e.1 <;> simp [hreport]

end Tree

def Tree.reportAt (t : Tree) (id message : String) (i : Nat) : Option Diagnostic :=
  t.walk[i]?.map fun s =>
    ⟨id, Rule.defaultCategory, .warning, s.node.span, message, t.path⟩

structure Tree.Reports (t : Tree) (ds : List Diagnostic) (id message : String)
    (place : Nat → Option Nat) (positions : List Nat) : Prop where
  rising : positions.Pairwise (· < ·)
  each : (ds.filter (·.ruleId == id)).map some =
    positions.map fun i => (place i).bind (t.reportAt id message)

inductive Tree.Decides (t : Tree) (message : String) (j : Judgement) (place : Option Nat)
    (fires : Prop) : Prop
  | abstain (hj : j = .abstain) (hrest : ¬ fires)
  | reportIf {i : Nat} {e : Site} {b : Bool} (hi : place = some i) (he : t.walk[i]? = some e)
    (hj : j = .reportIf b e.node message) (hb : b ↔ fires)

namespace Tree.Decides

variable {t : Tree} {message : String} {j : Judgement} {place : Option Nat} {fires : Prop}

theorem exists_report (h : t.Decides message j place fires) (hfires : fires) :
    ∃ i e, place = some i ∧ t.walk[i]? = some e ∧ j = .report e.node message := by
  cases h with
  | abstain hj hrest => exact absurd hfires hrest
  | reportIf hi he hj hb =>
    rw [hb.mpr hfires] at hj
    exact ⟨_, _, hi, he, hj⟩

theorem eq_abstain (h : t.Decides message j place fires) (hrest : ¬ fires) : j = .abstain := by
  cases h with
  | abstain hj _ => exact hj
  | reportIf _ _ hj hb =>
    rw [hj, Bool.eq_false_of_not_eq_true (mt hb.mp hrest)]
    rfl

end Tree.Decides

namespace Document

def kindAt (rows : List Row) (i : Nat) : Option Kind :=
  rows[i]?.map Row.kind

namespace Planted

variable {d : Document} {t : Tree}

theorem kind_at (h : Planted d t) {i : Nat} {s : Site} (hs : t.walk[i]? = some s) :
    kindAt d.rows i = some s.kind := by
  obtain ⟨row, hrow⟩ := h.exists_row hs
  obtain ⟨span, -, hshows⟩ := h.shows_at hs hrow
  rw [kindAt, hrow, Option.map_some, ← hshows.kind]
  rfl

theorem exists_site_of_kind (h : Planted d t) {i : Nat} {kind : Kind}
    (hi : kindAt d.rows i = some kind) : ∃ s, t.walk[i]? = some s ∧ s.kind = kind := by
  obtain ⟨row, hrow, -⟩ := Option.map_eq_some_iff.mp hi
  have hlt := (List.getElem?_eq_some_iff.mp hrow).1
  rw [← h.length_walk] at hlt
  have hs := List.getElem?_eq_getElem hlt
  exact ⟨_, hs, Option.some.inj ((h.kind_at hs).symm.trans hi)⟩

theorem yields_builtin (h : Planted d t) :
    d.Yields Registry.builtin t (Registry.builtin.outcome t t.walk) := by
  rw [Tree.walk, Site.walk_eq_preorder]
  exact h.yields Registry.fromCatalogue_builtin

theorem reports (h : Planted d t) {r : Rule} (hr : r ∈ Rule.catalogue) {kind : Kind}
    (hkinds : r.kinds = .ofList [kind]) {judge : Site → Judgement}
    (hjudge : ∀ t s, r.evaluate t s = (judge s).verdict) {message : String} {place : Nat → Option Nat}
    {fires : Nat → Prop}
    (hdecides : ∀ i s, t.walk[i]? = some s →
      t.Decides message (judge s) (place i) (fires i)) :
    t.Reports (Registry.builtin.outcome t t.walk).diagnostics r.id message place
        (t.reported r.id) ∧
      ∀ i, i ∈ t.reported r.id ↔ kindAt d.rows i = some kind ∧ fires i := by
  have hsays : ∀ i s, t.walk[i]? = some s → s.kind = kind → fires i →
      ∃ j e, place i = some j ∧ t.walk[j]? = some e ∧ r.report? t s =
        some ⟨r.id, Rule.defaultCategory, .warning, e.node.span, message, t.path⟩ := by
    rintro i s hs rfl hi
    obtain ⟨j, e, hj, he, hreport⟩ := (hdecides i s hs).exists_report hi
    exact ⟨j, e, hj, he, Rule.report?_of_report hr hkinds (hjudge t s) hreport⟩
  have hmem : ∀ i, i ∈ t.reported r.id ↔ kindAt d.rows i = some kind ∧ fires i := by
    intro i
    rw [Tree.reported_eq hr, List.mem_findIdxs_iff_exists_getElem_pos]
    constructor
    · rintro ⟨hi, hsome⟩
      have hs := List.getElem?_eq_getElem hi
      refine ⟨Rule.kind_of_report? hkinds hsome ▸ h.kind_at hs, ?_⟩
      by_contra hrest
      rw [Rule.report?_of_abstain (hjudge t _) ((hdecides i _ hs).eq_abstain hrest)] at hsome
      cases hsome
    · rintro ⟨hk, hi⟩
      obtain ⟨s, hs, hk⟩ := h.exists_site_of_kind hk
      obtain ⟨_, _, -, -, hsome⟩ := hsays i s hs hk hi
      obtain ⟨hlt, rfl⟩ := List.getElem?_eq_some_iff.mp hs
      exact ⟨hlt, Option.isSome_iff_exists.mpr ⟨_, hsome⟩⟩
  refine ⟨⟨?_, ?_⟩, hmem⟩
  · rw [Tree.reported_eq hr]
    exact List.pairwise_findIdxs
  · rw [Rule.filter_outcome hr, map_some_filterMap, ← Tree.reported_eq hr]
    apply List.map_congr_left
    intro i hi
    obtain ⟨hk, hi⟩ := (hmem i).mp hi
    obtain ⟨s, hs, hk⟩ := h.exists_site_of_kind hk
    obtain ⟨j, e, hj, he, hsome⟩ := hsays i s hs hk hi
    rw [hs, hj, Option.bind_some, Option.bind_some, hsome, Tree.reportAt, he, Option.map_some]

theorem exists_reports (h : Planted d t) {r : Rule} (hr : r ∈ Rule.catalogue) {kind : Kind}
    (hkinds : r.kinds = .ofList [kind]) {judge : Site → Judgement}
    (hjudge : ∀ t s, r.evaluate t s = (judge s).verdict) {message : String} {place : Nat → Option Nat}
    {fires : Nat → Prop}
    (hdecides : ∀ i s, t.walk[i]? = some s →
      t.Decides message (judge s) (place i) (fires i)) :
    ∃ sink positions, d.Yields Registry.builtin t sink ∧
      t.Reports sink.diagnostics r.id message place positions ∧
      ∀ i, i ∈ positions ↔ kindAt d.rows i = some kind ∧ fires i :=
  ⟨_, _, h.yields_builtin, h.reports hr hkinds hjudge hdecides⟩

end Planted

end Document

end TreeLint
