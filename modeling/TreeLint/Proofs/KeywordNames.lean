import TreeLint.Proofs.RowReports

namespace TreeLint

theorem Names.contextualKeyword_eq {s : Site} {exempt generic : Bool}
    (hexempt : s.parentIs keywordExemptParents = .ok exempt)
    (hgeneric : s.grandparentIs [.genericName] = .ok generic) :
    contextualKeyword s =
      .reportIf (contextualKeywords.contains s.node.name && !exempt && !generic &&
        !(s.node.name == setterValueKeyword && s.hasAncestor .setAccessorDeclaration))
        s.node contextualKeywordMessage := by
  unfold contextualKeyword
  rw [hexempt, hgeneric]
  dsimp only
  generalize contextualKeywords.contains s.node.name = word
  generalize (s.node.name == setterValueKeyword && s.hasAncestor .setAccessorDeclaration) = own
  cases word <;> cases exempt <;> cases generic <;> cases own <;> rfl

namespace Document

open Relation

def textAt (rows : List Row) (i : Nat) : String :=
  Text.phrase (frontierTexts rows i)

def nameAt (rows : List Row) (i : Nat) : String :=
  (rows[i]?.bind Row.identifier).getD (Text.trim (textAt rows i))

structure KeywordName (rows : List Row) (i : Nat) : Prop where
  word : nameAt rows i ∈ Names.contextualKeywords
  parent : ∀ p, StandsIn (rows.map Row.parent) i p →
    ∀ kind ∈ Names.keywordExemptParents, kindAt rows p ≠ some kind
  grandparent : ∀ p q, StandsIn (rows.map Row.parent) i p → StandsIn (rows.map Row.parent) p q →
    kindAt rows q ≠ some .genericName
  setter : nameAt rows i = Names.setterValueKeyword →
    ∀ p, TransGen (StandsIn (rows.map Row.parent)) i p →
      kindAt rows p ≠ some .setAccessorDeclaration

namespace Planted

variable {d : Document} {t : Tree}

theorem name_at (h : Planted d t) (hd : d.Valid) {i : Nat} {s : Site}
    (hs : t.walk[i]? = some s) : s.node.name = nameAt d.rows i := by
  obtain ⟨row, hrow⟩ := h.exists_row hs
  obtain ⟨span, -, hshows⟩ := h.shows_at hs hrow
  have hname : s.node.name = s.node.identifier.getD (Text.trim s.node.text) := rfl
  rw [hname, hshows.identifier, h.text_eq hd hs, nameAt, hrow]
  rfl

theorem above_at (h : Planted d t) {i : Nat} {s : Site} (hs : t.walk[i]? = some s) :
    (s.above = [] ∧ ∀ p, ¬ StandsIn (d.rows.map Row.parent) i p) ∨
      ∃ p r, t.walk[p]? = some r ∧ s.above = r.inside ∧
        ∀ q, StandsIn (d.rows.map Row.parent) i q ↔ q = p := by
  obtain ⟨row, hrow⟩ := h.exists_row hs
  have haround := h.around_at hs hrow
  have hp : (d.rows.map Row.parent)[i]? = some row.parent := by
    rw [List.getElem?_map, hrow, Option.map_some]
  cases hparent : row.parent with
  | none =>
    rw [hparent] at haround hp
    left
    exact ⟨haround, by simp [StandsIn, hp]⟩
  | some p =>
    rw [hparent] at haround hp
    obtain ⟨r, hr, habove⟩ := haround
    right
    exact ⟨p, r, hr, habove, by simp [StandsIn, hp, eq_comm]⟩

theorem parentIs_at (h : Planted d t) {i : Nat} {s : Site} (hs : t.walk[i]? = some s)
    (kinds : List Kind) : ∃ b, s.parentIs kinds = .ok b ∧
      (b ↔ ∃ p, StandsIn (d.rows.map Row.parent) i p ∧
        ∃ kind ∈ kinds, kindAt d.rows p = some kind) := by
  rcases h.above_at hs with ⟨habove, hnone⟩ | ⟨p, r, hr, habove, hp⟩
  · refine ⟨false, ?_, by simp [hnone]⟩
    rw [Site.parentIs, habove]
    rfl
  · refine ⟨kinds.contains r.kind, ?_, by simp [hp, h.kind_at hr]⟩
    rw [Site.parentIs, habove]
    rfl

theorem grandparentIs_at (h : Planted d t) {i : Nat} {s : Site} (hs : t.walk[i]? = some s)
    (kinds : List Kind) : ∃ b, s.grandparentIs kinds = .ok b ∧
      (b ↔ ∃ p q, StandsIn (d.rows.map Row.parent) i p ∧ StandsIn (d.rows.map Row.parent) p q ∧
        ∃ kind ∈ kinds, kindAt d.rows q = some kind) := by
  rcases h.above_at hs with ⟨habove, hnone⟩ | ⟨p, r, hr, habove, hp⟩
  · refine ⟨false, ?_, by simp [hnone]⟩
    rw [Site.grandparentIs, habove]
    rfl
  · obtain ⟨b, hb, hiff⟩ := h.parentIs_at hr kinds
    refine ⟨b, ?_, by simp [hp, hiff]⟩
    rw [Site.grandparentIs, habove]
    exact hb

theorem hasAncestor_at (h : Planted d t) (hd : d.Valid) {i : Nat} {s : Site}
    (hs : t.walk[i]? = some s) (kind : Kind) :
    s.hasAncestor kind ↔ ∃ p, TransGen (StandsIn (d.rows.map Row.parent)) i p ∧
      kindAt d.rows p = some kind := by
  -- up from row to row: the number of the row around a row is smaller than its own
  induction i using Nat.strongRecOn generalizing s with
  | _ i ih =>
    simp only [TransGen.head'_iff]
    rcases h.above_at hs with ⟨habove, hnone⟩ | ⟨p, r, hr, habove, hp⟩
    · simp [Site.hasAncestor, habove, hnone]
    · have hrest := ih p (hd.followsPath.lt_of_standsIn ((hp p).mpr rfl)) hr
      rw [Site.hasAncestor] at hrest ⊢
      simp [habove, Site.inside, hp, hrest, reflTransGen_iff_eq_or_transGen, or_and_right,
        exists_or, h.kind_at hr]

theorem contextualKeyword_at (h : Planted d t) (hd : d.Valid) {i : Nat} {s : Site}
    (hs : t.walk[i]? = some s) :
    t.Decides Names.contextualKeywordMessage (Names.contextualKeyword s) (some i)
      (KeywordName d.rows i) := by
  obtain ⟨exempt, hexempt, hparent⟩ := h.parentIs_at hs Names.keywordExemptParents
  obtain ⟨generic, hgeneric, hgrandparent⟩ := h.grandparentIs_at hs [.genericName]
  have hsetter := h.hasAncestor_at hd hs .setAccessorDeclaration
  apply Tree.Decides.reportIf rfl hs (Names.contextualKeyword_eq hexempt hgeneric)
  rw [h.name_at hd hs]
  simp only [Bool.and_eq_true, Bool.not_eq_true', ← Bool.not_eq_true, hparent, hgrandparent,
    hsetter, beq_iff_eq, List.contains_iff_mem]
  push Not
  constructor
  · rintro ⟨⟨⟨hword, hparent⟩, hgrandparent⟩, hsetter⟩
    exact ⟨hword, hparent, fun p q hp hq => hgrandparent p q hp hq _ (by simp), hsetter⟩
  · rintro ⟨hword, hparent, hgrandparent, hsetter⟩
    refine ⟨⟨⟨hword, hparent⟩, ?_⟩, hsetter⟩
    intro p q hp hq kind hkind
    rw [List.mem_singleton.mp hkind]
    exact hgrandparent p q hp hq

end Planted

/-- The names that are reported are read off the rows alone, each once and in their order. -/
theorem keyword_names_reported (d : Document) (hd : d.Valid) :
    ∃ t sink positions, d.Yields Registry.builtin t sink ∧
      t.Reports sink.diagnostics "SEV002" Names.contextualKeywordMessage some positions ∧
      ∀ i, i ∈ positions ↔ kindAt d.rows i = some .identifierName ∧ KeywordName d.rows i := by
  obtain ⟨t, h⟩ := hd.planted
  have hrule : Rule.catalogue[1] ∈ Rule.catalogue := List.getElem_mem _
  obtain ⟨sink, positions, hyields, hreports, hmem⟩ :=
    h.exists_reports hrule rfl (fun _ _ => rfl) fun _ _ => h.contextualKeyword_at hd
  exact ⟨t, sink, positions, hyields, hreports, hmem⟩

theorem keyword_names_reported_setter :
    let d : Document := ⟨"a.cs", [
      ⟨.identifierName, none, none, none, none, none⟩,
      ⟨.setAccessorDeclaration, some 0, none, none, none, none⟩,
      ⟨.block, some 1, some "", none, none, none⟩,
      ⟨.identifierName, some 2, some "value", none, none, none⟩,
      ⟨.expressionStatement, some 1, some "  value", none, none, none⟩,
      ⟨.identifierName, some 0, some "", some "value", none, none⟩,
      ⟨.genericName, some 0, some "", none, none, none⟩,
      ⟨.typeArgumentList, some 6, none, none, none, none⟩,
      ⟨.identifierName, some 7, some "var", none, none, none⟩]⟩
    d.Valid ∧ ∃ t sink positions, d.Yields Registry.builtin t sink ∧
      t.Reports sink.diagnostics "SEV002" Names.contextualKeywordMessage some positions ∧
      0 ∈ positions ∧ 5 ∈ positions ∧ 3 ∉ positions ∧ 8 ∉ positions := by
  intro d
  have hd : d.Valid := by
    refine ⟨by simp [d], rfl, ?_⟩
    simp [d]
  obtain ⟨t, sink, positions, hyields, hreports, hmem⟩ := keyword_names_reported d hd
  have hroot : ∀ p, ¬ StandsIn (d.rows.map Row.parent) 0 p := by
    intro p hp
    cases hp
  have htop : ∀ p, ¬ TransGen (StandsIn (d.rows.map Row.parent)) 0 p := by
    intro p hup
    obtain ⟨q, hq, -⟩ := TransGen.head'_iff.mp hup
    exact hroot q hq
  refine ⟨hd, t, sink, positions, hyields, hreports, ?_, ?_, ?_, ?_⟩
  · refine (hmem 0).mpr ⟨rfl, by decide +kernel, ?_, ?_, ?_⟩
    · intro p hp
      exact absurd hp (hroot p)
    · intro p q hp
      exact absurd hp (hroot p)
    · intro _ p hup
      exact absurd hup (htop p)
  · refine (hmem 5).mpr ⟨rfl, by decide +kernel, ?_, ?_, ?_⟩
    · intro p hp
      cases hp
      decide
    · intro p q hp hq
      cases hp
      exact absurd hq (hroot q)
    · intro _ p hup
      obtain ⟨q, hq, hrest⟩ := TransGen.head'_iff.mp hup
      cases hq
      rcases reflTransGen_iff_eq_or_transGen.mp hrest with rfl | hrest
      · decide
      · exact absurd hrest (htop p)
  · rw [hmem]
    rintro ⟨-, hname⟩
    exact hname.setter (by decide +kernel) 1 (.head rfl (.single rfl)) rfl
  · rw [hmem]
    rintro ⟨-, hname⟩
    exact hname.grandparent 7 6 rfl rfl rfl

end Document

end TreeLint
