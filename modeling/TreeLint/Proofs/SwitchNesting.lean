import TreeLint.Proofs.Navigation
import TreeLint.Proofs.RowReports

namespace TreeLint

namespace Document

open Relation

theorem FollowsPath.lt_of_transGen {ps : List (Option Nat)} (h : FollowsPath ps) {i j : Nat}
    (hup : TransGen (StandsIn ps) j i) : i < j := by
  obtain ⟨p, hp, hpi⟩ := TransGen.head'_iff.mp hup
  exact Nat.lt_of_le_of_lt (h.le_of_reflTransGen hpi) (h.lt_of_standsIn hp)

def LacksDefault (rows : List Row) (i : Nat) : Prop :=
  ∀ j, i < j → kindAt rows j = some .defaultSwitchLabel → ¬ Encloses (rows.map Row.parent) i j

theorem LacksDefault.of_encloses {rows : List Row} (hrows : FollowsPath (rows.map Row.parent))
    {i j : Nat} (hi : LacksDefault rows i) (hij : i < j)
    (hj : Encloses (rows.map Row.parent) i j) : LacksDefault rows j := by
  intro k hjk hk hinner
  have houter := ((hrows.encloses_iff hjk).mp hinner).trans ((hrows.encloses_iff hij).mp hj)
  exact hi k (hij.trans hjk) hk ((hrows.encloses_iff (hij.trans hjk)).mpr houter)

namespace Planted

variable {d : Document} {t : Tree}

theorem exists_of_mem_descendants (h : Planted d t) {i : Nat} {a b : Site}
    (ha : t.walk[i]? = some a) (hb : b ∈ a.descendants) :
    ∃ j, i < j ∧ t.walk[j]? = some b ∧ Encloses (d.rows.map Row.parent) i j := by
  have hblock := hb
  rw [h.descendants_at ha, Site.blockAfter] at hblock
  obtain ⟨⟨r, q⟩, hmem, rfl⟩ := List.mem_map.mp hblock
  have hsite := (List.of_mem_zip ((List.takeWhile_sublist _).mem hmem)).1
  obtain ⟨m, hm⟩ := List.getElem?_of_mem hsite
  rw [List.getElem?_drop] at hm
  have hlt : i < i + 1 + m := by omega
  exact ⟨_, hlt, hm, (h.mem_descendants_iff hlt ha hm).mp hb⟩

theorem switchWithoutDefault_at (h : Planted d t) {i : Nat} {s : Site}
    (hs : t.walk[i]? = some s) :
    t.Decides Statements.switchWithoutDefaultMessage (Statements.switchWithoutDefault s) (some i)
      (LacksDefault d.rows i) := by
  apply Tree.Decides.reportIf rfl hs rfl
  rw [Bool.not_eq_true', List.any_eq_false]
  constructor
  · intro hnone j hij hkind hinside
    obtain ⟨b, hb, hkind⟩ := h.exists_site_of_kind hkind
    exact hnone b ((h.mem_descendants_iff hij hs hb).mpr hinside) (beq_iff_eq.mpr hkind)
  · intro hlacks b hb hkind
    obtain ⟨j, hij, hj, hinside⟩ := h.exists_of_mem_descendants hs hb
    exact hlacks j hij (eq_of_beq hkind ▸ h.kind_at hj) hinside

end Planted

/--
A switch is reported if no default label is in the block of rows behind it. With it are reported all
switches below it, so a switch that has its label spares those around it.
-/
theorem switches_reported (d : Document) (hd : d.Valid) :
    ∃ t sink positions, d.Yields Registry.builtin t sink ∧
      t.Reports sink.diagnostics "SEV007" Statements.switchWithoutDefaultMessage some positions ∧
      (∀ i, i ∈ positions ↔ kindAt d.rows i = some .switchStatement ∧ LacksDefault d.rows i) ∧
      (∀ i outer, t.walk[i]? = some outer → i ∈ positions →
        ∀ inner ∈ outer.descendants, inner.kind = .switchStatement →
          ∃ j ∈ positions, i < j ∧ t.walk[j]? = some inner) ∧
      ∀ j, kindAt d.rows j = some .switchStatement → j ∉ positions →
        ∀ i, TransGen (StandsIn (d.rows.map Row.parent)) j i → i ∉ positions := by
  obtain ⟨t, h⟩ := hd.planted
  have hrule : Rule.catalogue[6] ∈ Rule.catalogue := List.getElem_mem _
  obtain ⟨sink, positions, hyields, hreports, hmem⟩ :=
    h.exists_reports hrule rfl (fun _ _ => rfl) fun _ _ => h.switchWithoutDefault_at
  have hdown : ∀ i j, i < j → Encloses (d.rows.map Row.parent) i j →
      kindAt d.rows j = some .switchStatement → i ∈ positions → j ∈ positions := by
    intro i j hij hinside hkind hi
    exact (hmem j).mpr ⟨hkind, ((hmem i).mp hi).2.of_encloses hd.followsPath hij hinside⟩
  refine ⟨t, sink, positions, hyields, hreports, hmem, ?_, ?_⟩
  · intro i outer houter hi inner hinner hkind
    obtain ⟨j, hij, hj, hinside⟩ := h.exists_of_mem_descendants houter hinner
    exact ⟨j, hdown i j hij hinside (hkind ▸ h.kind_at hj) hi, hij, hj⟩
  · intro j hkind hj i hup hi
    have hij := hd.followsPath.lt_of_transGen hup
    exact hj (hdown i j hij ((hd.followsPath.encloses_iff hij).mpr hup) hkind hi)

theorem switches_reported_three_levels :
    let d : Document := ⟨"a.cs", [
      ⟨.switchStatement, none, none, none, none, none⟩,
      ⟨.switchStatement, some 0, none, none, none, none⟩,
      ⟨.switchStatement, some 1, none, none, none, none⟩,
      ⟨.block, some 2, none, none, none, none⟩,
      ⟨.switchSection, some 1, none, none, none, none⟩,
      ⟨.defaultSwitchLabel, some 4, some "default:", none, none, none⟩,
      ⟨.switchStatement, some 0, none, none, none, none⟩]⟩
    d.Valid ∧ ∃ t sink positions, d.Yields Registry.builtin t sink ∧
      t.Reports sink.diagnostics "SEV007" Statements.switchWithoutDefaultMessage some positions ∧
      2 ∈ positions ∧ 6 ∈ positions ∧ 1 ∉ positions ∧ 0 ∉ positions := by
  intro d
  have hd : d.Valid := by
    refine ⟨by simp [d], rfl, ?_⟩
    simp [d]
  obtain ⟨t, sink, positions, hyields, hreports, hmem, -, hup⟩ := switches_reported d hd
  have hlabel : 1 ∉ positions := by
    rw [hmem]
    rintro ⟨-, hlacks⟩
    exact hlacks 5 (by decide) rfl (by decide)
  have houter := hup 1 rfl hlabel 0 (.single rfl)
  have hinner : ∀ i, kindAt d.rows i = some .switchStatement →
      (∀ j < 7, i < j → kindAt d.rows j = some .defaultSwitchLabel →
        ¬ Encloses (d.rows.map Row.parent) i j) → i ∈ positions := by
    intro i hi hnone
    refine (hmem i).mpr ⟨hi, fun j hij hj => hnone j ?_ hij hj⟩
    obtain ⟨row, hrow, -⟩ := Option.map_eq_some_iff.mp hj
    exact (List.getElem?_eq_some_iff.mp hrow).1
  exact ⟨hd, t, sink, positions, hyields, hreports, hinner 2 rfl (by decide),
    hinner 6 rfl (by decide), hlabel, houter⟩

end Document

end TreeLint
