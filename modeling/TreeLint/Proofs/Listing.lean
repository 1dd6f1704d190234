import TreeLint.Document.Listing
import TreeLint.Proofs.Numbering
import TreeLint.Proofs.PreOrder

namespace TreeLint.Document

open Outline Site

def rowAt : Site × Option Nat → Row
  | (s, parent) =>
    ⟨s.kind, parent, some s.node.text, s.node.identifier, s.node.role, some s.node.span⟩

theorem eq_of_serial_eq {sites : List Site} (hserial : (sites.map (·.node.serial)).Nodup) {i j : Nat}
    {s r : Site} (hs : sites[i]? = some s) (hr : sites[j]? = some r)
    (he : s.node.serial = r.node.serial) : i = j := by
  apply (List.getElem?_inj (by simpa using (List.getElem?_eq_some_iff.mp hs).1) hserial).mp
  simp [hs, hr, he]

theorem lookup_visited_cons {sites : List Site} (hserial : (sites.map (·.node.serial)).Nodup)
    {visited : List (Nat × Nat)} {index : Nat} {s : Site} (hs : sites[index]? = some s)
    (hvisited : ∀ p r, p < index → sites[p]? = some r → visited.lookup r.node.serial = some p) :
    ∀ p r, p < index + 1 → sites[p]? = some r →
      ((s.node.serial, index) :: visited).lookup r.node.serial = some p := by
  intro p r hp hr
  rcases Nat.eq_or_lt_of_le (Nat.le_of_lt_succ hp) with rfl | hp
  · obtain rfl : s = r := by simpa [hs] using hr
    simp
  · have hne : r.node.serial ≠ s.node.serial := by
      intro he
      have := eq_of_serial_eq hserial hr hs he
      omega
    rw [List.lookup_cons, beq_false_of_ne hne]
    exact hvisited p r hp hr

theorem listSites_eq (sites : List Site) (hserial : (sites.map (·.node.serial)).Nodup)
    {visited : List (Nat × Nat)} {index : Nat} {rest : List Site} {ps : List (Option Nat)}
    (hrest : sites.drop index = rest)
    (hvisited : ∀ p r, p < index → sites[p]? = some r → visited.lookup r.node.serial = some p)
    (haround : List.Forall₂ (Around sites) rest ps)
    (hbefore : ∀ i p, ps[i]? = some (some p) → p < index + i) :
    listSites visited index rest = (rest.zip ps).map rowAt := by
  induction haround generalizing visited index with
  | nil => rfl
  | @cons s q rest ps hs _ ih =>
    obtain ⟨hself, hlater⟩ := getElem?_of_drop hrest
    have hparent : (s.above.head?.bind fun e => visited.lookup e.serial) = q := by
      cases q with
      | none =>
        have habove : s.above = [] := hs
        simp [habove]
      | some p =>
        obtain ⟨r, hr, habove⟩ := hs
        have hp : p < index := by simpa using hbefore 0 p rfl
        simpa [habove, inside] using hvisited p r hp hr
    rw [listSites, List.zip_cons_cons, List.map_cons, hparent]
    congr 1
    apply ih hlater
    · exact lookup_visited_cons hserial hself hvisited
    · intro i p hp
      have := hbefore (i + 1) p hp
      omega

theorem walk_eq_preorderOf (t : Tree) : t.walk = preorderOf [] t.root :=
  Site.walk_eq_preorder _

theorem forall₂_around_walk (t : Tree) :
    List.Forall₂ (Around t.walk) t.walk (t.root.outline.parents 0 none) := by
  rw [walk_eq_preorderOf]
  exact around_preorderOf _ [] [] [] t.root none (by simp) rfl

theorem children_at_walk {t : Tree} {i : Nat} {s : Site} (hs : t.walk[i]? = some s) :
    s.children = standingIn t.walk (t.root.outline.parents 0 none) i := by
  rw [walk_eq_preorderOf] at hs ⊢
  rw [← standingIn_preorderOf t.root [] none 0 i s (by simp) hs, Nat.zero_add]

theorem listTree_eq {t : Tree} (hserial : (t.walk.map (·.node.serial)).Nodup) :
    listTree t = (t.walk.zip (t.root.outline.parents 0 none)).map rowAt := by
  apply listSites_eq t.walk hserial rfl
  · intro p r hp
    omega
  · exact forall₂_around_walk t
  · intro i p hp
    rcases parents_before _ _ _ i p hp with h | h
    · simp at h
    · exact h.2

theorem map_parent_listTree {t : Tree} (hserial : (t.walk.map (·.node.serial)).Nodup) :
    (listTree t).map Row.parent = t.root.outline.parents 0 none := by
  have hsnd : Row.parent ∘ rowAt = Prod.snd := rfl
  rw [listTree_eq hserial, List.map_map, hsnd]
  exact List.map_snd_zip (forall₂_around_walk t).length_eq.ge

theorem checkOrder_listTree {t : Tree} (hserial : (t.walk.map (·.node.serial)).Nodup) :
    checkOrder (listTree t) = .ok () := by
  rw [checkOrder, map_parent_listTree hserial]
  exact checkParents_parents _

theorem filterMap_span_listTree {t : Tree} (hserial : (t.walk.map (·.node.serial)).Nodup) :
    (listTree t).filterMap Row.span = t.walk.map (·.node.span) := by
  have hspan : Row.span ∘ rowAt = some ∘ (fun s : Site => s.node.span) ∘ Prod.fst := rfl
  rw [listTree_eq hserial, List.filterMap_map, hspan, List.filterMap_eq_map, ← List.map_map,
    List.map_fst_zip (forall₂_around_walk t).length_eq.le]

theorem ofTree_eq_ok_iff {t : Tree} (hserial : (t.walk.map (·.node.serial)).Nodup)
    {d : Document} :
    ofTree t = .ok d ↔ (∀ s ∈ t.walk, spanFlaws s.node.span = []) ∧ d = ⟨t.path, listTree t⟩ := by
  have hfind : ((t.walk.map (·.node.span)).find? fun s => !(spanFlaws s).isEmpty) = none ↔
      ∀ s ∈ t.walk, spanFlaws s.node.span = [] := by simp
  rw [ofTree, filterMap_span_listTree hserial]
  split
  · next span hsome =>
    constructor
    · intro h
      cases h
    · rintro ⟨h, -⟩
      rw [hfind.mpr h] at hsome
      cases hsome
  · next hnone =>
    rw [checkOrder_listTree hserial]
    constructor
    · intro h
      exact ⟨hfind.mp hnone, (Except.ok.inj h).symm⟩
    · rintro ⟨-, rfl⟩
      rfl

theorem ofTree_of_spans {t : Tree} (hserial : (t.walk.map (·.node.serial)).Nodup)
    (h : ∀ s ∈ t.walk, spanFlaws s.node.span = []) : ofTree t = .ok ⟨t.path, listTree t⟩ :=
  (ofTree_eq_ok_iff hserial).mpr ⟨h, rfl⟩

end TreeLint.Document
