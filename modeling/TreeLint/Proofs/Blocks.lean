import Mathlib.Logic.Relation
import TreeLint.Proofs.OpenPath
import TreeLint.Proofs.Listing
import TreeLint.Proofs.Validity

/-!
What stands below a node, read off the numbers alone: the positions behind its own, up to the first
one whose number for the node around it is smaller.
-/

namespace TreeLint

theorem getElem?_takeWhile_eq_some_iff {α : Type} {p : α → Bool} {l : List α} {n : Nat} {a : α} :
    (l.takeWhile p)[n]? = some a ↔ l[n]? = some a ∧ ∀ m ≤ n, ∃ b, l[m]? = some b ∧ p b := by
  induction l generalizing n with
  | nil => simp
  | cons b l ih =>
    by_cases hb : p b
    · rw [List.takeWhile_cons_of_pos hb]
      cases n with
      | zero => simp [hb]
      | succ n =>
        rw [List.getElem?_cons_succ, List.getElem?_cons_succ, ih]
        refine and_congr_right fun _ => ⟨fun h m hm => ?_, fun h m hm => ?_⟩
        · cases m with
          | zero => exact ⟨b, rfl, hb⟩
          | succ m => exact h m (Nat.le_of_succ_le_succ hm)
        · exact h (m + 1) (Nat.succ_le_succ hm)
    · rw [List.takeWhile_cons_of_neg hb]
      constructor
      · simp
      · rintro ⟨-, h⟩
        obtain ⟨c, hc, hpc⟩ := h 0 (Nat.zero_le n)
        obtain rfl : b = c := by simpa using hc
        exact absurd hpc hb

namespace Site

open Outline

mutual

theorem drop_preorderOf (n : Node) (above : List Enclosing) (around : Option Nat) (index i : Nat)
    {s : Site} (hs : (preorderOf above n)[i]? = some s) :
    ∃ sites ps, (preorderOf above n).drop (i + 1) = s.descendants ++ sites ∧
      (n.outline.parents index around).drop (i + 1) =
        parentsOf (index + i + 1) (some (index + i)) (Node.outlines s.node.children) ++ ps ∧
      ∀ q, ps.head? = some q → q = around ∨ ∃ p, q = some p ∧ index ≤ p ∧ p < index + i := by
  match n, i with
  | .mk serial kind label children, 0 =>
    obtain rfl : ⟨.mk serial kind label children, above⟩ = s := by simpa [preorderOf] using hs
    refine ⟨[], [], ?_, ?_, by simp⟩
    · rw [List.append_nil, descendants, walk_eq_preorder, preorder, List.drop_one]
    · rw [List.append_nil, Node.outline, parents]
      rfl
  | .mk serial kind label children, i + 1 =>
    obtain ⟨sites, ps, hsites, hps, hhead⟩ := drop_preordersOf children
      (⟨serial, .known kind⟩ :: above) (some index) (index + 1) i hs
    refine ⟨sites, ps, hsites, ?_, ?_⟩
    · rw [show index + (i + 1) = index + 1 + i by omega]
      exact hps
    · intro q hq
      right
      rcases hhead q hq with rfl | ⟨p, rfl, hp⟩
      · exact ⟨index, rfl, by omega⟩
      · exact ⟨p, rfl, by omega⟩

theorem drop_preordersOf (ns : List Node) (above : List Enclosing) (around : Option Nat)
    (index i : Nat) {s : Site} (hs : (preordersOf above ns)[i]? = some s) :
    ∃ sites ps, (preordersOf above ns).drop (i + 1) = s.descendants ++ sites ∧
      (parentsOf index around (Node.outlines ns)).drop (i + 1) =
        parentsOf (index + i + 1) (some (index + i)) (Node.outlines s.node.children) ++ ps ∧
      ∀ q, ps.head? = some q → q = around ∨ ∃ p, q = some p ∧ index ≤ p ∧ p < index + i := by
  match ns with
  | [] => simp [preordersOf] at hs
  | n :: rest =>
    have hlen : (n.outline.parents index around).length = (preorderOf above n).length := by
      rw [parents_length, length_preorderOf]
    rw [preordersOf] at hs
    rw [preordersOf, Node.outlines, parentsOf]
    -- inside the first node what remains of it is followed by the nodes beside it, whose first
    -- number is `around`; behind it the whole node is dropped
    rcases Nat.lt_or_ge i (preorderOf above n).length with hi | hi
    · rw [List.getElem?_append_left hi] at hs
      obtain ⟨sites, ps, hsites, hps, hhead⟩ := drop_preorderOf n above around index i hs
      refine ⟨sites ++ preordersOf above rest,
        ps ++ parentsOf (index + n.outline.labels.length) around (Node.outlines rest), ?_, ?_, ?_⟩
      · rw [List.drop_append_of_le_length hi, hsites, List.append_assoc]
      · rw [List.drop_append_of_le_length (hlen ▸ hi), hps, List.append_assoc]
      · intro q hq
        cases ps with
        | cons p ps => exact hhead q hq
        | nil =>
          left
          cases rest with
          | nil => simp [Node.outlines, parentsOf] at hq
          | cons m rest =>
            obtain ⟨serial, kind, label, children⟩ := m
            exact (Option.some.inj hq).symm
    · obtain ⟨j, rfl⟩ := Nat.exists_eq_add_of_le hi
      rw [List.getElem?_append_right hi, Nat.add_sub_cancel_left] at hs
      obtain ⟨sites, ps, hsites, hps, hhead⟩ :=
        drop_preordersOf rest above around (index + n.outline.labels.length) j hs
      rw [length_preorderOf] at hlen ⊢
      refine ⟨sites, ps, ?_, ?_, ?_⟩
      · rw [Nat.add_assoc, ← length_preorderOf above n, List.drop_length_add_append, hsites]
      · rw [Nat.add_assoc _ j 1, ← hlen, List.drop_length_add_append, hlen, hps, Nat.add_assoc index]
      · intro q hq
        rcases hhead q hq with rfl | ⟨p, rfl, hp⟩
        · exact .inl rfl
        · exact .inr ⟨p, rfl, by omega⟩

end

theorem descendants_eq_preordersOf (s : Site) :
    s.descendants = preordersOf s.inside s.node.children := by
  rw [descendants_eq, preordersOf_eq, children_eq, List.flatMap_map]
  rfl

theorem length_preordersOf (above : List Enclosing) (ns : List Node) :
    (preordersOf above ns).length = (labelsOf (Node.outlines ns)).length := by
  rw [← map_node_preordersOf above ns, List.length_map]

def blockAfter (sites : List Site) (ps : List (Option Nat)) (i : Nat) : List Site :=
  (((sites.drop (i + 1)).zip (ps.drop (i + 1))).takeWhile (·.2.any (i ≤ ·))).map Prod.fst

theorem descendants_eq_blockAfter (n : Node) {i : Nat} {s : Site}
    (hs : (preorderOf [] n)[i]? = some s) :
    s.descendants = blockAfter (preorderOf [] n) (n.outline.parents 0 none) i := by
  obtain ⟨sites, ps, hsites, hps, hhead⟩ := drop_preorderOf n [] none 0 i hs
  rw [Nat.zero_add] at hps hhead
  have hlen : s.descendants.length =
      (parentsOf (i + 1) (some i) (Node.outlines s.node.children)).length := by
    rw [descendants_eq_preordersOf, length_preordersOf, parentsOf_length]
  have hinside : ∀ e ∈ s.descendants.zip
      (parentsOf (i + 1) (some i) (Node.outlines s.node.children)),
      e.2.any (i ≤ ·) = true := by
    rintro ⟨r, q⟩ he
    have hq := (List.of_mem_zip he).2
    cases q with
    | none => simpa using eq_none_of_mem_parentsOf _ hq
    | some p =>
      have hle : i ≤ p := by
        rcases mem_parentsOf hq with hp | hp
        · exact Nat.le_of_eq (Option.some.inj hp)
        · omega
      simpa using hle
  have hnext : (sites.zip ps).takeWhile (·.2.any (i ≤ ·)) = [] := by
    match sites, ps with
    | [], _ => rfl
    | _ :: _, [] => rfl
    | r :: sites, q :: ps =>
      rw [List.zip_cons_cons, List.takeWhile_cons_of_neg]
      rcases hhead q rfl with rfl | ⟨p, rfl, -, hp⟩
      · simp
      · simpa using hp
  rw [blockAfter, hsites, hps, List.zip_append hlen, List.takeWhile_append_of_pos hinside, hnext,
    List.append_nil, List.map_fst_zip (Nat.le_of_eq hlen)]

end Site

namespace Document

open Site Relation

def Encloses (ps : List (Option Nat)) (i j : Nat) : Prop :=
  ∀ k, i < k → k ≤ j → ∃ p, ps[k]? = some (some p) ∧ i ≤ p

instance (ps : List (Option Nat)) (i j : Nat) : Decidable (Encloses ps i j) :=
  decidable_of_iff (∀ k < j + 1, i < k → ∃ p ∈ ps[k]?.join, i ≤ p) <| by
    simp only [Encloses, Nat.lt_succ_iff, Option.mem_def, Option.join_eq_some_iff]
    exact forall_congr' fun k => forall_comm

theorem mem_blockAfter_iff {sites : List Site} (hsites : sites.Nodup) {ps : List (Option Nat)}
    (hlen : sites.length = ps.length) {i j : Nat} (hij : i < j) {b : Site}
    (hb : sites[j]? = some b) : b ∈ blockAfter sites ps i ↔ Encloses ps i j := by
  have hlt := (List.getElem?_eq_some_iff.mp hb).1
  have hzip : ∀ m r q, ((sites.drop (i + 1)).zip (ps.drop (i + 1)))[m]? = some (r, q) ↔
      sites[i + 1 + m]? = some r ∧ ps[i + 1 + m]? = some q := by
    intro m r q
    rw [List.getElem?_zip_eq_some, List.getElem?_drop, List.getElem?_drop]
  constructor
  · intro hmem k hik hkj
    obtain ⟨⟨r, q⟩, hinside, rfl⟩ := List.mem_map.mp hmem
    obtain ⟨m, hm⟩ := List.getElem?_of_mem hinside
    obtain ⟨hat, hall⟩ := getElem?_takeWhile_eq_some_iff.mp hm
    have hj : j = i + 1 + m := (List.getElem?_inj hlt hsites).mp (hb.trans ((hzip m r q).mp hat).1.symm)
    obtain ⟨⟨r', q'⟩, hat', hq'⟩ := hall (k - (i + 1)) (by omega)
    obtain ⟨p, rfl, hp⟩ := (Option.any_eq_true _ _).mp hq'
    have hk := ((hzip _ r' _).mp hat').2
    rw [show i + 1 + (k - (i + 1)) = k by omega] at hk
    exact ⟨p, hk, of_decide_eq_true hp⟩
  · intro hinside
    obtain ⟨m, rfl⟩ := Nat.exists_eq_add_of_le (Nat.succ_le_of_lt hij)
    obtain ⟨p, hp, -⟩ := hinside (i + 1 + m) hij (Nat.le_refl _)
    refine List.mem_map.mpr ⟨(b, some p), List.mem_of_getElem? (i := m) ?_, rfl⟩
    refine getElem?_takeWhile_eq_some_iff.mpr ⟨(hzip m b _).mpr ⟨hb, hp⟩, ?_⟩
    intro k hk
    obtain ⟨q, hq, hle⟩ := hinside (i + 1 + k) (by omega) (by omega)
    have hr := List.getElem?_eq_getElem (l := sites) (i := i + 1 + k) (by omega)
    exact ⟨_, (hzip k _ _).mpr ⟨hr, hq⟩, by simpa using hle⟩

namespace FollowsPath

variable {ps : List (Option Nat)}

theorem lt_of_standsIn (h : FollowsPath ps) {i p : Nat} (hp : StandsIn ps i p) : p < i := by
  have hne : ps ≠ [] := by
    rintro rfl
    simp [FollowsPath] at h
  obtain ⟨o, rfl⟩ := (checkParents_ok_iff hne).mp ((checkParents_ok_iff_followsPath hne).mpr h)
  rcases Outline.parents_before o 0 none i p hp with hnone | hlt
  · simp at hnone
  · omega

theorem le_of_reflTransGen (h : FollowsPath ps) {i j : Nat}
    (hup : ReflTransGen (StandsIn ps) j i) : i ≤ j := by
  induction hup with
  | refl => exact Nat.le_refl j
  | tail _ hp ih => exact Nat.le_trans (Nat.le_of_lt (h.lt_of_standsIn hp)) ih

theorem transGen_of_encloses (h : FollowsPath ps) {i j : Nat} (hij : i < j)
    (hinside : Encloses ps i j) : TransGen (StandsIn ps) j i := by
  induction j using Nat.strongRecOn with
  | _ j ih =>
    obtain ⟨p, hp, hle⟩ := hinside j hij (Nat.le_refl j)
    have hlt := h.lt_of_standsIn hp
    rcases Nat.eq_or_lt_of_le hle with rfl | hip
    · exact .single hp
    · refine .head hp (ih p hlt hip ?_)
      intro k hik hkp
      exact hinside k hik (by omega)

theorem encloses_of_transGen (h : FollowsPath ps) {i j : Nat}
    (hup : TransGen (StandsIn ps) j i) : Encloses ps i j := by
  induction j with
  | zero =>
    obtain ⟨p, hp, -⟩ := TransGen.head'_iff.mp hup
    exact absurd (h.lt_of_standsIn hp) (Nat.not_lt_zero p)
  | succ j ih =>
    obtain ⟨p, hp, hpi⟩ := TransGen.head'_iff.mp hup
    -- the node just before `j + 1` is inside `p` too, and so inside whatever is around that
    obtain ⟨q, hq, hjq⟩ := h.2 j (some p) hp
    obtain rfl := Option.some.inj hq
    intro k hik hkj
    rcases Nat.eq_or_lt_of_le hkj with rfl | hlt
    · exact ⟨p, hp, h.le_of_reflTransGen hpi⟩
    · have hle : k ≤ j := Nat.le_of_lt_succ hlt
      rcases reflTransGen_iff_eq_or_transGen.mp (hjq.trans hpi) with rfl | hup'
      · omega
      · exact ih hup' k hik hle

theorem encloses_iff (h : FollowsPath ps) {i j : Nat} (hij : i < j) :
    Encloses ps i j ↔ TransGen (StandsIn ps) j i :=
  ⟨h.transGen_of_encloses hij, h.encloses_of_transGen⟩

end FollowsPath

theorem Valid.followsPath {d : Document} (hd : d.Valid) : FollowsPath (d.rows.map Row.parent) :=
  (checkParents_ok_iff_followsPath (by simpa using hd.nonempty)).mp hd.ordered

end Document

end TreeLint
