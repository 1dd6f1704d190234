import TreeLint.Proofs.Outline

namespace TreeLint.Outline

variable {α : Type}

def label : Outline α → α
  | mk a _ => a

def parts : Outline α → List (Outline α)
  | mk _ parts => parts

mutual

def subs : Outline α → List (Outline α)
  | mk a parts => mk a parts :: subsOf parts

def subsOf : List (Outline α) → List (Outline α)
  | [] => []
  | t :: rest => t.subs ++ subsOf rest

end

mutual

theorem map_label_subs : ∀ t : Outline α, t.subs.map label = t.labels
  | mk a parts => by
    rw [subs, labels, List.map_cons, map_label_subsOf parts]
    rfl

theorem map_label_subsOf : ∀ ts : List (Outline α), (subsOf ts).map label = labelsOf ts
  | [] => rfl
  | t :: rest => by
    rw [subsOf, labelsOf, List.map_append, map_label_subs t, map_label_subsOf rest]

end

theorem length_subs (t : Outline α) : t.subs.length = t.labels.length := by
  rw [← map_label_subs, List.length_map]

theorem mem_subs_self (t : Outline α) : t ∈ t.subs := by
  cases t
  simp [subs]

theorem mem_subs_iff {t u : Outline α} : u ∈ t.subs ↔ u = t ∨ u ∈ subsOf t.parts := by
  cases t
  simp [subs, parts]

theorem getElem?_subsOf_left {t v : Outline α} {i : Nat} (h : t.subs[i]? = some v)
    (rest : List (Outline α)) : (subsOf (t :: rest))[i]? = some v := by
  rw [subsOf, List.getElem?_append_left (List.getElem?_eq_some_iff.mp h).1, h]

theorem getElem?_subsOf_right (t : Outline α) {rest : List (Outline α)} {v : Outline α} {i : Nat}
    (h : (subsOf rest)[i]? = some v) : (subsOf (t :: rest))[t.labels.length + i]? = some v := by
  rw [subsOf, ← length_subs, List.getElem?_append_right (Nat.le_add_right _ _),
    Nat.add_sub_cancel_left, h]

theorem getElem?_parentsOf_left {t : Outline α} {index i : Nat} {around : Option Nat}
    (hi : i < t.labels.length) (rest : List (Outline α)) :
    (parentsOf index around (t :: rest))[i]? = (t.parents index around)[i]? := by
  rw [← parents_length index around t] at hi
  rw [parentsOf, List.getElem?_append_left hi]

theorem getElem?_parentsOf_right (t : Outline α) (rest : List (Outline α)) (index i : Nat)
    (around : Option Nat) :
    (parentsOf index around (t :: rest))[t.labels.length + i]? =
      (parentsOf (index + t.labels.length) around rest)[i]? := by
  rw [parentsOf, List.getElem?_append_right (by rw [parents_length]; omega), parents_length,
    Nat.add_sub_cancel_left]

theorem exists_position_of_mem (ts : List (Outline α)) (index : Nat) (around : Option Nat)
    {v : Outline α} (hv : v ∈ ts) :
    ∃ i : Nat, (subsOf ts)[i]? = some v ∧ (parentsOf index around ts)[i]? = some around := by
  induction ts generalizing index with
  | nil => simp at hv
  | cons t rest ih =>
    rcases List.mem_cons.mp hv with rfl | hv
    · obtain ⟨a, inner⟩ := v
      exact ⟨0, rfl, rfl⟩
    · obtain ⟨i, hi, hparent⟩ := ih (index + t.labels.length) hv
      refine ⟨t.labels.length + i, getElem?_subsOf_right t hi, ?_⟩
      rw [getElem?_parentsOf_right, hparent]

mutual

theorem exists_position (t : Outline α) (index : Nat) (around : Option Nat) {p : Nat}
    {u v : Outline α} (hu : t.subs[p]? = some u) (hv : v ∈ u.parts) :
    ∃ i : Nat, t.subs[i]? = some v ∧ (t.parents index around)[i]? = some (some (index + p)) := by
  match t, p with
  | mk a inner, 0 =>
    obtain rfl : mk a inner = u := by simpa [subs] using hu
    obtain ⟨i, hi, hparent⟩ := exists_position_of_mem inner (index + 1) (some index) hv
    exact ⟨i + 1, hi, hparent⟩
  | mk a inner, p + 1 =>
    obtain ⟨i, hi, hparent⟩ := exists_positionOf inner (index + 1) (some index) hu hv
    refine ⟨i + 1, hi, ?_⟩
    rw [show index + (p + 1) = index + 1 + p by omega]
    exact hparent

theorem exists_positionOf (ts : List (Outline α)) (index : Nat) (around : Option Nat) {p : Nat}
    {u v : Outline α} (hu : (subsOf ts)[p]? = some u) (hv : v ∈ u.parts) :
    ∃ i : Nat, (subsOf ts)[i]? = some v ∧
      (parentsOf index around ts)[i]? = some (some (index + p)) := by
  match ts with
  | [] => simp [subsOf] at hu
  | t :: rest =>
    rcases Nat.lt_or_ge p t.subs.length with hp | hp
    · rw [subsOf, List.getElem?_append_left hp] at hu
      obtain ⟨i, hi, hparent⟩ := exists_position t index around hu hv
      have hlt := (List.getElem?_eq_some_iff.mp hi).1
      rw [length_subs] at hlt
      exact ⟨i, getElem?_subsOf_left hi rest, (getElem?_parentsOf_left hlt rest).trans hparent⟩
    · rw [subsOf, List.getElem?_append_right hp] at hu
      obtain ⟨i, hi, hparent⟩ := exists_positionOf rest (index + t.labels.length) around hu hv
      refine ⟨t.labels.length + i, getElem?_subsOf_right t hi, ?_⟩
      rw [getElem?_parentsOf_right, hparent, length_subs]
      rw [length_subs] at hp
      congr 2
      omega

end

mutual

theorem mem_parts_of_parents (t : Outline α) {index i p : Nat} {around : Option Nat}
    (hp : (t.parents index around)[i]? = some (some p)) :
    (around = some p ∧ i = 0) ∨
      ∃ (q : Nat) (u v : Outline α), p = index + q ∧ t.subs[q]? = some u ∧
        t.subs[i]? = some v ∧ v ∈ u.parts := by
  match t, i with
  | mk a inner, 0 => exact .inl ⟨by simpa [parents] using hp, rfl⟩
  | mk a inner, i + 1 =>
    right
    rcases mem_parts_of_parentsOf inner (i := i) hp with ⟨hindex, v, hv, hi⟩ | ⟨q, u, v, rfl, hrest⟩
    · obtain rfl : index = p := by simpa using hindex
      exact ⟨0, mk a inner, v, rfl, rfl, hi, hv⟩
    · exact ⟨q + 1, u, v, by omega, hrest⟩

theorem mem_parts_of_parentsOf (ts : List (Outline α)) {index i p : Nat} {around : Option Nat}
    (hp : (parentsOf index around ts)[i]? = some (some p)) :
    (around = some p ∧ ∃ v ∈ ts, (subsOf ts)[i]? = some v) ∨
      ∃ (q : Nat) (u v : Outline α), p = index + q ∧ (subsOf ts)[q]? = some u ∧
        (subsOf ts)[i]? = some v ∧ v ∈ u.parts := by
  match ts with
  | [] => simp [parentsOf] at hp
  | t :: rest =>
    rcases Nat.lt_or_ge i t.labels.length with hi | hi
    · rw [getElem?_parentsOf_left hi] at hp
      rcases mem_parts_of_parents t hp with ⟨haround, rfl⟩ | ⟨q, u, v, rfl, hu, hv, hmem⟩
      · refine .inl ⟨haround, t, by simp, getElem?_subsOf_left ?_ rest⟩
        cases t
        rfl
      · exact .inr ⟨q, u, v, rfl, getElem?_subsOf_left hu rest, getElem?_subsOf_left hv rest, hmem⟩
    · obtain ⟨j, rfl⟩ := Nat.exists_eq_add_of_le hi
      rw [getElem?_parentsOf_right] at hp
      rcases mem_parts_of_parentsOf rest hp with ⟨haround, v, hv, hj⟩ | ⟨q, u, v, rfl, hu, hv, hmem⟩
      · exact .inl ⟨haround, v, List.mem_cons_of_mem _ hv, getElem?_subsOf_right t hj⟩
      · exact .inr ⟨t.labels.length + q, u, v, by omega, getElem?_subsOf_right t hu,
          getElem?_subsOf_right t hv, hmem⟩

end

theorem mem_parts_of_parent {t u v : Outline α} {i p : Nat} (hu : t.subs[p]? = some u)
    (hv : t.subs[i]? = some v) (hp : (t.parents 0 none)[i]? = some (some p)) : v ∈ u.parts := by
  rcases mem_parts_of_parents t hp with ⟨hnone, -⟩ | ⟨q, u', v', rfl, hu', hv', hmem⟩
  · simp at hnone
  · rw [Nat.zero_add] at hu
    obtain rfl : u' = u := Option.some.inj (hu'.symm.trans hu)
    obtain rfl : v' = v := Option.some.inj (hv'.symm.trans hv)
    exact hmem

end TreeLint.Outline
