import Mathlib.Data.List.Basic

namespace TreeLint

inductive Outline (α : Type) where
  | mk (label : α) (parts : List (Outline α))

namespace Outline

variable {α : Type}

mutual

def labels : Outline α → List α
  | mk a parts => a :: labelsOf parts

def labelsOf : List (Outline α) → List α
  | [] => []
  | t :: rest => t.labels ++ labelsOf rest

end

mutual

def parents (index : Nat) (around : Option Nat) : Outline α → List (Option Nat)
  | mk _ parts => around :: parentsOf (index + 1) (some index) parts

def parentsOf (index : Nat) (around : Option Nat) : List (Outline α) → List (Option Nat)
  | [] => []
  | t :: rest => t.parents index around ++ parentsOf (index + t.labels.length) around rest

end

mutual

theorem parents_length (index : Nat) (around : Option Nat) :
    ∀ t : Outline α, (t.parents index around).length = t.labels.length
  | .mk a parts => by
    simp only [parents, labels, List.length_cons, parentsOf_length (index + 1) (some index) parts]

theorem parentsOf_length (index : Nat) (around : Option Nat) :
    ∀ ts : List (Outline α), (parentsOf index around ts).length = (labelsOf ts).length
  | [] => rfl
  | t :: rest => by
    simp only [parentsOf, labelsOf, List.length_append, parents_length index around t,
      parentsOf_length (index + t.labels.length) around rest]

end

mutual

theorem parents_before (t : Outline α) (index : Nat) (around : Option Nat) (i p : Nat)
    (h : (t.parents index around)[i]? = some (some p)) :
    around = some p ∨ index ≤ p ∧ p < index + i := by
  match t with
  | .mk a parts =>
    cases i with
    | zero =>
      left
      simpa [parents] using h
    | succ i =>
      right
      rcases parentsOf_before parts (index + 1) (some index) i p (by simpa [parents] using h)
        with hp | hp
      · obtain rfl : index = p := by simpa using hp
        omega
      · omega

theorem parentsOf_before (ts : List (Outline α)) (index : Nat) (around : Option Nat) (i p : Nat)
    (h : (parentsOf index around ts)[i]? = some (some p)) :
    around = some p ∨ index ≤ p ∧ p < index + i := by
  match ts with
  | [] => simp [parentsOf] at h
  | t :: rest =>
    rw [parentsOf] at h
    rcases Nat.lt_or_ge i (t.parents index around).length with hi | hi
    · rw [List.getElem?_append_left hi] at h
      exact parents_before t index around i p h
    · rw [List.getElem?_append_right hi] at h
      rcases parentsOf_before rest (index + t.labels.length) around _ p h with hp | hp
      · exact .inl hp
      · rw [parents_length] at hi hp
        right
        omega

end

theorem mem_parents {t : Outline α} {index p : Nat} {around : Option Nat}
    (h : some p ∈ t.parents index around) :
    around = some p ∨ index ≤ p ∧ p < index + t.labels.length := by
  obtain ⟨i, hi⟩ := List.getElem?_of_mem h
  have hlt := (List.getElem?_eq_some_iff.mp hi).1
  rw [parents_length] at hlt
  rcases parents_before t index around i p hi with hp | hp
  · exact .inl hp
  · right
    omega

theorem mem_parentsOf {ts : List (Outline α)} {index p : Nat} {around : Option Nat}
    (h : some p ∈ parentsOf index around ts) :
    around = some p ∨ index ≤ p ∧ p < index + (labelsOf ts).length := by
  obtain ⟨i, hi⟩ := List.getElem?_of_mem h
  have hlt := (List.getElem?_eq_some_iff.mp hi).1
  rw [parentsOf_length] at hlt
  rcases parentsOf_before ts index around i p hi with hp | hp
  · exact .inl hp
  · right
    omega

variable {β : Type}

mutual

def map (f : α → β) : Outline α → Outline β
  | mk a parts => mk (f a) (mapAll f parts)

def mapAll (f : α → β) : List (Outline α) → List (Outline β)
  | [] => []
  | t :: rest => t.map f :: mapAll f rest

end

mutual

theorem labels_map (f : α → β) : ∀ t : Outline α, (t.map f).labels = t.labels.map f
  | .mk a parts => by
    rw [map, labels, labels, List.map_cons, labelsOf_mapAll f parts]

theorem labelsOf_mapAll (f : α → β) :
    ∀ ts : List (Outline α), labelsOf (mapAll f ts) = (labelsOf ts).map f
  | [] => rfl
  | t :: rest => by
    rw [mapAll, labelsOf, labelsOf, List.map_append, labels_map f t, labelsOf_mapAll f rest]

end

mutual

theorem parents_map (f : α → β) (index : Nat) (around : Option Nat) :
    ∀ t : Outline α, (t.map f).parents index around = t.parents index around
  | .mk a parts => by
    rw [map, parents, parents, parentsOf_mapAll f (index + 1) (some index) parts]

theorem parentsOf_mapAll (f : α → β) (index : Nat) (around : Option Nat) :
    ∀ ts : List (Outline α), parentsOf index around (mapAll f ts) = parentsOf index around ts
  | [] => rfl
  | t :: rest => by
    rw [mapAll, parentsOf, parentsOf, labels_map f t, List.length_map, parents_map f index around t,
      parentsOf_mapAll f _ around rest]

end

mutual

theorem eq_none_of_mem_parents (t : Outline α) {index : Nat} {around : Option Nat}
    (h : none ∈ t.parents index around) : around = none := by
  match t with
  | .mk a parts =>
    rcases List.mem_cons.mp h with h | h
    · exact h.symm
    · simpa using eq_none_of_mem_parentsOf parts h

theorem eq_none_of_mem_parentsOf (ts : List (Outline α)) {index : Nat} {around : Option Nat}
    (h : none ∈ parentsOf index around ts) : around = none := by
  match ts with
  | [] => simp [parentsOf] at h
  | t :: rest =>
    rcases List.mem_append.mp h with h | h
    · exact eq_none_of_mem_parents t h
    · exact eq_none_of_mem_parentsOf rest h

end

theorem parents_at_eq_none_iff {t : Outline α} {i : Nat} {q : Option Nat}
    (h : (t.parents 0 none)[i]? = some q) : q = none ↔ i = 0 := by
  obtain ⟨a, parts⟩ := t
  cases i with
  | zero =>
    obtain rfl : none = q := Option.some.inj h
    simp
  | succ i =>
    have hmem : q ∈ parentsOf 1 (some 0) parts := List.mem_of_getElem? h
    constructor
    · rintro rfl
      simpa using eq_none_of_mem_parentsOf parts hmem
    · simp

theorem not_mem_parentsOf_inside (parts : List (Outline α)) {index : Nat} {around : Option Nat}
    (haround : ∀ q, around = some q → q < index) :
    around ∉ parentsOf (index + 1) (some index) parts := by
  intro h
  cases around with
  | none => simpa using eq_none_of_mem_parentsOf parts h
  | some q =>
    have hq := haround q rfl
    rcases mem_parentsOf h with he | hle
    · obtain rfl : index = q := by simpa using he
      omega
    · omega

theorem takeWhile_tail_parentsOf (t : Outline α) (rest : List (Outline α)) {index : Nat}
    {around : Option Nat} (haround : ∀ q, around = some q → q < index) :
    (parentsOf index around (t :: rest)).tail.takeWhile (· != around) =
      (t.parents index around).tail := by
  obtain ⟨a, parts⟩ := t
  have hinside : ∀ q ∈ parentsOf (index + 1) (some index) parts, (q != around) = true := by
    intro q hq
    have hne : q ≠ around := fun he => not_mem_parentsOf_inside parts haround (he ▸ hq)
    simpa using hne
  have hrest : ∀ i, (parentsOf i around rest).takeWhile (· != around) = [] := by
    intro i
    cases rest with
    | nil => rfl
    | cons u rest =>
      obtain ⟨b, inner⟩ := u
      simp [parentsOf, parents]
  simp only [parentsOf, parents, List.cons_append, List.tail_cons,
    List.takeWhile_append_of_pos hinside, hrest, List.append_nil]

theorem length_labels_eq (t : Outline α) (index : Nat) (around : Option Nat) :
    t.labels.length = (t.parents index around).tail.length + 1 := by
  rw [← parents_length index around t]
  obtain ⟨a, parts⟩ := t
  rfl

mutual

theorem eq_of_parents (t u : Outline α) {index : Nat} {around : Option Nat}
    (hlabels : t.labels = u.labels) (hparents : t.parents index around = u.parents index around) :
    t = u := by
  match t, u with
  | .mk a parts, .mk b others =>
    obtain ⟨rfl, hparts⟩ := List.cons.inj hlabels
    rw [eq_of_parentsOf parts others (by simp) hparts (List.cons.inj hparents).2]

theorem eq_of_parentsOf (ts us : List (Outline α)) {index : Nat} {around : Option Nat}
    (haround : ∀ q, around = some q → q < index) (hlabels : labelsOf ts = labelsOf us)
    (hparents : parentsOf index around ts = parentsOf index around us) : ts = us := by
  match ts, us with
  | [], [] => rfl
  | [], .mk b others :: us => simp [labelsOf, labels] at hlabels
  | .mk a parts :: ts, [] => simp [labelsOf, labels] at hlabels
  | t :: ts, u :: us =>
    -- Both first parts end where the number around them comes again.
    have hlen : t.labels.length = u.labels.length := by
      have hfirst := congrArg (·.tail.takeWhile (· != around)) hparents
      simp only [takeWhile_tail_parentsOf _ _ haround] at hfirst
      rw [length_labels_eq t index around, length_labels_eq u index around, hfirst]
    obtain ⟨ht, hts⟩ := List.append_inj hlabels hlen
    obtain ⟨ht', hts'⟩ := List.append_inj hparents (by simpa [parents_length] using hlen)
    rw [← hlen] at hts'
    rw [eq_of_parents t u ht ht', eq_of_parentsOf ts us
      (fun q hq => Nat.lt_add_right _ (haround q hq)) hts hts']

end

end Outline

end TreeLint
