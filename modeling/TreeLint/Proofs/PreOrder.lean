import Mathlib.Data.List.TakeWhile
import TreeLint.Document.Order
import TreeLint.Proofs.Outline

/-!
The check of a list of parents accepts the pre-order listings of ordered trees and nothing else.
The open path is at every moment the chain from the previous node up to the root.
-/

namespace TreeLint.Document

open Outline

variable {α : Type}

/-- Some ordered tree has exactly these parents in its pre-order numbering. -/
def IsListing (ps : List (Option Nat)) : Prop :=
  ∃ t : Outline Unit, t.parents 0 none = ps

theorem getElem?_of_drop {l rest : List α} {a : α} {index : Nat} (h : l.drop index = a :: rest) :
    l[index]? = some a ∧ l.drop (index + 1) = rest := by
  rw [← List.head?_drop, ← List.tail_drop, h]
  exact ⟨rfl, rfl⟩

theorem dropWhile_ne_append {before below : List Nat} {p : Nat} (h : p ∉ before) :
    (before ++ p :: below).dropWhile (· != p) = p :: below := by
  rw [List.dropWhile_append_of_pos]
  · simp
  · intro q hq
    have hne : q ≠ p := fun e => h (e ▸ hq)
    simpa using hne

theorem dropWhile_ne_of_not_mem {path : List Nat} {p : Nat} (h : p ∉ path) :
    path.dropWhile (· != p) = [] := by
  rw [List.dropWhile_eq_nil_iff]
  intro q hq
  have hne : q ≠ p := fun e => h (e ▸ hq)
  simpa using hne

theorem checkRest_of_path (index : Nat) {before : List Nat} (below : List Nat) {p : Nat}
    (rest : List (Option Nat)) (h : p ∉ before) :
    checkRest index (before ++ p :: below) (some p :: rest) =
      checkRest (index + 1) (index :: p :: below) rest := by
  simp only [checkRest, dropWhile_ne_append h]

theorem checkRest_of_not_mem (index : Nat) {path : List Nat} {p : Nat} (rest : List (Option Nat))
    (h : p ∉ path) : checkRest index path (some p :: rest) = .error (.closedParent index p) := by
  simp only [checkRest, dropWhile_ne_of_not_mem h]

def growth (index : Nat) : List (Nat × List (Outline α)) → List (Option Nat)
  | [] => []
  | (p, ts) :: rest => parentsOf index (some p) ts ++ growth (index + (labelsOf ts).length) rest

theorem growth_nothing (index : Nat) (before : List Nat) (gs : List (Nat × List (Outline α))) :
    growth index (before.map (·, []) ++ gs) = growth index gs := by
  induction before with
  | nil => rfl
  | cons p before ih => simpa [growth, parentsOf, labelsOf] using ih

theorem flatMap_nothing (before : List Nat) :
    (before.map fun p => (p, ([] : List (Outline α)))).flatMap (labelsOf ·.2) = [] := by
  simp [labelsOf]

theorem growth_enter (index p : Nat) (a : α) (inner later : List (Outline α))
    (gs : List (Nat × List (Outline α))) :
    growth index ((p, .mk a inner :: later) :: gs) =
      some p :: growth (index + 1) ((index, inner) :: (p, later) :: gs) := by
  have hinner : index + (Outline.mk a inner).labels.length =
      index + 1 + (labelsOf inner).length := by
    simp only [labels, List.length_cons]
    omega
  have hlater : index + (labelsOf (.mk a inner :: later)).length =
      index + 1 + (labelsOf inner).length + (labelsOf later).length := by
    simp only [labelsOf, labels, List.length_append, List.length_cons]
    omega
  simp only [growth, parentsOf, parents, hinner, hlater, List.cons_append, List.append_assoc]

theorem exists_growth {index : Nat} {path : List Nat} {ps : List (Option Nat)} (as : List α)
    (hl : as.length = ps.length) (h : checkRest index path ps = .ok ()) :
    ∃ gs : List (Nat × List (Outline α)),
      gs.map Prod.fst = path ∧ gs.flatMap (labelsOf ·.2) = as ∧ growth index gs = ps := by
  induction ps generalizing index path as with
  | nil =>
    obtain rfl : as = [] := List.eq_nil_of_length_eq_zero hl
    have hg := growth_nothing (α := α) index path []
    rw [List.append_nil] at hg
    exact ⟨path.map (·, []), by simp [Function.comp_def], flatMap_nothing path, hg⟩
  | cons q ps ih =>
    obtain ⟨a, as, rfl⟩ := List.exists_cons_of_length_eq_add_one hl
    cases q with
    | none => simp [checkRest] at h
    | some p =>
      by_cases hp : p ∈ path
      · obtain ⟨before, below, rfl, hb⟩ := List.eq_append_cons_of_mem hp
        rw [checkRest_of_path index below ps hb] at h
        obtain ⟨gs, hpath, hlabels, hparents⟩ := ih as (by simpa using hl) h
        obtain ⟨⟨i, inner⟩, gs, rfl, hi, hgs⟩ := List.map_eq_cons_iff.mp hpath
        obtain ⟨⟨p', later⟩, gs, rfl, hp', hbelow⟩ := List.map_eq_cons_iff.mp hgs
        obtain rfl : i = index := hi
        obtain rfl : p' = p := hp'
        refine ⟨before.map (·, []) ++ (p', .mk a inner :: later) :: gs, ?_, ?_, ?_⟩
        · simp [Function.comp_def, hbelow]
        · simpa [flatMap_nothing, labelsOf, labels] using hlabels
        · rw [growth_nothing, growth_enter, hparents]
      · rw [checkRest_of_not_mem index ps hp] at h
        exact absurd h (by simp)

theorem exists_outline {ps : List (Option Nat)} (as : List α) (hne : ps ≠ [])
    (hl : as.length = ps.length) (h : checkParents ps = .ok ()) :
    ∃ t : Outline α, t.labels = as ∧ t.parents 0 none = ps := by
  cases ps with
  | nil => exact absurd rfl hne
  | cons q ps =>
    obtain ⟨a, as, rfl⟩ := List.exists_cons_of_length_eq_add_one hl
    cases q with
    | some p => simp [checkParents] at h
    | none =>
      obtain ⟨gs, hpath, hlabels, hparents⟩ := exists_growth as (by simpa using hl) h
      obtain ⟨⟨i, ts⟩, gs, rfl, hi, hgs⟩ := List.map_eq_cons_iff.mp hpath
      obtain rfl : gs = [] := List.map_eq_nil_iff.mp hgs
      obtain rfl : i = 0 := hi
      refine ⟨.mk a ts, ?_, ?_⟩
      · simpa [labels] using hlabels
      · simpa [parents, growth] using hparents

def IsOpen (index : Nat) (path : List Nat) : Prop :=
  path.Pairwise (· > ·) ∧ ∀ i ∈ path, i < index

theorem IsOpen.not_mem {index p : Nat} {before below : List Nat}
    (h : IsOpen index (before ++ p :: below)) : p ∉ before := by
  intro hp
  have hlt := (List.pairwise_append.mp h.1).2.2 p hp p (by simp)
  omega

theorem IsOpen.enter {index p : Nat} {before below : List Nat}
    (h : IsOpen index (before ++ p :: below)) : IsOpen (index + 1) (index :: p :: below) := by
  have hbelow : ∀ i ∈ p :: below, i < index := fun i hi => h.2 i (by simp_all)
  refine ⟨List.pairwise_cons.mpr ⟨hbelow, (List.pairwise_append.mp h.1).2.1⟩, ?_⟩
  intro i hi
  rcases List.mem_cons.mp hi with rfl | hi
  · omega
  · have := hbelow i hi
    omega

mutual

theorem checkRest_parents (t : Outline α) (index p : Nat) (before below : List Nat)
    (more : List (Option Nat)) (h : IsOpen index (before ++ p :: below)) :
    ∃ inside, IsOpen (index + t.labels.length) (inside ++ p :: below) ∧
      checkRest index (before ++ p :: below) (t.parents index (some p) ++ more) =
        checkRest (index + t.labels.length) (inside ++ p :: below) more := by
  match t with
  | .mk a parts =>
    obtain ⟨inside, hopen, heq⟩ :=
      checkRest_parentsOf parts (index + 1) index [] (p :: below) more h.enter
    have hlen : index + 1 + (labelsOf parts).length = index + (Outline.mk a parts).labels.length := by
      simp only [labels, List.length_cons]
      omega
    rw [hlen] at hopen heq
    refine ⟨inside ++ [index], by simpa using hopen, ?_⟩
    rw [parents, List.cons_append, checkRest_of_path index below _ h.not_mem]
    simpa using heq

theorem checkRest_parentsOf (ts : List (Outline α)) (index p : Nat) (before below : List Nat)
    (more : List (Option Nat)) (h : IsOpen index (before ++ p :: below)) :
    ∃ inside, IsOpen (index + (labelsOf ts).length) (inside ++ p :: below) ∧
      checkRest index (before ++ p :: below) (parentsOf index (some p) ts ++ more) =
        checkRest (index + (labelsOf ts).length) (inside ++ p :: below) more := by
  match ts with
  | [] => exact ⟨before, h, rfl⟩
  | t :: rest =>
    obtain ⟨middle, hmiddle, heq⟩ := checkRest_parents t index p before below
      (parentsOf (index + t.labels.length) (some p) rest ++ more) h
    obtain ⟨inside, hinside, heq'⟩ := checkRest_parentsOf rest (index + t.labels.length) p
      middle below more hmiddle
    have hlen : index + t.labels.length + (labelsOf rest).length =
        index + (labelsOf (t :: rest)).length := by
      simp only [labelsOf, List.length_append]
      omega
    rw [hlen] at hinside heq'
    refine ⟨inside, hinside, ?_⟩
    rw [parentsOf, List.append_assoc, heq, heq']

end

theorem checkParents_parents (t : Outline α) : checkParents (t.parents 0 none) = .ok () := by
  obtain ⟨a, parts⟩ := t
  have hopen : IsOpen 1 ([] ++ 0 :: []) := by simp [IsOpen]
  obtain ⟨inside, -, heq⟩ := checkRest_parentsOf parts 1 0 [] [] [] hopen
  rw [List.append_nil] at heq
  exact heq

theorem checkParents_ok_iff {ps : List (Option Nat)} (hne : ps ≠ []) :
    checkParents ps = .ok () ↔ IsListing ps := by
  constructor
  · intro h
    obtain ⟨t, -, ht⟩ := exists_outline (List.replicate ps.length ()) hne (by simp) h
    exact ⟨t, ht⟩
  · rintro ⟨t, rfl⟩
    exact checkParents_parents t

end TreeLint.Document
