import Mathlib.Logic.Relation
import TreeLint.Proofs.PreOrder

namespace TreeLint.Document

open Relation

def StandsIn (ps : List (Option Nat)) (i p : Nat) : Prop :=
  ps[i]? = some (some p)

/-- The first node is a root, and each later one stands in the node before it or around that. -/
def FollowsPath (ps : List (Option Nat)) : Prop :=
  ps[0]? = some none ∧
    ∀ i q, ps[i + 1]? = some q → ∃ p, q = some p ∧ ReflTransGen (StandsIn ps) i p

def LeadsUp (ps : List (Option Nat)) : List Nat → Prop
  | [] => False
  | [i] => ps[i]? = some none
  | i :: p :: path => StandsIn ps i p ∧ LeadsUp ps (p :: path)

theorem LeadsUp.of_append {ps : List (Option Nat)} {before below : List Nat} {p : Nat}
    (h : LeadsUp ps (before ++ p :: below)) : LeadsUp ps (p :: below) := by
  induction before with
  | nil => exact h
  | cons i before ih =>
    cases before with
    | nil => exact h.2
    | cons j before => exact ih h.2

theorem LeadsUp.mem_iff {ps : List (Option Nat)} {path : List Nat} {i p : Nat}
    (h : LeadsUp ps (i :: path)) : p ∈ i :: path ↔ ReflTransGen (StandsIn ps) i p := by
  induction path generalizing i with
  | nil =>
    constructor
    · intro hp
      obtain rfl : p = i := by simpa using hp
      exact .refl
    · intro hp
      rcases hp.cases_head with rfl | ⟨j, hij, -⟩
      · simp
      · have hroot : ps[i]? = some none := h
        simp [StandsIn, hroot] at hij
  | cons j path ih =>
    obtain ⟨hij, hj⟩ := h
    constructor
    · intro hp
      rcases List.mem_cons.mp hp with rfl | hp
      · exact .refl
      · exact .head hij ((ih hj).mp hp)
    · intro hp
      rcases hp.cases_head with rfl | ⟨k, hik, hkp⟩
      · simp
      · obtain rfl : j = k := by simpa using hij.symm.trans hik
        exact List.mem_cons_of_mem _ ((ih hj).mpr hkp)

theorem checkRest_ok_iff {ps rest : List (Option Nat)} (index : Nat) {path : List Nat}
    (hrest : ps.drop (index + 1) = rest) (h : LeadsUp ps (index :: path)) :
    checkRest (index + 1) (index :: path) rest = .ok () ↔
      ∀ i q, index ≤ i → ps[i + 1]? = some q →
        ∃ p, q = some p ∧ ReflTransGen (StandsIn ps) i p := by
  induction rest generalizing index path with
  | nil =>
    have hend : ps.length ≤ index + 1 := List.drop_eq_nil_iff.mp hrest
    constructor
    · intro _ i q hi hq
      have hlt := (List.getElem?_eq_some_iff.mp hq).1
      omega
    · intro _
      rfl
  | cons q rest ih =>
    obtain ⟨hq, hrest'⟩ := getElem?_of_drop hrest
    cases q with
    | none =>
      constructor
      · intro hc
        simp [checkRest] at hc
      · intro hc
        obtain ⟨p, hp, -⟩ := hc index none le_rfl hq
        simp at hp
    | some p =>
      by_cases hp : p ∈ index :: path
      · obtain ⟨before, below, hpath, hb⟩ := List.eq_append_cons_of_mem hp
        rw [hpath] at h ⊢
        have hup : LeadsUp ps ((index + 1) :: p :: below) := ⟨hq, h.of_append⟩
        rw [checkRest_of_path (index + 1) below rest hb, ih (index + 1) hrest' hup]
        constructor
        · intro hc i q hi hiq
          rcases Nat.eq_or_lt_of_le hi with rfl | hi
          · refine ⟨p, by simpa [hq] using hiq.symm, ?_⟩
            rw [← (hpath ▸ h : LeadsUp ps (index :: path)).mem_iff]
            exact hp
          · exact hc i q hi hiq
        · intro hc i q hi hiq
          exact hc i q (by omega) hiq
      · rw [checkRest_of_not_mem (index + 1) rest hp]
        constructor
        · intro hc
          simp at hc
        · intro hc
          obtain ⟨p', hp', hup⟩ := hc index (some p) le_rfl hq
          obtain rfl : p = p' := by simpa using hp'
          exact absurd (h.mem_iff.mpr hup) hp

theorem checkParents_ok_iff_followsPath {ps : List (Option Nat)} (hne : ps ≠ []) :
    checkParents ps = .ok () ↔ FollowsPath ps := by
  cases ps with
  | nil => exact absurd rfl hne
  | cons q rest =>
    cases q with
    | some p =>
      constructor
      · intro h
        simp [checkParents] at h
      · rintro ⟨h, -⟩
        simp at h
    | none =>
      have hroot : LeadsUp (none :: rest) [0] := rfl
      have hrest := checkRest_ok_iff 0 rfl hroot
      simp only [List.drop_succ_cons, List.drop_zero, Nat.zero_le, true_implies] at hrest
      simp only [checkParents, FollowsPath, List.getElem?_cons_zero, true_and]
      exact hrest

end TreeLint.Document
