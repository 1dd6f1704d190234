import Mathlib.Data.List.Forall2
import TreeLint.Document.Listing
import TreeLint.Document.Load

namespace TreeLint

open Checked

namespace Document

def IsSound (s : Span) : Prop :=
  spanFlaws s = [] ∧ s.start ≤ s.stop

theorem spanFlaws_eq_nil_iff (s : Span) :
    spanFlaws s = [] ↔ 0 ≤ s.start ∧ 0 ≤ s.stop ∧ 1 ≤ s.line ∧ 0 ≤ s.column := by
  simp only [spanFlaws, List.append_eq_nil_iff, ite_eq_right_iff, reduceCtorEq, imp_false]
  omega

theorem isSound_iff (s : Span) :
    IsSound s ↔ 0 ≤ s.start ∧ s.start ≤ s.stop ∧ 1 ≤ s.line ∧ 0 ≤ s.column := by
  rw [IsSound, spanFlaws_eq_nil_iff]
  omega

structure Valid (d : Document) : Prop where
  nonempty : d.rows ≠ []
  ordered : checkOrder d.rows = .ok ()
  spans : ∀ row ∈ d.rows, ∀ s, row.span = some s → IsSound s

theorem le_foldl_max (own : Nat) (inside : List (Option Nat × Nat)) :
    own ≤ inside.foldl (fun stop e => max stop e.2) own := by
  induction inside generalizing own with
  | nil => exact Nat.le_refl own
  | cons e rest ih => exact Nat.le_trans (Nat.le_max_left own e.2) (ih _)

theorem isSound_filled {offset stop : Nat} (h : offset ≤ stop) :
    IsSound ⟨offset, stop, 1, offset⟩ := by
  rw [isSound_iff]
  exact ⟨Int.natCast_nonneg _, Int.ofNat_le.mpr h, Int.le_refl 1, Int.natCast_nonneg _⟩

def Fills (row : Row) (s : Span) : Prop :=
  (∀ given, row.span = some given → s = given) ∧ (row.span = none → IsSound s)

theorem fills_fillSpans (index offset : Nat) (rows : List Row) :
    List.Forall₂ Fills rows (fillSpans index offset rows).1 := by
  induction rows generalizing index offset with
  | nil => exact .nil
  | cons row rest ih =>
    cases hspan : row.span with
    | some span =>
      rw [fillSpans, hspan]
      refine .cons ⟨?_, ?_⟩ (ih _ _)
      · intro given hgiven
        simpa [hspan] using hgiven
      · intro hnone
        simp [hspan] at hnone
    | none =>
      rw [fillSpans, hspan]
      refine .cons ⟨?_, ?_⟩ (ih _ _)
      · intro given hgiven
        simp [hspan] at hgiven
      · intro _
        apply isSound_filled
        refine Nat.le_trans ?_ (le_foldl_max _ _)
        split
        · exact Nat.le_add_right offset _
        · exact Nat.le_refl offset

theorem fills_spans (d : Document) : List.Forall₂ Fills d.rows d.spans :=
  fills_fillSpans 0 0 d.rows

theorem Valid.isSound {d : Document} (h : d.Valid) : ∀ e ∈ d.rows.zip d.spans, IsSound e.2 := by
  rintro ⟨row, span⟩ he
  obtain ⟨hgiven, hnone⟩ := (List.forall₂_iff_zip.mp (fills_spans d)).2 he
  cases hspan : row.span with
  | none => exact hnone hspan
  | some given =>
    rw [show span = given from hgiven given hspan]
    exact h.spans row (List.of_mem_zip he).1 given hspan

end Document

namespace Checked

variable {α β : Type}

theorem both_eq_ok {x : Checked α} {y : Checked β} {a : α} {b : β} :
    both x y = .ok (a, b) ↔ x = .ok a ∧ y = .ok b := by
  cases x <;> cases y <;> simp [both]

end Checked

namespace Value

end Value

namespace Document

end Document

end TreeLint
