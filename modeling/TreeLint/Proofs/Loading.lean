import TreeLint.Proofs.RoundTrip

namespace TreeLint

namespace Checked

variable {α β : Type}

structure Explains (c : Checked α) : Prop where
  ne_nil : ∀ ds, c = .error ds → ds ≠ []

theorem explains_ok (a : α) : Explains (.ok a : Checked α) :=
  ⟨by simp⟩

theorem Explains.both {x : Checked α} {y : Checked β} (hx : x.Explains) (hy : y.Explains) :
    Explains (both x y) := by
  constructor
  rintro ds h rfl
  cases x with
  | ok a =>
    cases y with
    | ok b => simp [Checked.both] at h
    | error es => exact hy.ne_nil es rfl (by simpa [Checked.both] using h)
  | error es =>
    cases y with
    | ok b => exact hx.ne_nil es rfl (by simpa [Checked.both] using h)
    | error fs =>
      have hnil : es ++ fs = [] := by simpa [Checked.both] using h
      exact hx.ne_nil es rfl (List.append_eq_nil_iff.mp hnil).1

theorem Explains.bind {x : Checked α} {f : α → Checked β} (hx : x.Explains)
    (hf : ∀ a, x = .ok a → Explains (f a)) : Explains (x >>= f) := by
  cases x with
  | ok a => exact hf a rfl
  | error ds =>
    constructor
    intro es h
    obtain rfl : ds = es := Except.error.inj h
    exact hx.ne_nil ds rfl

theorem Explains.map {x : Checked α} (hx : x.Explains) (f : α → β) :
    Explains (x.map f : Checked β) := by
  cases x with
  | ok a => exact explains_ok (f a)
  | error ds =>
    constructor
    intro es h
    obtain rfl : ds = es := Except.error.inj h
    exact hx.ne_nil ds rfl

end Checked

namespace Document

open Checked

theorem accept_of_toTree {d : Document} {t : Tree} (h : d.toTree = .ok t) :
    (d.plant .empty).forest.accept (d.plant .empty).root t.path = .ok t := by
  obtain ⟨-, seen, -, n, -, ht⟩ := Forest.accept_eq_ok h
  have hpath : t.path = d.path := by rw [ht]
  rw [hpath]
  exact h

theorem Planted.waiting {d : Document} {t : Tree} (h : Planted d t) (hd : d.Valid) :
    (d.plant .empty).waiting = [(none, t.root.draft)] := by
  obtain ⟨o, -, -, g, hplant, -⟩ := exists_plant hd .empty
  have hroot : (d.plant .empty).root = (o.grow 0).draft := by
    rw [hplant]
    rfl
  obtain ⟨-, seen, -, n, hn, ht⟩ := Forest.accept_eq_ok (accept_of_toTree h.toTree)
  rw [hroot, Node.settle_draft] at hn
  obtain rfl : o.grow 0 = n := Except.ok.inj hn
  rw [hplant, ht]
  rfl

end Document

namespace Source

open Checked

section

variable {read : Source → Checked Document} {s : Source} {path : String}

theorem loadBy_of_toTree {d : Document} {t : Tree} (hpath : s.path? = some path)
    (hd : read s = .ok d) (ht : d.toTree = .ok t) : s.loadBy read = .ok t := by
  simp only [loadBy, documentBy, hpath, hd, ht, bind, Except.bind]

theorem isSome_path?_of_read {d : Document} (h : s.read = .ok d) : s.path?.isSome := by
  cases s with
  | text own => rfl
  | bytes own => rfl
  | value v =>
    cases v with
    | record entries =>
      simp only [Source.read, Document.ofValue, bind, Except.bind] at h
      split at h
      · simp at h
      · rename_i parts hparts
        obtain ⟨own, rows⟩ := parts
        have hown := (both_eq_ok.mp hparts).1
        rw [path?]
        cases hget : (Value.record entries).get? "path" with
        | none => rfl
        | some found =>
          rw [Value.checkField, hget] at hown
          cases found with
          | text p => rfl
          | _ => simp [Value.checkText, atLoc, flawAt] at hown
    | _ => simp [Source.read, Document.ofValue, flawAt] at h

theorem loadBy_of_path?_eq_none (h : s.path? = none) :
    s.loadBy read = .error (.ended .unwritable) := by
  simp only [loadBy, documentBy, h, bind, Except.bind]

end

end Source

end TreeLint
