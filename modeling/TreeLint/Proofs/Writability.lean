import Mathlib.Algebra.Ring.Nat
import TreeLint.Document.Load
import TreeLint.Proofs.Liveness

namespace TreeLint

theorem Decimal.isWritable_iff (n : Int) : isWritable n ↔ n.natAbs < 10 ^ mostDigits := by
  rw [isWritable, decide_eq_true_iff]
  exact Nat.length_toDigits_le_iff (by decide) (by decide)

theorem Decimal.isSome_integerText?_iff (n : Int) : (integerText? n).isSome ↔ isWritable n := by
  simp [integerText?]

namespace Value

open Decimal

mutual

def integers : Value → List Int
  | int n => [n]
  | list items => itemIntegers items
  | record entries => entriesIntegers entries
  | _ => []

def itemIntegers : List Value → List Int
  | [] => []
  | v :: rest => v.integers ++ itemIntegers rest

def entriesIntegers : List (String × Value) → List Int
  | [] => []
  | e :: rest => entryIntegers e ++ entriesIntegers rest

def entryIntegers : String × Value → List Int
  | (_, v) => v.integers

end

theorem isSome_pair {α : Type} {x : Option α} {xs : Option (List α)} :
    (do return (← x) :: (← xs) : Option (List α)).isSome ↔ x.isSome ∧ xs.isSome := by
  cases x <;> cases xs <;> simp

mutual

theorem isSome_literal?_iff : ∀ v : Value, v.literal?.isSome ↔ ∀ n ∈ v.integers, isWritable n
  | null => by simp [literal?, integers]
  | bool true => by simp [literal?, integers]
  | bool false => by simp [literal?, integers]
  | int n => by simp [literal?, integers, isSome_integerText?_iff]
  | float x => by simp [literal?, integers]
  | text s => by simp [literal?, integers]
  | list items => by
    rw [literal?, Option.isSome_map, integers]
    exact isSome_literals?_iff items
  | record entries => by
    rw [literal?, Option.isSome_map, integers]
    exact isSome_entryLiterals?_iff entries

theorem isSome_literals?_iff :
    ∀ vs : List Value, (literals? vs).isSome ↔ ∀ n ∈ itemIntegers vs, isWritable n
  | [] => by simp [literals?, itemIntegers]
  | v :: rest => by
    rw [literals?, isSome_pair, itemIntegers, List.forall_mem_append]
    exact and_congr (isSome_literal?_iff v) (isSome_literals?_iff rest)

theorem isSome_entryLiterals?_iff : ∀ es : List (String × Value),
    (entryLiterals? es).isSome ↔ ∀ n ∈ entriesIntegers es, isWritable n
  | [] => by simp [entryLiterals?, entriesIntegers]
  | e :: rest => by
    rw [entryLiterals?, isSome_pair, entriesIntegers, List.forall_mem_append]
    exact and_congr (isSome_entryLiteral?_iff e) (isSome_entryLiterals?_iff rest)

theorem isSome_entryLiteral?_iff :
    ∀ e : String × Value, (entryLiteral? e).isSome ↔ ∀ n ∈ entryIntegers e, isWritable n
  | (key, v) => by
    rw [entryLiteral?, Option.isSome_map, entryIntegers]
    exact isSome_literal?_iff v

end

theorem isSome_display?_iff (v : Value) : v.display?.isSome ↔ ∀ n ∈ v.integers, isWritable n := by
  cases v with
  | text s => simp [display?, integers]
  | _ => exact isSome_literal?_iff _

end Value

theorem Source.isSome_path?_iff (s : Source) :
    s.path?.isSome ↔ ∀ v p, s = .value v → v.get? "path" = some p →
      ∀ n ∈ p.integers, Decimal.isWritable n := by
  cases s with
  | text s => simp [path?]
  | bytes b => simp [path?]
  | value v =>
    rw [path?]
    constructor
    · rintro h _ p ⟨⟩ hp
      rw [hp] at h
      exact p.isSome_display?_iff.mp h
    · intro h
      cases hp : v.get? "path" with
      | none => rfl
      | some p => exact p.isSome_display?_iff.mpr (h v p rfl hp)

theorem KindTag.isSome_display?_iff (t : KindTag) :
    t.display?.isSome ↔ ∀ n ∈ t.value.integers, Decimal.isWritable n := by
  cases t with
  | known k => simp [display?, value, Value.integers]
  | raw v => exact v.isSome_display?_iff

theorem Span.isSome_text?_iff (s : Span) :
    s.text?.isSome ↔ Decimal.isWritable s.line ∧ Decimal.isWritable s.column := by
  rw [← Decimal.isSome_integerText?_iff, ← Decimal.isSome_integerText?_iff, text?]
  cases Decimal.integerText? s.line <;> cases Decimal.integerText? s.column <;> simp

theorem Label.isSome_describe?_iff (l : Label) (kind : String) :
    (l.describe? kind).isSome ↔ l.span.text?.isSome := by
  rw [describe?]
  cases l.span.text? <;> simp

namespace Draft

def Writable (root : Draft) : Prop :=
  ∀ d, root.Within d → d.describe?.isSome

variable {d : Draft}

theorem isSome_describe?_node {serial : Nat} {kind : KindTag} {label : Label}
    {children : List Draft} :
    (node serial kind label children).describe?.isSome ↔
      kind.display?.isSome ∧ label.span.text?.isSome := by
  rw [describe?]
  cases kind.display? with
  | none => simp
  | some name => simp [Label.isSome_describe?_iff]

/-- No integer of a node or value needs more digits than can be written, be it a line, a column or a
part of a kind that is none. -/
theorem isSome_describe?_iff (d : Draft) : d.describe?.isSome ↔
    match d with
    | node _ kind label _ => (∀ n ∈ kind.value.integers, Decimal.isWritable n) ∧
        Decimal.isWritable label.span.line ∧ Decimal.isWritable label.span.column
    | foreign _ v => ∀ n ∈ v.integers, Decimal.isWritable n := by
  cases d with
  | node serial kind label children =>
    rw [isSome_describe?_node, kind.isSome_display?_iff, label.span.isSome_text?_iff]
  | foreign mark v => exact v.isSome_literal?_iff

theorem Writable.self (h : d.Writable) : d.describe?.isSome :=
  h d .root

theorem Writable.child {c : Draft} (h : d.Writable) (hc : c ∈ d.children) : c.Writable :=
  fun e he => h e (.of_child hc he)

theorem isSome_message?_unknownKind {serial : Nat} {v : Value} {label : Label}
    {children : List Draft} (h : (node serial (.raw v) label children).Writable) :
    (Malformed.unknownKind v).message?.isSome := by
  have hdisplay := (isSome_describe?_node.mp h.self).1
  rw [KindTag.display?, v.isSome_display?_iff, ← v.isSome_literal?_iff] at hdisplay
  obtain ⟨text, htext⟩ := Option.isSome_iff_exists.mp hdisplay
  simp [Malformed.message?, htext]

mutual

theorem isSome_message?_of_settle (d : Draft) {fault : Malformed} (hd : d.Writable)
    (h : d.settle = .error fault) : fault.message?.isSome := by
  match d with
  | node serial (.known kind) label children =>
    have hall : settleAll children = .error fault := by
      rw [settle] at h
      cases hchildren : settleAll children with
      | ok ns => simp [hchildren, Except.map] at h
      | error other => simpa [hchildren, Except.map] using h
    exact isSome_message?_of_settleAll children (fun c hc => hd.child hc) hall
  | node serial (.raw v) label children =>
    obtain rfl : Malformed.unknownKind v = fault := by simpa [settle] using h
    exact isSome_message?_unknownKind hd
  | foreign mark v =>
    obtain rfl : Malformed.rootNotNode v = fault := by simpa [settle] using h
    rfl

theorem isSome_message?_of_settleAll (ds : List Draft) {fault : Malformed}
    (hds : ∀ d ∈ ds, d.Writable) (h : settleAll ds = .error fault) : fault.message?.isSome := by
  match ds with
  | [] => simp [settleAll] at h
  | d :: rest =>
    rw [List.forall_mem_cons] at hds
    rw [settleAll] at h
    cases hd : d.settle with
    | error other =>
      obtain rfl : other = fault := by simpa [hd] using h
      exact isSome_message?_of_settle d hds.1 hd
    | ok n =>
      cases hrest : settleAll rest with
      | ok ns => simp [hd, hrest] at h
      | error other =>
        obtain rfl : other = fault := by simpa [hd, hrest] using h
        exact isSome_message?_of_settleAll rest hds.2 hrest

end

end Draft

namespace Forest

variable {f : Forest} {fault : Malformed}

end Forest

end TreeLint
