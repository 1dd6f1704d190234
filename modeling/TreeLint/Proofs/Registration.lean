import TreeLint.Rule.Registry

namespace TreeLint.Registry

theorem contains_iff {r : Registry} {id : String} : r.contains id ↔ id ∈ r.rules.map Rule.id := by
  simp [contains, get?]

theorem of_register {r r' : Registry} {kind : Kind} {rule : Rule}
    (h : r.register (.known kind) rule = (r', none)) :
    rule.declares kind ∧
      (∀ k, r'.rulesFor k = if k = kind then r.rulesFor k ++ [rule] else r.rulesFor k) ∧
      r'.rules = if r.contains rule.id then r.rules else r.rules ++ [rule] := by
  rw [register] at h
  split at h
  · simp at h
  · next hkind =>
    split at h
    · simp at h
    · dsimp only at h
      split at h
      · simp at h
      · obtain rfl := (Prod.mk.inj h).1
        refine ⟨by simpa using hkind, ?_, rfl⟩
        intro k
        simp only [rulesFor, lookup_change, id_eq, ite_self]

theorem contains_of_register {r r' : Registry} {kind : Kind} {rule : Rule}
    (h : r.register (.known kind) rule = (r', none)) : r'.contains rule.id := by
  rw [contains_iff, (of_register h).2.2]
  by_cases hin : r.contains rule.id
  · rw [if_pos hin]
    exact contains_iff.mp hin
  · simp [hin]

theorem of_registerEach {r r' : Registry} {rule : Rule} {kinds : List Kind} (hkinds : kinds.Nodup)
    (h : r.registerEach rule kinds = (r', none)) :
    (∀ k, r'.rulesFor k = if k ∈ kinds then r.rulesFor k ++ [rule] else r.rulesFor k) ∧
      r'.rules = if kinds = [] ∨ r.contains rule.id then r.rules else r.rules ++ [rule] := by
  induction kinds generalizing r with
  | nil =>
    obtain rfl : r = r' := (Prod.mk.inj h).1
    simp
  | cons kind rest ih =>
    rw [registerEach] at h
    split at h
    · next r₁ hfirst =>
      obtain ⟨hnew, hrest⟩ := List.nodup_cons.mp hkinds
      obtain ⟨-, htable, hrules⟩ := of_register hfirst
      obtain ⟨htable', hrules'⟩ := ih hrest h
      constructor
      · intro k
        rw [htable' k, htable k]
        by_cases hk : k = kind
        · subst hk
          simp [hnew]
        · simp [hk]
      · rw [hrules', if_pos (.inr (contains_of_register hfirst)), hrules]
        simp
    · next refusal hfirst => simp at h

structure Holds (r : Registry) (rules : List Rule) : Prop where
  rules_eq : r.rules = rules
  rulesFor_eq (k : Kind) : r.rulesFor k = rules.filter (·.kinds.has k)
  nodup : (rules.map Rule.id).Nodup

theorem holds_empty : empty.Holds [] where
  rules_eq := rfl
  rulesFor_eq _ := rfl
  nodup := List.nodup_nil

namespace Holds

variable {r r' : Registry} {rules : List Rule}

theorem registerRule (hr : r.Holds rules) {rule : Rule}
    (h : r.registerRule rule = (r', none)) : r'.Holds (rules ++ [rule]) := by
  rw [Registry.registerRule] at h
  split at h
  · simp at h
  · next hsome =>
    split at h
    · simp at h
    · next hnew =>
      split at h
      · simp at h
      · next hstrays =>
        have hkinds : rule.kinds.toList ≠ [] := by
          intro hnil
          have hnone : rule.strays = [] := by simpa using hstrays
          simp [KindSet.isEmpty, hnil, hnone] at hsome
        obtain ⟨htable, hrules⟩ := of_registerEach rule.kinds.nodup_toList h
        refine ⟨?_, ?_, ?_⟩
        · rw [hrules, if_neg (by simp [hkinds, hnew]), hr.rules_eq]
        · intro k
          rw [htable k, hr.rulesFor_eq k, List.filter_append]
          by_cases hk : rule.kinds.has k
          · simp [KindSet.mem_toList, hk]
          · simp [KindSet.mem_toList, hk]
        · rw [contains_iff, hr.rules_eq] at hnew
          rw [List.map_append, List.nodup_append]
          refine ⟨hr.nodup, by simp, ?_⟩
          intro id hid other hother heq
          obtain rfl : other = rule.id := by simpa using hother
          exact hnew (heq ▸ hid)

theorem addAll (hr : r.Holds rules) {more added : List Rule}
    (h : r.addAll more = (r', added, none)) : r'.Holds (rules ++ more) := by
  induction more generalizing r rules added with
  | nil =>
    obtain rfl : r = r' := (Prod.mk.inj h).1
    rwa [List.append_nil]
  | cons rule rest ih =>
    rw [Registry.addAll] at h
    split at h
    · next r₁ hfirst =>
      cases hrest : r₁.addAll rest with
      | mk r₂ tail =>
        obtain ⟨added', refusal⟩ := tail
        rw [hrest] at h
        obtain ⟨rfl, -, rfl⟩ : r₂ = r' ∧ rule :: added' = added ∧ refusal = none := by
          simpa using h
        have := ih (hr.registerRule hfirst) hrest
        rwa [List.append_assoc] at this
    · next refusal hfirst => simp at h

end Holds

theorem holds_ofRules {rules : List Rule} {r : Registry} (h : ofRules rules = .ok r) :
    r.Holds rules := by
  rw [ofRules] at h
  split at h
  · next r₁ added hadd =>
    obtain rfl : r₁ = r := Except.ok.inj h
    exact holds_empty.addAll hadd
  · simp at h

theorem holds_builtin : builtin.Holds Rule.catalogue := by
  have hadd : empty.addAll Rule.catalogue = (builtin, Rule.catalogue, none) := rfl
  exact holds_empty.addAll hadd

theorem Holds.filter_id {r : Registry} {rules : List Rule} (hr : r.Holds rules) {rule : Rule}
    (hrule : rule ∈ rules) : rules.filter (·.id == rule.id) = [rule] := by
  obtain ⟨before, after, rfl⟩ := List.append_of_mem hrule
  have hnodup := hr.nodup
  rw [List.map_append, List.map_cons, List.nodup_append, List.nodup_cons] at hnodup
  obtain ⟨-, ⟨hafter, -⟩, hbefore⟩ := hnodup
  have hnone : before.filter (·.id == rule.id) = [] := by
    rw [List.filter_eq_nil_iff]
    intro other hother heq
    exact hbefore other.id (List.mem_map_of_mem hother) rule.id (by simp) (by simpa using heq)
  have hnone' : after.filter (·.id == rule.id) = [] := by
    rw [List.filter_eq_nil_iff]
    intro other hother heq
    exact hafter (List.mem_map.mpr ⟨other, hother, by simpa using heq⟩)
  simp [hnone, hnone']

end TreeLint.Registry
