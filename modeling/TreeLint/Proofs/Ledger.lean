import Mathlib.Data.List.Nodup
import TreeLint.Proofs.Registration

/-!
A registry beside the ledger of the calls that it granted. All that the registry tells can be read
off the ledger, and so can which call it grants next.
-/

namespace TreeLint

structure Wiring where
  kind : Kind
  rule : Rule

abbrev Ledger :=
  List Wiring

namespace Ledger

def rulesFor (l : Ledger) (kind : Kind) : List Rule :=
  (l.filter (·.kind = kind)).map Wiring.rule

def firsts : List Rule → List Rule
  | [] => []
  | r :: rest => r :: (firsts rest).filter (·.definition != r.definition)

def rules (l : Ledger) : List Rule :=
  firsts (l.map Wiring.rule)

theorem mem_rulesFor {l : Ledger} {kind : Kind} {r : Rule} :
    r ∈ l.rulesFor kind ↔ ⟨kind, r⟩ ∈ l := by
  simp only [rulesFor, List.mem_map, List.mem_filter, decide_eq_true_eq]
  constructor
  · rintro ⟨w, ⟨hw, rfl⟩, rfl⟩
    exact hw
  · intro h
    exact ⟨_, ⟨h, rfl⟩, rfl⟩

theorem rulesFor_append (l m : Ledger) (kind : Kind) :
    Ledger.rulesFor (l ++ m) kind = l.rulesFor kind ++ m.rulesFor kind := by
  simp [rulesFor]

variable {α : Type} {f : Rule → α}

def Admits (l : Ledger) (f : Rule → α) (r : Rule) : Prop :=
  ∀ w ∈ l, f w.rule = f r → w.rule = r

theorem Admits.append {l : Ledger} {r : Rule} (h : l.Admits f r) (kind : Kind) :
    Ledger.Admits (l ++ [⟨kind, r⟩]) f r := by
  intro w hw he
  rcases List.mem_append.mp hw with hw | hw
  · exact h w hw he
  · rw [List.mem_singleton.mp hw]

def Separated (l : Ledger) (f : Rule → α) : Prop :=
  ∀ w ∈ l, l.Admits f w.rule

theorem Separated.append {l : Ledger} (h : l.Separated f) {w : Wiring} (hw : l.Admits f w.rule) :
    Ledger.Separated (l ++ [w]) f := by
  intro v hv u hu he
  rcases List.mem_append.mp hv with hv | hv
  · rcases List.mem_append.mp hu with hu | hu
    · exact h v hv u hu he
    · rw [List.mem_singleton.mp hu] at he ⊢
      exact (hw v hv he.symm).symm
  · rw [List.mem_singleton.mp hv] at he ⊢
    exact hw.append w.kind u hu he

theorem mem_of_mem_firsts {rs : List Rule} {r : Rule} (h : r ∈ firsts rs) : r ∈ rs := by
  induction rs with
  | nil => exact h
  | cons s rest ih =>
    rcases List.mem_cons.mp h with rfl | h
    · simp
    · exact List.mem_cons_of_mem _ (ih (List.mem_filter.mp h).1)

theorem exists_mem_firsts {rs : List Rule} {r : Rule} (h : r ∈ rs) :
    ∃ s ∈ firsts rs, s.definition = r.definition := by
  induction rs with
  | nil => simp at h
  | cons s rest ih =>
    by_cases hs : s.definition = r.definition
    · exact ⟨s, by simp [firsts], hs⟩
    · rcases List.mem_cons.mp h with rfl | h
      · exact absurd rfl hs
      · obtain ⟨first, hfirst, hdefinition⟩ := ih h
        refine ⟨first, List.mem_cons_of_mem _ (List.mem_filter.mpr ⟨hfirst, ?_⟩), hdefinition⟩
        simpa [hdefinition] using fun he => hs (Eq.symm he)

theorem pairwise_firsts (rs : List Rule) :
    (firsts rs).Pairwise fun r s => r.definition ≠ s.definition := by
  induction rs with
  | nil => exact List.Pairwise.nil
  | cons r rest ih =>
    refine List.pairwise_cons.mpr ⟨?_, ih.filter _⟩
    intro s hs he
    simp [List.mem_filter, he] at hs

theorem firsts_append (rs : List Rule) (r : Rule) :
    firsts (rs ++ [r]) =
      if ∃ s ∈ rs, s.definition = r.definition then firsts rs else firsts rs ++ [r] := by
  induction rs with
  | nil => simp [firsts]
  | cons s rest ih =>
    rw [List.cons_append, firsts, firsts, ih]
    by_cases hrest : ∃ t ∈ rest, t.definition = r.definition
    · simp [hrest]
    · by_cases hs : s.definition = r.definition
      · simp [hrest, hs]
      · have hr : r.definition ≠ s.definition := fun he => hs he.symm
        simp [hrest, hs, hr]

theorem rules_append_of_mem {l : Ledger} {w : Wiring} (h : ∃ v ∈ l, v.rule = w.rule) :
    rules (l ++ [w]) = l.rules := by
  obtain ⟨v, hv, hrule⟩ := h
  rw [rules, List.map_append, List.map_singleton, firsts_append, if_pos]
  · rfl
  · exact ⟨v.rule, List.mem_map_of_mem hv, congrArg Rule.definition hrule⟩

theorem rules_append_of_forall {l : Ledger} {w : Wiring}
    (h : ∀ v ∈ l, v.rule.definition ≠ w.rule.definition) :
    rules (l ++ [w]) = l.rules ++ [w.rule] := by
  rw [rules, List.map_append, List.map_singleton, firsts_append, if_neg]
  · rfl
  · rintro ⟨s, hs, hdefinition⟩
    obtain ⟨v, hv, rfl⟩ := List.mem_map.mp hs
    exact h v hv hdefinition

end Ledger

namespace Registry

structure Reflects (r : Registry) (l : Ledger) : Prop where
  rulesFor_eq (kind : Kind) : r.rulesFor kind = l.rulesFor kind
  rules_eq : r.rules = l.rules
  declared : ∀ w ∈ l, w.rule.declares w.kind
  definitions : l.Separated Rule.definition
  ids : l.Separated Rule.id
  nodup : l.Nodup

theorem reflects_empty : empty.Reflects [] where
  rulesFor_eq _ := rfl
  rules_eq := rfl
  declared := by simp
  definitions := by simp [Ledger.Separated]
  ids := by simp [Ledger.Separated]
  nodup := List.nodup_nil

namespace Reflects

variable {r r' : Registry} {l : Ledger} {rule : Rule} {kind : Kind}

theorem mem_rules (h : r.Reflects l) {s : Rule} : s ∈ r.rules ↔ ∃ k, ⟨k, s⟩ ∈ l := by
  rw [h.rules_eq, Ledger.rules]
  constructor
  · intro hs
    obtain ⟨w, hw, rfl⟩ := List.mem_map.mp (Ledger.mem_of_mem_firsts hs)
    exact ⟨w.kind, hw⟩
  · rintro ⟨k, hw⟩
    obtain ⟨first, hfirst, hdefinition⟩ := Ledger.exists_mem_firsts (List.mem_map_of_mem hw)
    obtain ⟨v, hv, rfl⟩ := List.mem_map.mp (Ledger.mem_of_mem_firsts hfirst)
    rwa [h.definitions _ hw v hv hdefinition] at hfirst

theorem contains_iff (h : r.Reflects l) {id : String} :
    r.contains id ↔ ∃ w ∈ l, w.rule.id = id := by
  rw [Registry.contains_iff, List.mem_map]
  constructor
  · rintro ⟨s, hs, rfl⟩
    obtain ⟨k, hw⟩ := h.mem_rules.mp hs
    exact ⟨_, hw, rfl⟩
  · rintro ⟨w, hw, rfl⟩
    exact ⟨w.rule, h.mem_rules.mpr ⟨w.kind, hw⟩, rfl⟩

theorem eq_of_id (h : r.Reflects l) {s t : Rule} (hs : s ∈ r.rules) (ht : t ∈ r.rules)
    (hid : s.id = t.id) : s = t := by
  obtain ⟨k, hw⟩ := h.mem_rules.mp hs
  obtain ⟨k', hv⟩ := h.mem_rules.mp ht
  exact h.ids _ hv _ hw hid

theorem nodup_ids (h : r.Reflects l) : (r.rules.map Rule.id).Nodup := by
  have hpairwise := Ledger.pairwise_firsts (l.map Wiring.rule)
  change l.rules.Pairwise _ at hpairwise
  rw [← h.rules_eq] at hpairwise
  refine List.pairwise_map.mpr (hpairwise.imp_of_mem ?_)
  intro s t hs ht hne hid
  exact hne (congrArg Rule.definition (h.eq_of_id hs ht hid))

theorem get?_eq_some_iff (h : r.Reflects l) {id : String} {s : Rule} :
    r.get? id = some s ↔ s ∈ r.rules ∧ s.id = id := by
  constructor
  · intro hget
    exact ⟨List.mem_of_find?_eq_some hget, by simpa using List.find?_some hget⟩
  · rintro ⟨hs, rfl⟩
    cases hget : r.get? s.id with
    | none => exact absurd (beq_self_eq_true s.id) (List.find?_eq_none.mp hget s hs)
    | some t =>
      have hid : t.id = s.id := by simpa using List.find?_some hget
      rw [h.eq_of_id (List.mem_of_find?_eq_some hget) hs hid]

theorem any_get?_iff (h : r.Reflects l)
    (hrule : l.Admits Rule.definition rule) :
    (r.get? rule.id).any (·.definition != rule.definition) ↔
      ∃ w ∈ l, w.rule.id = rule.id ∧ w.rule ≠ rule := by
  simp only [Option.any_eq_true, bne_iff_ne, ne_eq]
  constructor
  · rintro ⟨s, hs, hne⟩
    obtain ⟨hmem, hid⟩ := h.get?_eq_some_iff.mp hs
    obtain ⟨k, hw⟩ := h.mem_rules.mp hmem
    exact ⟨_, hw, hid, fun he => hne (congrArg Rule.definition he)⟩
  · rintro ⟨w, hw, hid, hne⟩
    exact ⟨w.rule, h.get?_eq_some_iff.mpr ⟨h.mem_rules.mpr ⟨w.kind, hw⟩, hid⟩,
      fun he => hne (hrule w hw he)⟩

theorem occursIn_iff (h : r.Reflects l)
    (hrule : l.Admits Rule.definition rule)
    (hid : l.Admits Rule.id rule) :
    rule.occursIn (r.rulesFor kind) ↔ ⟨kind, rule⟩ ∈ l := by
  rw [h.rulesFor_eq, Rule.occursIn, List.any_eq_true]
  constructor
  · rintro ⟨s, hs, hsame⟩
    have hw := Ledger.mem_rulesFor.mp hs
    obtain rfl : s = rule := by
      rcases Bool.or_eq_true_iff.mp hsame with he | he
      · exact hrule _ hw (by simpa using he)
      · apply hid _ hw
        have hids : rule.id = s.id := by
          simp only [Rule.same, Bool.and_eq_true, beq_iff_eq] at he
          exact he.1.1.1.1.1.1
        exact hids.symm
    exact hw
  · intro hw
    exact ⟨rule, Ledger.mem_rulesFor.mpr hw, by simp⟩

end Reflects

inductive Call where
  | register (kind : KindTag) (rule : Rule)
  | registerRule (rule : Rule)

namespace Call

def rule : Call → Rule
  | register _ rule => rule
  | registerRule rule => rule

def run (r : Registry) : Call → Registry × Option Refusal
  | register kind rule => r.register kind rule
  | registerRule rule => r.registerRule rule

def wirings : Call → Ledger
  | register (.known kind) rule => [⟨kind, rule⟩]
  | register (.raw _) _ => []
  | registerRule rule => rule.kinds.toList.map (⟨·, rule⟩)

def Allowed (l : Ledger) : Call → Prop
  | register (.known kind) rule =>
    rule.declares kind ∧ l.Admits Rule.id rule ∧ ⟨kind, rule⟩ ∉ l
  | register (.raw _) _ => False
  | registerRule rule =>
    rule.kinds.toList ≠ [] ∧ rule.strays = [] ∧ ∀ w ∈ l, w.rule.id ≠ rule.id

end Call

def replay (r : Registry) (l : Ledger) : List Call → Registry × Ledger
  | [] => (r, l)
  | c :: rest =>
    match c.run r with
    | (r, none) => replay r (l ++ c.wirings) rest
    | (r, some _) => replay r l rest

structure Settles (r : Registry) (l : Ledger) (c : Call) : Prop where
  granted_iff : (c.run r).2 = none ↔ c.Allowed l
  granted : (c.run r).2 = none → (c.run r).1.Reflects (l ++ c.wirings)
  refused : (c.run r).2 ≠ none → (c.run r).1.Reflects l

theorem rulesFor_touched (r : Registry) (kind k : Kind) :
    Registry.rulesFor { r with table := change kind id r.table } k = r.rulesFor k := by
  simp only [rulesFor, lookup_change, id_eq, ite_self]

theorem register_eq_none_iff {r : Registry} {kind : Kind} {rule : Rule} :
    (r.register (.known kind) rule).2 = none ↔
      rule.declares kind ∧ ¬ (r.get? rule.id).any (·.definition != rule.definition) ∧
        ¬ rule.occursIn (r.rulesFor kind) := by
  rw [register]
  split
  · next hkind =>
    have hkind : rule.declares kind = false := by simpa using hkind
    simp [hkind]
  · next hkind =>
    split
    · next hother => simp [hother]
    · next hother =>
      dsimp only
      rw [rulesFor_touched]
      split
      · next htwice => simp [htwice]
      · next htwice => simpa [hother, htwice] using hkind

theorem change_id {kind : Kind} {table : List (Kind × List Rule)}
    (h : (table.lookup kind).isSome) : change kind id table = table := by
  induction table with
  | nil => simp at h
  | cons entry rest ih =>
    obtain ⟨k, rules⟩ := entry
    rw [change]
    by_cases hk : k = kind
    · rw [if_pos hk, id_eq]
    · have hne : (kind == k) = false := beq_false_of_ne fun he => hk he.symm
      rw [List.lookup_cons, hne] at h
      rw [if_neg hk, ih h]

theorem eq_of_register_refused {r : Registry} {kind : KindTag} {rule : Rule}
    (h : (r.register kind rule).2 ≠ none) : (r.register kind rule).1 = r := by
  cases kind with
  | raw v => rfl
  | known kind =>
    rw [register] at h ⊢
    split
    · rfl
    · split
      · rfl
      · dsimp only at h ⊢
        split
        · next htwice =>
          -- The rule is found among those of the kind, so the table knows the kind already.
          have hsome : (r.table.lookup kind).isSome := by
            by_contra hnone
            rw [rulesFor_touched, rulesFor, Option.not_isSome_iff_eq_none.mp hnone] at htwice
            simp [Rule.occursIn] at htwice
          rw [change_id hsome]
        · simp_all

namespace Reflects

variable {r r' : Registry} {l : Ledger} {rule : Rule} {kind : Kind}

theorem append (h : r.Reflects l) {w : Wiring} (hdeclared : w.rule.declares w.kind)
    (hrule : l.Admits Rule.definition w.rule) (hid : l.Admits Rule.id w.rule) (hnew : w ∉ l)
    (htable : ∀ k, r'.rulesFor k = if k = w.kind then r.rulesFor k ++ [w.rule] else r.rulesFor k)
    (hrules : r'.rules = if r.contains w.rule.id then r.rules else r.rules ++ [w.rule]) :
    r'.Reflects (l ++ [w]) := by
  refine ⟨?_, ?_, ?_, h.definitions.append hrule, h.ids.append hid, ?_⟩
  · intro k
    rw [htable, h.rulesFor_eq, Ledger.rulesFor_append]
    by_cases hk : w.kind = k
    · simp [Ledger.rulesFor, hk]
    · have hk' : k ≠ w.kind := fun he => hk he.symm
      simp [Ledger.rulesFor, hk, hk']
  · rw [hrules, h.rules_eq]
    by_cases hcontains : r.contains w.rule.id
    · obtain ⟨v, hv, hids⟩ := h.contains_iff.mp hcontains
      rw [if_pos hcontains, Ledger.rules_append_of_mem ⟨v, hv, hid v hv hids⟩]
    · rw [if_neg hcontains, Ledger.rules_append_of_forall]
      intro v hv hdefinition
      exact hcontains (h.contains_iff.mpr ⟨v, hv, congrArg Rule.id (hrule v hv hdefinition)⟩)
  · intro v hv
    rcases List.mem_append.mp hv with hv | hv
    · exact h.declared v hv
    · rw [List.mem_singleton.mp hv]
      exact hdeclared
  · refine List.nodup_append.mpr ⟨h.nodup, by simp, ?_⟩
    rintro v hv u hu rfl
    exact hnew (List.mem_singleton.mp hu ▸ hv)

theorem settles_known (h : r.Reflects l)
    (hrule : l.Admits Rule.definition rule) :
    r.Settles l (.register (.known kind) rule) := by
  have hgranted : (r.register (.known kind) rule).2 = none ↔
      (Call.register (.known kind) rule).Allowed l := by
    rw [register_eq_none_iff, h.any_get?_iff hrule]
    constructor
    · rintro ⟨hkind, hother, htwice⟩
      have hid : l.Admits Rule.id rule := by
        intro w hw hids
        by_contra hne
        exact hother ⟨w, hw, hids, hne⟩
      rw [h.occursIn_iff hrule hid] at htwice
      exact ⟨hkind, hid, htwice⟩
    · rintro ⟨hkind, hid, htwice⟩
      rw [h.occursIn_iff hrule hid]
      refine ⟨hkind, ?_, htwice⟩
      rintro ⟨w, hw, hids, hne⟩
      exact hne (hid w hw hids)
  refine ⟨hgranted, fun hnone => ?_, fun hrefused => ?_⟩
  · obtain ⟨hkind, hid, htwice⟩ := hgranted.mp hnone
    obtain ⟨-, htable, hrules⟩ := of_register (Prod.ext rfl hnone)
    exact h.append (w := ⟨kind, rule⟩) hkind hrule hid htwice htable hrules
  · change (r.register (.known kind) rule).1.Reflects l
    rwa [eq_of_register_refused hrefused]

theorem registerEach (h : r.Reflects l) {kinds : List Kind} (hkinds : kinds.Nodup)
    (hdeclared : ∀ k ∈ kinds, rule.declares k)
    (hrule : l.Admits Rule.definition rule)
    (hid : l.Admits Rule.id rule)
    (hnew : ∀ k ∈ kinds, ⟨k, rule⟩ ∉ l) :
    (r.registerEach rule kinds).2 = none ∧
      (r.registerEach rule kinds).1.Reflects (l ++ kinds.map (⟨·, rule⟩)) := by
  induction kinds generalizing r l with
  | nil => simpa [Registry.registerEach] using h
  | cons k rest ih =>
    obtain ⟨hk, hrest⟩ := List.nodup_cons.mp hkinds
    have hsettles : r.Settles l (.register (.known k) rule) := h.settles_known hrule
    have hnone := hsettles.granted_iff.mpr ⟨hdeclared k (by simp), hid, hnew k (by simp)⟩
    have hreflects := hsettles.granted hnone
    have hcall : r.register (.known k) rule = ((r.register (.known k) rule).1, none) :=
      Prod.ext rfl hnone
    rw [Registry.registerEach, hcall]
    obtain ⟨hrestNone, hrestReflects⟩ := ih hreflects hrest
      (fun k' hk' => hdeclared k' (List.mem_cons_of_mem _ hk')) (hrule.append k) (hid.append k)
      (by
        intro k' hk' hw
        rcases List.mem_append.mp hw with hw | hw
        · exact hnew k' (List.mem_cons_of_mem _ hk') hw
        · obtain rfl := (Wiring.mk.inj (List.mem_singleton.mp hw)).1
          exact hk hk')
    refine ⟨hrestNone, ?_⟩
    rw [List.map_cons, ← List.singleton_append, ← List.append_assoc]
    exact hrestReflects

end Reflects

def Ready (r : Registry) (rule : Rule) : Prop :=
  rule.kinds.toList ≠ [] ∧ rule.strays = [] ∧ ¬ r.contains rule.id

theorem registerRule_of_ready {r : Registry} {rule : Rule} (h : r.Ready rule) :
    r.registerRule rule = r.registerEach rule rule.kinds.toList := by
  obtain ⟨hkinds, hstrays, hnew⟩ := h
  rw [registerRule, if_neg (by simp [KindSet.isEmpty, hkinds]), if_neg hnew,
    if_neg (by simp [hstrays])]

theorem registerRule_of_not_ready {r : Registry} {rule : Rule} (h : ¬ r.Ready rule) :
    ∃ refusal, r.registerRule rule = (r, some refusal) := by
  rw [registerRule]
  split
  · exact ⟨_, rfl⟩
  · next hsome =>
    split
    · exact ⟨_, rfl⟩
    · next hnew =>
      split
      · exact ⟨_, rfl⟩
      · next hstrays =>
        have hstrays : rule.strays = [] := by simpa using hstrays
        refine absurd ⟨?_, hstrays, hnew⟩ h
        intro hnil
        simp [KindSet.isEmpty, hnil, hstrays] at hsome

theorem Reflects.settles_registerRule {r : Registry} {l : Ledger} {rule : Rule} (h : r.Reflects l)
    (hrule : l.Admits Rule.definition rule) : r.Settles l (.registerRule rule) := by
  have hready : r.Ready rule ↔ (Call.registerRule rule).Allowed l := by
    simp only [Ready, Call.Allowed, h.contains_iff, not_exists, not_and]
  by_cases hallowed : r.Ready rule
  · obtain ⟨-, hstrays, hnew⟩ := hready.mp hallowed
    obtain ⟨hnone, hreflects⟩ := h.registerEach rule.kinds.nodup_toList
      (fun k hk => by simpa [Rule.declares_of_strays_nil hstrays] using KindSet.mem_toList.mp hk)
      hrule (fun w hw hids => absurd hids (hnew w hw)) (fun k _ hw => hnew _ hw rfl)
    rw [← registerRule_of_ready hallowed] at hnone hreflects
    exact ⟨⟨fun _ => hready.mp hallowed, fun _ => hnone⟩, fun _ => hreflects,
      fun hrefused => absurd hnone hrefused⟩
  · obtain ⟨refusal, hcall⟩ := registerRule_of_not_ready hallowed
    have hrun : (Call.registerRule rule).run r = (r, some refusal) := hcall
    refine ⟨?_, ?_, ?_⟩
    · rw [hrun, ← hready]
      simpa using hallowed
    · rw [hrun]
      simp
    · rw [hrun]
      exact fun _ => h

theorem Reflects.settles {r : Registry} {l : Ledger} (h : r.Reflects l) {c : Call}
    (hrule : l.Admits Rule.definition c.rule) : r.Settles l c := by
  match c with
  | .register (.known kind) rule => exact h.settles_known hrule
  | .register (.raw v) rule => exact ⟨by simp [Call.run, register, Call.Allowed],
      by simp [Call.run, register], fun _ => h⟩
  | .registerRule rule => exact h.settles_registerRule hrule

theorem Call.rule_eq_of_mem_wirings {c : Call} {w : Wiring} (hw : w ∈ c.wirings) :
    w.rule = c.rule := by
  match c with
  | .register (.known kind) rule =>
    rw [List.mem_singleton.mp hw]
    rfl
  | .register (.raw v) rule => simp [wirings] at hw
  | .registerRule rule =>
    obtain ⟨k, -, rfl⟩ := List.mem_map.mp hw
    rfl

/-- A definition stands for one rule in all the calls. -/
def Consistent (calls : List Call) : Prop :=
  ∀ c ∈ calls, ∀ c' ∈ calls, c.rule.definition = c'.rule.definition → c.rule = c'.rule

theorem mem_replay {r : Registry} {l : Ledger} {calls : List Call} {w : Wiring}
    (hw : w ∈ (r.replay l calls).2) : w ∈ l ∨ ∃ c ∈ calls, w.rule = c.rule := by
  induction calls generalizing r l with
  | nil => exact .inl hw
  | cons c rest ih =>
    rw [Registry.replay] at hw
    split at hw
    · rcases ih hw with hw | ⟨c', hc', hrule⟩
      · rcases List.mem_append.mp hw with hw | hw
        · exact .inl hw
        · exact .inr ⟨c, by simp, Call.rule_eq_of_mem_wirings hw⟩
      · exact .inr ⟨c', List.mem_cons_of_mem _ hc', hrule⟩
    · rcases ih hw with hw | ⟨c', hc', hrule⟩
      · exact .inl hw
      · exact .inr ⟨c', List.mem_cons_of_mem _ hc', hrule⟩

theorem Reflects.replay {r : Registry} {l : Ledger} (h : r.Reflects l) {calls : List Call}
    (hcalls : Consistent calls) (hl : ∀ c ∈ calls, l.Admits Rule.definition c.rule) :
    (r.replay l calls).1.Reflects (r.replay l calls).2 := by
  induction calls generalizing r l with
  | nil => exact h
  | cons c rest ih =>
    have hrest : Consistent rest := fun c' hc' c'' hc'' =>
      hcalls c' (List.mem_cons_of_mem _ hc') c'' (List.mem_cons_of_mem _ hc'')
    have hsettles := h.settles (hl c (by simp))
    rw [Registry.replay]
    split
    · next r₁ hrun =>
      have hreflects := hsettles.granted (congrArg Prod.snd hrun)
      rw [hrun] at hreflects
      apply ih hreflects hrest
      intro c' hc' w hw he
      rcases List.mem_append.mp hw with hw | hw
      · exact hl c' (List.mem_cons_of_mem _ hc') w hw he
      · rw [Call.rule_eq_of_mem_wirings hw] at he ⊢
        exact hcalls c (by simp) c' (List.mem_cons_of_mem _ hc') he
    · next r₁ refusal hrun =>
      have hreflects := hsettles.refused (by simp [hrun])
      rw [hrun] at hreflects
      exact ih hreflects hrest fun c' hc' => hl c' (List.mem_cons_of_mem _ hc')

theorem reflects_replay {calls : List Call} {c : Call} (h : Consistent (c :: calls)) :
    (empty.replay [] calls).1.Reflects (empty.replay [] calls).2 ∧
      (empty.replay [] calls).2.Admits Rule.definition c.rule := by
  constructor
  · apply reflects_empty.replay
    · intro c' hc' c'' hc''
      exact h c' (List.mem_cons_of_mem _ hc') c'' (List.mem_cons_of_mem _ hc'')
    · simp [Ledger.Admits]
  · intro w hw he
    rcases mem_replay hw with hw | ⟨c', hc', hcall⟩
    · simp at hw
    · rw [hcall] at he ⊢
      exact h c' (List.mem_cons_of_mem _ hc') c (by simp) he

/--
After any calls the registry tells what the ledger of the granted ones tells, and it grants the next
call if and only if the ledger allows it.
-/
theorem replay_exact (calls : List Call) (c : Call) (h : Consistent (c :: calls)) :
    let r := (empty.replay [] calls).1
    let l := (empty.replay [] calls).2
    (∀ kind, r.rulesFor kind = l.rulesFor kind ∧ (l.rulesFor kind).Nodup ∧
        ∀ rule ∈ l.rulesFor kind, rule.declares kind) ∧
      r.rules = l.rules ∧ (l.rules.map Rule.id).Nodup ∧
      (∀ rule, rule ∈ l.rules ↔ ∃ kind, ⟨kind, rule⟩ ∈ l) ∧
      (∀ id rule, r.get? id = some rule ↔ rule ∈ l.rules ∧ rule.id = id) ∧
      (∀ id, r.contains id ↔ ∃ rule ∈ l.rules, rule.id = id) ∧
      r.size = l.rules.length ∧
      (∀ kind, r.kinds.has kind ↔ ∃ rule ∈ l.rules, ⟨kind, rule⟩ ∈ l) ∧
      ((c.run r).2 = none ↔ c.Allowed l) := by
  intro r l
  obtain ⟨hreflects, hrule⟩ : r.Reflects l ∧ l.Admits Rule.definition c.rule := reflects_replay h
  rw [← hreflects.rules_eq]
  refine ⟨?_, rfl, hreflects.nodup_ids, fun rule => hreflects.mem_rules,
    fun id rule => hreflects.get?_eq_some_iff, ?_, rfl, ?_, (hreflects.settles hrule).granted_iff⟩
  · intro kind
    refine ⟨hreflects.rulesFor_eq kind, ?_, ?_⟩
    · refine (hreflects.nodup.filter _).map_on ?_
      intro w hw v hv he
      obtain ⟨-, hkind⟩ := List.mem_filter.mp hw
      obtain ⟨-, hkind'⟩ := List.mem_filter.mp hv
      cases w
      cases v
      simp_all
    · intro rule hmem
      exact hreflects.declared _ (Ledger.mem_rulesFor.mp hmem)
  · intro id
    rw [contains_iff, List.mem_map]
  · intro kind
    have hkinds : r.kinds.has kind ↔ r.rulesFor kind ≠ [] := by simp [kinds]
    rw [hkinds, hreflects.rulesFor_eq]
    constructor
    · intro hne
      obtain ⟨rule, hmem⟩ := List.exists_mem_of_ne_nil _ hne
      have hw := Ledger.mem_rulesFor.mp hmem
      exact ⟨rule, hreflects.mem_rules.mpr ⟨kind, hw⟩, hw⟩
    · rintro ⟨rule, -, hw⟩
      exact List.ne_nil_of_mem (Ledger.mem_rulesFor.mpr hw)

theorem replay_exact_half_wired :
    let notes : Rule := ⟨1, "A1", "notes", .ofList [.block, .modifier], [], "", .info, "c",
      fun _ _ => .abstain⟩
    let twin : Rule := { notes with definition := 2 }
    let loose : Rule := ⟨3, "B2", "loose", .ofList [.block], [.int 7], "", .info, "c",
      fun _ _ => .abstain⟩
    let calls : List Call := [.register (.known .block) notes, .registerRule twin,
      .registerRule loose, .register (.raw (.int 7)) loose, .register (.known .block) loose]
    let next : Call := .register (.known .modifier) notes
    let r := (empty.replay [] calls).1
    Consistent (next :: calls) ∧
      (empty.replay [] calls).2 = [⟨.block, notes⟩, ⟨.block, loose⟩] ∧
      r.rules = [notes, loose] ∧ r.rulesFor .block = [notes, loose] ∧ (next.run r).2 = none := by
  intro notes twin loose calls next r
  have hconsistent : Consistent (next :: calls) := by
    have hrule : ∀ c ∈ next :: calls, c.rule = notes ∨ c.rule = twin ∨ c.rule = loose := by
      simp [next, calls, Call.rule]
    intro c hc c' hc' he
    rcases hrule c hc with h | h | h <;> rcases hrule c' hc' with h' | h' | h' <;>
      simp_all [notes, twin, loose]
  have hledger : (empty.replay [] calls).2 = [⟨.block, notes⟩, ⟨.block, loose⟩] := rfl
  obtain ⟨htable, hrules, -, -, -, -, -, -, hnext⟩ := replay_exact calls next hconsistent
  rw [hledger] at htable hrules hnext
  refine ⟨hconsistent, hledger, ?_, ?_, ?_⟩
  · rw [hrules]
    rfl
  · rw [(htable .block).1]
    rfl
  · rw [hnext]
    refine ⟨rfl, ?_, ?_⟩
    · simp [Ledger.Admits, notes, loose]
    · simp [notes, loose]

end Registry

end TreeLint
