import TreeLint.Proofs.Linking
import TreeLint.Proofs.Liveness

namespace TreeLint.Forest

open Draft

structure Sound (f : Forest) (held : List Draft) : Prop where
  coherent : Coherent held
  serial_lt : ∀ d, Live held d → ∀ s, d.serial? = some s → s < f.size
  child_lt : ∀ d, Live held d → ∀ r, d.serial? = some r →
    ∀ c ∈ d.children, ∀ s, c.serial? = some s → s < r
  linked : ∀ s p, f.parentOf? s = some p → Live held p ∧ ∃ c ∈ p.children, c.serial? = some s

theorem sound_empty : empty.Sound [] where
  coherent := by simp [Coherent, Live]
  serial_lt := by simp [Live]
  child_lt := by simp [Live]
  linked := by simp [parentOf?, empty]

theorem size_collect (f : Forest) (held : List Draft) : (f.collect held).size = f.size := by
  simp [collect, size]

theorem parent?_eq_some_iff {f : Forest} {c p : Draft} :
    f.parent? c = some p ↔ ∃ s, c.serial? = some s ∧ f.parentOf? s = some p :=
  Option.bind_eq_some_iff

namespace Sound

variable {f : Forest} {held held' : List Draft} {c d p : Draft}

theorem eq_of_serial? (h : f.Sound held) (hc : Live held c) (hd : Live held d) {s : Nat}
    (hcs : c.serial? = some s) (hds : d.serial? = some s) : c = d :=
  h.coherent c d hc hd (isNode_of_serial? hcs) (hcs.trans hds.symm)

theorem live_parent (h : f.Sound held) (hp : f.parent? c = some p) : Live held p := by
  obtain ⟨s, -, hlink⟩ := parent?_eq_some_iff.mp hp
  exact (h.linked s p hlink).1

theorem mem_children (h : f.Sound held) (hc : Live held c) (hp : f.parent? c = some p) :
    c ∈ p.children := by
  obtain ⟨s, hs, hlink⟩ := parent?_eq_some_iff.mp hp
  obtain ⟨hlive, b, hb, hbs⟩ := h.linked s p hlink
  rwa [h.eq_of_serial? hc (hlive.child hb) hs hbs]

theorem parent?_eq_none (h : f.Sound held) (hc : Live held c)
    (hfree : ∀ p, Live held p → c ∉ p.children) : f.parent? c = none := by
  rw [Option.eq_none_iff_forall_ne_some]
  intro p hp
  exact hfree p (h.live_parent hp) (h.mem_children hc hp)

theorem serial_lt_parent (h : f.Sound held) {s r : Nat} (hs : f.parentOf? s = some p)
    (hr : p.serial? = some r) : s < r := by
  obtain ⟨hlive, b, hb, hbs⟩ := h.linked s p hs
  exact h.child_lt p hlive r hr b hb s hbs

theorem parent?_eq_none_of_newest (h : f.Sound held) {s : Nat} (hs : d.serial? = some s)
    (hsize : f.size = s + 1) : f.parent? d = none := by
  rw [parent?, hs, Option.bind_some, Option.eq_none_iff_forall_ne_some]
  intro p hp
  obtain ⟨hlive, b, hb, -⟩ := h.linked s p hp
  obtain ⟨r, hr⟩ := exists_serial? (isNode_of_mem_children hb)
  have hlt := h.serial_lt p hlive r hr
  have := h.serial_lt_parent hp hr
  omega

theorem parentOf?_collect_eq_some_iff (h : f.Sound held) (hheld : ∀ d ∈ held', Offers held d)
    {s : Nat} :
    (f.collect held').parentOf? s = some p ↔ f.parentOf? s = some p ∧ Live held' p := by
  have hreach := fun r => mem_reach_iff (h.coherent.of_offers hheld) (s := r)
  rw [parentOf?_collect, Option.filter_eq_some_iff]
  refine and_congr_right fun hlink => ?_
  obtain ⟨hlive, b, hb, -⟩ := h.linked s p hlink
  have hnode := isNode_of_mem_children hb
  obtain ⟨r, hr⟩ := exists_serial? hnode
  rw [hr, Option.any_some, List.contains_iff_mem, hreach]
  -- The collector looks for the serial number of the parent among those within reach.
  constructor
  · rintro ⟨q, hq, hqr⟩
    rwa [h.eq_of_serial? hlive (live_of_offers hheld hq (isNode_of_serial? hqr)) hr hqr]
  · intro hp
    exact ⟨p, hp, hr⟩

theorem collect (h : f.Sound held) (hheld : ∀ d ∈ held', Offers held d) :
    (f.collect held').Sound held' where
  coherent := h.coherent.of_offers hheld
  serial_lt d hd s hs := by
    rw [size_collect]
    exact h.serial_lt d (live_of_offers hheld hd (isNode_of_serial? hs)) s hs
  child_lt d hd r hr := h.child_lt d (live_of_offers hheld hd (isNode_of_serial? hr)) r hr
  linked s p hlink := by
    obtain ⟨hlink, hlive⟩ := (h.parentOf?_collect_eq_some_iff hheld).mp hlink
    exact ⟨hlive, (h.linked s p hlink).2⟩

theorem collect_eq (h : f.Sound held) (hheld : ∀ d ∈ held', Offers held d)
    (hall : ∀ d ∈ held, Live held' d) : f.collect held' = f := by
  have hlinks : ∀ s, (f.collect held').parentOf? s = f.parentOf? s := by
    intro s
    apply Option.ext
    intro p
    rw [h.parentOf?_collect_eq_some_iff hheld]
    refine ⟨fun hp => hp.1, fun hp => ⟨hp, ?_⟩⟩
    obtain ⟨r, hr, hrp⟩ := (h.linked s p hp).1
    exact (hall r hr).within hrp
  have hext : (f.collect held').links = f.links → f.collect held' = f := congrArg Forest.mk
  apply hext
  apply Array.ext_getElem?
  intro s
  have hs := hlinks s
  simp only [Forest.collect, parentOf?, Array.getElem?_map] at hs ⊢
  cases hlink : f.links[s]? with
  | none => rfl
  | some link =>
    rw [hlink] at hs
    exact congrArg some hs

section Construct

variable (kind : KindTag) (label : Label) {children : List Draft}

theorem serial_lt_of_offers (h : f.Sound held) (hchildren : ∀ c ∈ children, Offers held c) :
    ∀ s ∈ children.filterMap serial?, s < f.size := by
  intro s hs
  obtain ⟨c, hc, hcs⟩ := List.mem_filterMap.mp hs
  rcases hchildren c hc with hlive | hvalue
  · exact h.serial_lt c hlive s hcs
  · exact absurd (isNode_of_serial? hcs) hvalue

theorem live_construct {s : Nat} (hchildren : ∀ c ∈ children, Offers held c)
    (hd : Live (.node s kind label children :: held) d) (hnode : d.isNode) :
    d = .node s kind label children ∨ Live held d := by
  obtain ⟨r, hr, hrd⟩ := hd
  rcases List.mem_cons.mp hr with rfl | hr
  · rcases hrd.eq_or_child with rfl | ⟨c, hc, hcd⟩
    · exact .inl rfl
    · exact .inr (live_of_offers hchildren ⟨c, hc, hcd⟩ hnode)
  · exact .inr ⟨r, hr, hrd⟩

theorem construct (h : f.Sound held) (hchildren : ∀ c ∈ children, Offers held c) :
    (f.construct kind label children).2.Sound
      ((f.construct kind label children).1 :: held) := by
  have hsize := size_construct f kind label children
  have hlive : ∀ {d s}, Live ((f.construct kind label children).1 :: held) d →
      d.serial? = some s →
      (d = .node f.size kind label children ∧ s = f.size) ∨ (Live held d ∧ s < f.size) := by
    intro d s hd hs
    rcases live_construct kind label hchildren hd (isNode_of_serial? hs) with rfl | hold
    · exact .inl ⟨rfl, (Option.some.inj hs).symm⟩
    · exact .inr ⟨hold, h.serial_lt d hold s hs⟩
  refine ⟨?_, ?_, ?_, ?_⟩
  · intro d e hd he hnode hserial
    obtain ⟨s, hs⟩ := exists_serial? hnode
    have hes := hserial.symm.trans hs
    rcases hlive hd hs with ⟨rfl, rfl⟩ | ⟨hold, hlt⟩
    · rcases hlive he hes with ⟨rfl, -⟩ | ⟨-, hlt⟩
      · rfl
      · exact absurd hlt (Nat.lt_irrefl _)
    · rcases hlive he hes with ⟨rfl, rfl⟩ | ⟨hold', -⟩
      · exact absurd hlt (Nat.lt_irrefl _)
      · exact h.eq_of_serial? hold hold' hs hes
  · intro d hd s hs
    rcases hlive hd hs with ⟨-, rfl⟩ | ⟨-, hlt⟩ <;> omega
  · intro d hd r hr c hc s hs
    rcases hlive hd hr with ⟨rfl, rfl⟩ | ⟨hold, -⟩
    · exact h.serial_lt_of_offers hchildren s (List.mem_filterMap.mpr ⟨c, hc, hs⟩)
    · exact h.child_lt d hold r hr c hc s hs
  · intro s p hp
    rw [parentOf?_construct f kind label children s (h.serial_lt_of_offers hchildren)] at hp
    have hkeep : f.parentOf? s = some p →
        Live ((f.construct kind label children).1 :: held) p ∧
          ∃ c ∈ p.children, c.serial? = some s := by
      intro hold
      obtain ⟨⟨r, hr, hrp⟩, hchild⟩ := h.linked s p hold
      exact ⟨⟨r, List.mem_cons_of_mem _ hr, hrp⟩, hchild⟩
    split at hp
    · next hmem =>
      rcases Option.or_eq_some_iff.mp hp with hold | ⟨-, hnew⟩
      · exact hkeep hold
      · obtain rfl := Option.some.inj hnew
        exact ⟨live_of_mem List.mem_cons_self, List.mem_filterMap.mp hmem⟩
    · exact hkeep hp

end Construct

end Sound

inductive LeadsUp (f : Forest) : Draft → List Draft → Prop
  | top {d : Draft} (h : f.parent? d = none) : LeadsUp f d []
  | up {d p : Draft} {above : List Draft} (hp : f.parent? d = some p) (h : LeadsUp f p above) :
    LeadsUp f d (p :: above)

theorem LeadsUp.unique {f : Forest} {d : Draft} {ps qs : List Draft} (h : f.LeadsUp d ps)
    (h' : f.LeadsUp d qs) : ps = qs := by
  induction h generalizing qs with
  | top hnone =>
    cases h' with
    | top => rfl
    | up hp => simp [hnone] at hp
  | up hp h ih =>
    cases h' with
    | top hnone => simp [hp] at hnone
    | up hq h' =>
      obtain rfl := Option.some.inj (hp.symm.trans hq)
      rw [ih h']

namespace Sound

variable {f : Forest} {held : List Draft} {c d p : Draft}

theorem leadsUp_ancestorsWithin (h : f.Sound held) {bound : Nat}
    (hbound : ∀ s, d.serial? = some s → f.size ≤ s + bound) :
    f.LeadsUp d (f.ancestorsWithin bound d) := by
  induction bound generalizing d with
  | zero =>
    apply LeadsUp.top
    cases hd : d.serial? with
    | none => simp [parent?, hd]
    | some s =>
      have hs : f.links.size ≤ s := hbound s hd
      simp [parent?, hd, parentOf?, hs]
  | succ bound ih =>
    unfold ancestorsWithin
    split
    · next hnone => exact .top hnone
    · next p hp =>
      refine .up hp (ih fun r hr => ?_)
      obtain ⟨s, hs, hlink⟩ := parent?_eq_some_iff.mp hp
      have hlt := h.serial_lt_parent hlink hr
      have := hbound s hs
      omega

theorem leadsUp_ancestors (h : f.Sound held) (d : Draft) : f.LeadsUp d (f.ancestors d) :=
  h.leadsUp_ancestorsWithin fun s _ => Nat.le_add_left f.size s

theorem ancestors_of_parent (h : f.Sound held) (hp : f.parent? c = some p) :
    f.ancestors c = p :: f.ancestors p :=
  (h.leadsUp_ancestors c).unique (.up hp (h.leadsUp_ancestors p))

theorem ancestors_of_root (h : f.Sound held) (hnone : f.parent? d = none) : f.ancestors d = [] :=
  (h.leadsUp_ancestors d).unique (.top hnone)

end Sound

end TreeLint.Forest
