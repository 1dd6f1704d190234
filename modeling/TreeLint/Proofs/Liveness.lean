import TreeLint.Forest.Basic

namespace TreeLint

namespace Draft

inductive Within (root : Draft) : Draft → Prop
  | root : Within root root
  | child {d c : Draft} (h : Within root d) (hc : c ∈ d.children) : Within root c

theorem Within.trans {a b c : Draft} (hab : a.Within b) (hbc : b.Within c) : a.Within c := by
  induction hbc with
  | root => exact hab
  | child h hc ih => exact ih.child hc

theorem Within.of_child {a b c : Draft} (hb : b ∈ a.children) (hc : b.Within c) : a.Within c :=
  (Within.root.child hb).trans hc

theorem Within.eq_or_child {a c : Draft} (h : a.Within c) :
    c = a ∨ ∃ b ∈ a.children, b.Within c := by
  induction h with
  | root => exact .inl rfl
  | child h hc ih =>
    right
    rcases ih with rfl | ⟨b, hb, hbd⟩
    · exact ⟨_, hc, .root⟩
    · exact ⟨b, hb, hbd.child hc⟩

theorem Within.eq_of_leaf {a c : Draft} (h : a.Within c) (hleaf : a.children = []) : c = a := by
  rcases h.eq_or_child with rfl | ⟨b, hb, -⟩
  · rfl
  · simp [hleaf] at hb

theorem isNode_of_serial? {d : Draft} {s : Nat} (h : d.serial? = some s) : d.isNode := by
  rw [isNode, h, Option.isSome_some]

theorem isNode_of_mem_children {d c : Draft} (h : c ∈ d.children) : d.isNode := by
  cases d with
  | node serial kind label children => rfl
  | foreign mark v => simp [children] at h

theorem exists_serial? {d : Draft} (h : d.isNode) : ∃ s, d.serial? = some s :=
  Option.isSome_iff_exists.mp h

end Draft

namespace Forest

open Draft

def Live (held : List Draft) (d : Draft) : Prop :=
  ∃ h ∈ held, h.Within d

def Offers (held : List Draft) (d : Draft) : Prop :=
  Live held d ∨ ¬ d.isNode

def Coherent (held : List Draft) : Prop :=
  ∀ d e, Live held d → Live held e → d.isNode → d.serial? = e.serial? → d = e

variable {held held' pending : List Draft} {c d : Draft}

theorem live_of_mem (h : d ∈ held) : Live held d :=
  ⟨d, h, .root⟩

theorem Live.child (h : Live held d) (hc : c ∈ d.children) : Live held c := by
  obtain ⟨r, hr, hrd⟩ := h
  exact ⟨r, hr, hrd.child hc⟩

theorem Live.within (h : Live held d) (hc : d.Within c) : Live held c := by
  obtain ⟨r, hr, hrd⟩ := h
  exact ⟨r, hr, hrd.trans hc⟩

theorem live_of_offers (hheld : ∀ h ∈ held', Offers held h) (h : Live held' d) (hd : d.isNode) :
    Live held d := by
  obtain ⟨r, hr, hrd⟩ := h
  rcases hheld r hr with hlive | hvalue
  · exact hlive.within hrd
  · rcases hrd.eq_or_child with rfl | ⟨b, hb, -⟩
    · exact absurd hd hvalue
    · exact absurd (isNode_of_mem_children hb) hvalue

theorem Coherent.of_offers (h : Coherent held) (hheld : ∀ h ∈ held', Offers held h) :
    Coherent held' := by
  intro d e hd he hnode hserial
  have henode : e.isNode := by
    unfold isNode at hnode ⊢
    rwa [← hserial]
  exact h d e (live_of_offers hheld hd hnode) (live_of_offers hheld he henode) hnode hserial

theorem mem_reach {seen : List Nat} {s : Nat} (h : s ∈ reach seen pending) :
    s ∈ seen ∨ ∃ d, Live pending d ∧ d.serial? = some s := by
  fun_induction reach seen pending with
  | case1 seen => exact .inl h
  | case2 seen mark v rest ih =>
    rcases ih h with hs | ⟨d, ⟨r, hr, hrd⟩, hd⟩
    · exact .inl hs
    · exact .inr ⟨d, ⟨r, List.mem_cons_of_mem _ hr, hrd⟩, hd⟩
  | case3 seen serial kind label children rest hin ih =>
    rcases ih h with hs | ⟨d, ⟨r, hr, hrd⟩, hd⟩
    · exact .inl hs
    · exact .inr ⟨d, ⟨r, List.mem_cons_of_mem _ hr, hrd⟩, hd⟩
  | case4 seen serial kind label children rest hnew ih =>
    rcases ih h with hs | ⟨d, ⟨r, hr, hrd⟩, hd⟩
    · rcases List.mem_cons.mp hs with rfl | hs
      · exact .inr ⟨_, live_of_mem List.mem_cons_self, rfl⟩
      · exact .inl hs
    · rcases List.mem_append.mp hr with hr | hr
      · exact .inr ⟨d, ⟨_, List.mem_cons_self, .of_child hr hrd⟩, hd⟩
      · exact .inr ⟨d, ⟨r, List.mem_cons_of_mem _ hr, hrd⟩, hd⟩

def Closed (held : List Draft) (seen : List Nat) (pending : List Draft) : Prop :=
  ∀ d, Live held d → ∀ s ∈ seen, d.serial? = some s →
    ∀ c ∈ d.children, c ∈ pending ∨ ∀ r, c.serial? = some r → r ∈ seen

theorem Closed.tail {seen : List Nat} (h : Closed held seen (d :: pending))
    (hd : ∀ r, d.serial? = some r → r ∈ seen) : Closed held seen pending := by
  intro e he s hs hserial c hc
  rcases h e he s hs hserial c hc with hmem | hseen
  · rcases List.mem_cons.mp hmem with rfl | hmem
    · exact .inr hd
    · exact .inl hmem
  · exact .inr hseen

theorem Closed.enter (hcoherent : Coherent held) {seen : List Nat}
    (h : Closed held seen (d :: pending)) (hlive : Live held d) {serial : Nat}
    (hd : d.serial? = some serial) : Closed held (serial :: seen) (d.children ++ pending) := by
  intro e he s hs hserial c hc
  by_cases hsame : s = serial
  · -- What has the serial number of the first draft is the first draft.
    obtain rfl := hcoherent d e hlive he (isNode_of_serial? hd) (by rw [hserial, hd, hsame])
    exact .inl (List.mem_append_left _ hc)
  · rcases h e he s (List.mem_of_ne_of_mem hsame hs) hserial c hc with hmem | hseen
    · rcases List.mem_cons.mp hmem with rfl | hmem
      · right
        intro r hr
        rw [Option.some.inj (hr.symm.trans hd)]
        exact List.mem_cons_self
      · exact .inl (List.mem_append_right _ hmem)
    · exact .inr fun r hr => List.mem_cons_of_mem _ (hseen r hr)

theorem closed_reach (hcoherent : Coherent held) {seen : List Nat}
    (hpending : ∀ d ∈ pending, Live held d) (hclosed : Closed held seen pending) :
    (∀ s ∈ seen, s ∈ reach seen pending) ∧
      (∀ d ∈ pending, ∀ s, d.serial? = some s → s ∈ reach seen pending) ∧
      Closed held (reach seen pending) [] := by
  fun_induction reach seen pending with
  | case1 seen => exact ⟨fun s hs => hs, by simp, hclosed⟩
  | case2 seen mark v rest ih =>
    rw [List.forall_mem_cons] at hpending ⊢
    obtain ⟨hkeep, hrest, hdone⟩ := ih hpending.2 (hclosed.tail (by simp [serial?]))
    exact ⟨hkeep, ⟨by simp [serial?], hrest⟩, hdone⟩
  | case3 seen serial kind label children rest hin ih =>
    have hin : ∀ r, (Draft.node serial kind label children).serial? = some r → r ∈ seen := by
      rintro r ⟨⟩
      simpa using hin
    rw [List.forall_mem_cons] at hpending ⊢
    obtain ⟨hkeep, hrest, hdone⟩ := ih hpending.2 (hclosed.tail hin)
    exact ⟨hkeep, ⟨fun r hr => hkeep r (hin r hr), hrest⟩, hdone⟩
  | case4 seen serial kind label children rest hnew ih =>
    rw [List.forall_mem_cons] at hpending ⊢
    obtain ⟨hfirst, hrest⟩ := hpending
    have hlive : ∀ d ∈ children ++ rest, Live held d := by
      intro d hd
      rcases List.mem_append.mp hd with hd | hd
      · exact hfirst.child hd
      · exact hrest d hd
    obtain ⟨hkeep, hpend, hdone⟩ := ih hlive (hclosed.enter hcoherent hfirst rfl)
    refine ⟨fun s hs => hkeep s (List.mem_cons_of_mem _ hs), ⟨?_, ?_⟩, hdone⟩
    · rintro r ⟨⟩
      exact hkeep serial List.mem_cons_self
    · exact fun d hd => hpend d (List.mem_append_right _ hd)

theorem mem_reach_iff (hcoherent : Coherent held) {s : Nat} :
    s ∈ reach [] held ↔ ∃ d, Live held d ∧ d.serial? = some s := by
  constructor
  · intro h
    rcases mem_reach h with hnil | hlive
    · simp at hnil
    · exact hlive
  · rintro ⟨d, ⟨r, hr, hrd⟩, hserial⟩
    have hnothing : Closed held [] held := by simp [Closed]
    obtain ⟨-, hheld, hclosed⟩ := closed_reach hcoherent (fun d hd => live_of_mem hd) hnothing
    induction hrd generalizing s with
    | root => exact hheld r hr s hserial
    | @child d c h hc ih =>
      obtain ⟨q, hq⟩ := exists_serial? (isNode_of_mem_children hc)
      rcases hclosed d ⟨r, hr, h⟩ q (ih hq) hq c hc with hnil | hseen
      · simp at hnil
      · exact hseen s hserial

theorem parentOf?_collect (f : Forest) (held : List Draft) (j : Nat) :
    (f.collect held).parentOf? j =
      (f.parentOf? j).filter fun p => p.serial?.any (reach [] held).contains := by
  simp only [collect, parentOf?, Array.getElem?_map]
  cases f.links[j]? <;> rfl

end Forest

end TreeLint
