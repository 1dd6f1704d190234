import TreeLint.Proofs.ParentLinks
import TreeLint.Workspace

namespace TreeLint

namespace Forest

open Draft

inductive Extends (f : Forest) (held : List Draft) :
    Option Draft → Forest → List Draft → Prop
  | still : Extends f held none f held
  | built (kind : KindTag) (label : Label) {children : List Draft}
    (h : ∀ c ∈ children, Offers held c) :
    Extends f held (some (f.construct kind label children).1) (f.construct kind label children).2
      ((f.construct kind label children).1 :: held)

variable {f g : Forest} {held held' : List Draft} {built : Option Draft}

theorem Sound.extends (h : f.Sound held) (hx : Extends f held built g held') : g.Sound held' := by
  cases hx with
  | still => exact h
  | built kind label hchildren => exact h.construct kind label hchildren

theorem Sound.parent?_extends (h : f.Sound held) (hx : Extends f held built g held') (c : Draft) :
    g.parent? c = f.parent? c ∨
      f.parent? c = none ∧ ∃ p, built = some p ∧ g.parent? c = some p := by
  cases hx with
  | still => exact .inl rfl
  | @built kind label children hchildren =>
    cases hc : c.serial? with
    | none => simp [parent?, hc]
    | some s =>
      have hlink := parentOf?_construct f kind label children s (h.serial_lt_of_offers hchildren)
      simp only [parent?, hc, Option.bind_some, hlink]
      split
      · cases f.parentOf? s with
        | none => exact .inr ⟨rfl, _, rfl, rfl⟩
        | some p => exact .inl rfl
      · exact .inl rfl

theorem Sound.parent?_built (h : f.Sound held) {p c : Draft}
    (hx : Extends f held (some p) g held') (hc : c ∈ p.children) (hnode : c.isNode)
    (hnone : f.parent? c = none) : g.parent? c = some p := by
  cases hx with
  | @built kind label children hchildren =>
    obtain ⟨s, hs⟩ := exists_serial? hnode
    have hmem : s ∈ children.filterMap serial? := List.mem_filterMap.mpr ⟨c, hc, hs⟩
    have hlink := parentOf?_construct f kind label children s (h.serial_lt_of_offers hchildren)
    rw [if_pos hmem] at hlink
    simp only [parent?, hs, Option.bind_some] at hnone ⊢
    rw [hlink, hnone]
    rfl

theorem Sound.parent?_collect_eq_some_iff (h : f.Sound held) (hheld : ∀ d ∈ held', Offers held d)
    {c p : Draft} :
    (f.collect held').parent? c = some p ↔ f.parent? c = some p ∧ Live held' p := by
  simp only [parent?_eq_some_iff, h.parentOf?_collect_eq_some_iff hheld]
  constructor
  · rintro ⟨s, hs, hlink, hlive⟩
    exact ⟨⟨s, hs, hlink⟩, hlive⟩
  · rintro ⟨⟨s, hs, hlink⟩, hlive⟩
    exact ⟨s, hs, hlink, hlive⟩

end Forest

namespace Workspace

open Forest

def drafts (w : Workspace) : List Draft :=
  w.held.map (·.2.draft)

abbrev Live (w : Workspace) : Draft → Prop :=
  Forest.Live w.drafts

abbrev Offers (w : Workspace) : Draft → Prop :=
  Forest.Offers w.drafts

def afterwards (w : Workspace) : Except Denial (Tree × Workspace) → Workspace
  | .ok (_, w') => w'
  | .error _ => w

inductive Step (w : Workspace) : Option Draft → Workspace → Prop
  | construct (name : String) (kind : KindTag) (label : Label) {children : List Draft}
    (h : ∀ c ∈ children, w.Offers c) :
    Step w (some (w.construct name kind label children).1) (w.construct name kind label children).2
  | create {name : String} {parts : Parts} {d : Draft} {w' : Workspace}
    (h : ∀ c ∈ parts.children, w.Offers c) (hcreate : w.create name parts = .ok (d, w')) :
    Step w (some d) w'
  | hold (name : String) {d : Draft} (h : w.Live d) : Step w none (w.hold name (.node d))
  | drop {name : String} {w' : Workspace} (hdrop : w.drop name = .ok w') : Step w none w'
  | plantTree (name path : String) {root : Draft} (h : w.Offers root) :
    Step w none (w.afterwards (w.plantTree name root path))

inductive Reached : Workspace → Prop
  | empty : Reached empty
  | step {w w' : Workspace} {built : Option Draft} (h : Reached w) (hs : Step w built w') :
    Reached w'

variable {w w' : Workspace} {built : Option Draft}

theorem drafts_hold (w : Workspace) (name : String) (h : Held) :
    (w.hold name h).drafts = h.draft :: (w.held.filter (·.1 != name)).map (·.2.draft) := rfl

theorem forest_hold (w : Workspace) (name : String) (h : Held) :
    (w.hold name h).forest = w.forest.collect (w.hold name h).drafts := rfl

theorem size_construct (w : Workspace) (name : String) (kind : KindTag) (label : Label)
    (children : List Draft) :
    (w.construct name kind label children).2.forest.size = w.forest.size + 1 := by
  rw [← Forest.size_construct w.forest kind label children]
  exact size_collect _ _

theorem mem_drafts_of_filter {p : String × Held → Bool} {d : Draft}
    (h : d ∈ (w.held.filter p).map (·.2.draft)) : d ∈ w.drafts := by
  obtain ⟨e, he, rfl⟩ := List.mem_map.mp h
  exact List.mem_map_of_mem (List.mem_filter.mp he).1

theorem mem_drafts_hold {name : String} {h : Held} {d : Draft} (hd : d ∈ (w.hold name h).drafts) :
    d = h.draft ∨ d ∈ w.drafts := by
  rw [drafts_hold] at hd
  rcases List.mem_cons.mp hd with rfl | hd
  · exact .inl rfl
  · exact .inr (mem_drafts_of_filter hd)

theorem offers_hold {name : String} {h : Held} (hh : w.Offers h.draft) :
    ∀ d ∈ (w.hold name h).drafts, w.Offers d := by
  intro d hd
  rcases mem_drafts_hold hd with rfl | hd
  · exact hh
  · exact .inl (live_of_mem hd)

theorem plantTree_eq_ok {name path : String} {root : Draft} {t : Tree}
    (h : w.plantTree name root path = .ok (t, w')) :
    w.forest.accept root path = .ok t ∧ w' = w.hold name (.tree root t) := by
  unfold plantTree at h
  split at h
  · next t' haccept =>
    obtain ⟨rfl, rfl⟩ := Prod.mk.inj (Except.ok.inj h)
    exact ⟨haccept, rfl⟩
  · simp at h

theorem drop_eq_ok {name : String} (h : w.drop name = .ok w') :
    w' = { w with held := w.held.filter (·.1 != name) }.settle := by
  unfold drop at h
  cases hget : w.get name with
  | error e => simp [hget, bind, Except.bind] at h
  | ok held =>
    rw [hget] at h
    exact (Except.ok.inj h).symm

theorem create_eq_ok {name : String} {parts : Parts} {d : Draft}
    (h : w.create name parts = .ok (d, w')) :
    ∃ label, d = (w.forest.construct parts.kind label parts.children).1 ∧
      w' = { w with forest := (w.forest.construct parts.kind label parts.children).2 }.hold name
        (.node d) := by
  unfold create at h
  split at h
  · simp at h
  · obtain ⟨rfl, rfl⟩ := Prod.mk.inj (Except.ok.inj h)
    exact ⟨_, rfl, rfl⟩

structure Effect (w w' : Workspace) (built : Option Draft) (f : Forest) (held : List Draft) :
    Prop where
  extended : Extends w.forest w.drafts built f held
  forest_eq : w'.forest = f.collect w'.drafts
  offers : ∀ d ∈ w'.drafts, Forest.Offers held d
  holds_built : ∀ d ∈ built, d ∈ w'.drafts

theorem effect_built (name : String) (kind : KindTag) (label : Label) {children : List Draft}
    (h : ∀ c ∈ children, w.Offers c) :
    Effect w
      ({ w with forest := (w.forest.construct kind label children).2 }.hold name
        (.node (w.forest.construct kind label children).1))
      (some (w.forest.construct kind label children).1) (w.forest.construct kind label children).2
      ((w.forest.construct kind label children).1 :: w.drafts) where
  extended := .built kind label h
  forest_eq := rfl
  offers d hd := by
    left
    apply live_of_mem
    rcases mem_drafts_hold hd with rfl | hd
    · exact List.mem_cons_self
    · exact List.mem_cons_of_mem _ hd
  holds_built d hd := by
    obtain rfl := Option.some.inj hd
    exact List.mem_cons_self

theorem Step.effect (hw : w.forest.Sound w.drafts) (hs : Step w built w') :
    ∃ f held, Effect w w' built f held := by
  cases hs with
  | construct name kind label hchildren => exact ⟨_, _, effect_built name kind label hchildren⟩
  | @create name parts _ _ hchildren hcreate =>
    obtain ⟨label, rfl, rfl⟩ := create_eq_ok hcreate
    exact ⟨_, _, effect_built name parts.kind label hchildren⟩
  | hold name hlive => exact ⟨_, _, .still, rfl, offers_hold (.inl hlive), by simp⟩
  | drop hdrop =>
    obtain rfl := drop_eq_ok hdrop
    refine ⟨_, _, .still, rfl, ?_, by simp⟩
    intro d hd
    exact .inl (live_of_mem (mem_drafts_of_filter hd))
  | @plantTree name path root hroot =>
    cases hplant : w.plantTree name root path with
    | error e =>
      have hlive : ∀ d ∈ w.drafts, w.Live d := fun d hd => live_of_mem hd
      have hsame : w.forest.collect w.drafts = w.forest :=
        hw.collect_eq (fun d hd => .inl (hlive d hd)) hlive
      exact ⟨w.forest, w.drafts, .still, hsame.symm, fun d hd => .inl (hlive d hd), by simp⟩
    | ok result =>
      obtain ⟨t, w'⟩ := result
      obtain ⟨-, rfl⟩ := plantTree_eq_ok hplant
      exact ⟨w.forest, w.drafts, .still, rfl, offers_hold hroot, by simp⟩

theorem Step.live_built {p : Draft} (hw : w.forest.Sound w.drafts) (hs : Step w (some p) w') :
    w'.Live p := by
  obtain ⟨f, held, he⟩ := hs.effect hw
  exact live_of_mem (he.holds_built p rfl)

theorem Step.sound (hw : w.forest.Sound w.drafts) (hs : Step w built w') :
    w'.forest.Sound w'.drafts := by
  obtain ⟨f, held, he⟩ := hs.effect hw
  rw [he.forest_eq]
  exact (hw.extends he.extended).collect he.offers

theorem Reached.sound (hw : w.Reached) : w.forest.Sound w.drafts := by
  induction hw with
  | empty => exact sound_empty
  | step h hs ih => exact hs.sound ih

theorem Effect.parent?_eq_some_iff {f : Forest} {held : List Draft} {c p : Draft}
    (hw : w.forest.Sound w.drafts) (he : Effect w w' built f held) :
    w'.forest.parent? c = some p ↔ f.parent? c = some p ∧ w'.Live p := by
  rw [he.forest_eq]
  exact (hw.extends he.extended).parent?_collect_eq_some_iff he.offers

theorem Step.parent?_cases (hw : w.forest.Sound w.drafts) (hs : Step w built w') (c : Draft) :
    w'.forest.parent? c = w.forest.parent? c ∨
      (w.forest.parent? c = none ∧ ∃ p, built = some p ∧ w'.forest.parent? c = some p) ∨
      (w'.forest.parent? c = none ∧ ∃ p, w.forest.parent? c = some p ∧ ¬ w'.Live p) := by
  -- Building may set the link; the collector then undoes it if the node it names is gone.
  obtain ⟨f, held, he⟩ := hs.effect hw
  have hbefore := hw.parent?_extends he.extended c
  cases hlink : w'.forest.parent? c with
  | some p =>
    obtain ⟨hp, -⟩ := (he.parent?_eq_some_iff hw).mp hlink
    rcases hbefore with hsame | ⟨hnone, q, rfl, hq⟩
    · exact .inl (by rw [← hsame, hp])
    · obtain rfl := Option.some.inj (hp.symm.trans hq)
      exact .inr (.inl ⟨hnone, p, rfl, rfl⟩)
  | none =>
    cases hp : w.forest.parent? c with
    | none => exact .inl rfl
    | some p =>
      refine .inr (.inr ⟨rfl, p, rfl, fun hlive => ?_⟩)
      rcases hbefore with hsame | ⟨hnone, -⟩
      · have := (he.parent?_eq_some_iff hw).mpr ⟨hsame.trans hp, hlive⟩
        simp [hlink] at this
      · simp [hp] at hnone

theorem Step.parent?_built {p c : Draft} (hw : w.forest.Sound w.drafts) (hs : Step w (some p) w')
    (hc : c ∈ p.children) (hnode : c.isNode) (hnone : w.forest.parent? c = none) :
    w'.forest.parent? c = some p := by
  obtain ⟨f, held, he⟩ := hs.effect hw
  apply (he.parent?_eq_some_iff hw).mpr
  exact ⟨hw.parent?_built he.extended hc hnode hnone, live_of_mem (he.holds_built p rfl)⟩

/--
The parent link of a live node names a live node with that child. In one step a link is set only
where there was none, to the node just built around the child, and undone only with the node that it
names. The way up from any node ends.
-/
theorem parent_links_sound (hw : w.Reached) :
    (∀ c p, w.Live c → w.forest.parent? c = some p → w.Live p ∧ c ∈ p.children) ∧
      (∀ built w', Step w built w' →
        (∀ c, w'.Live c →
          w'.forest.parent? c = w.forest.parent? c ∨
          (w.forest.parent? c = none ∧
            ∃ p, built = some p ∧ c ∈ p.children ∧ w'.forest.parent? c = some p) ∨
          (w'.forest.parent? c = none ∧ ∃ p, w.forest.parent? c = some p ∧ ¬ w'.Live p)) ∧
        ∀ p c, built = some p → c ∈ p.children → c.isNode → w.forest.parent? c = none →
          w'.forest.parent? c = some p) ∧
      ∀ c, LeadsUp w.forest c (w.forest.ancestors c) := by
  have hsound := hw.sound
  refine ⟨?_, ?_, hsound.leadsUp_ancestors⟩
  · intro c p hc hp
    exact ⟨hsound.live_parent hp, hsound.mem_children hc hp⟩
  · intro built w' hs
    constructor
    · intro c hc
      rcases hs.parent?_cases hsound c with hsame | ⟨hnone, p, hbuilt, hp⟩ | hgone
      · exact .inl hsame
      · exact .inr (.inl ⟨hnone, p, hbuilt, (hs.sound hsound).mem_children hc hp, hp⟩)
      · exact .inr (.inr hgone)
    · rintro p c rfl hc hnode hnone
      exact hs.parent?_built hsound hc hnode hnone

theorem Step.construct_of_size {serial : Nat} (hsize : w.forest.size = serial) (name : String)
    (kind : KindTag) (label : Label) {children : List Draft} (h : ∀ c ∈ children, w.Offers c) :
    Step w (some (.node serial kind label children)) (w.construct name kind label children).2 := by
  subst hsize
  exact .construct name kind label h

theorem parent_links_sound_adopted :
    let x : Draft := .node 0 (.known .identifierName) ⟨.ofRange 0 1, "x", none, none⟩ []
    let o : Draft := .node 1 (.known .expressionStatement) ⟨.ofRange 0 1, "x", none, none⟩ [x]
    let u : Draft := .node 2 (.known .compilationUnit) ⟨.ofRange 0 1, "x", none, none⟩ [x]
    ∃ w₁ w₂ w₃ w₄ : Workspace, w₁.Reached ∧ Step w₁ (some o) w₂ ∧ Step w₂ none w₃ ∧
      Step w₃ (some u) w₄ ∧ w₃.Live x ∧ w₂.forest.parent? x = some o ∧ ¬ w₃.Live o ∧
      w₃.forest.parent? x = none ∧ w₄.forest.parent? x = some u ∧
      LeadsUp w₄.forest x (w₄.forest.ancestors x) := by
  intro x o u
  let label : Label := ⟨.ofRange 0 1, "x", none, none⟩
  let w₁ := (Workspace.empty.construct "x" (.known .identifierName) label []).2
  let w₂ := (w₁.construct "o" (.known .expressionStatement) label [x]).2
  let w₃ := { w₂ with held := w₂.held.filter (·.1 != "o") }.settle
  let w₄ := (w₃.construct "u" (.known .compilationUnit) label [x]).2
  have hsize₁ : w₁.forest.size = 1 := size_construct _ _ _ _ _
  have hsize₃ : w₃.forest.size = 2 := by
    rw [show w₃.forest = w₂.forest.collect w₃.drafts from rfl, size_collect, size_construct, hsize₁]
  have hoffers : ∀ {w : Workspace}, x ∈ w.drafts → ∀ c ∈ [x], w.Offers c := by
    intro w hw c hc
    rw [List.mem_singleton.mp hc]
    exact .inl (live_of_mem hw)
  have hs₁ : Step w₁ (some o) w₂ :=
    .construct_of_size hsize₁ "o" (.known .expressionStatement) label (hoffers List.mem_cons_self)
  have hdrop : w₂.drop "o" = .ok w₃ := rfl
  have hs₂ : Step w₂ none w₃ := .drop hdrop
  have hs₃ : Step w₃ (some u) w₄ :=
    .construct_of_size hsize₃ "u" (.known .compilationUnit) label (hoffers List.mem_cons_self)
  have h₁ : w₁.Reached := .step .empty (.construct "x" (.known .identifierName) label (by simp))
  have h₃ : w₃.Reached := (h₁.step hs₁).step hs₂
  have hnone : w₁.forest.parent? x = none := h₁.sound.parent?_eq_none_of_newest rfl hsize₁
  have hx : w₃.Live x := live_of_mem List.mem_cons_self
  have halone : ∀ d, w₃.Live d → d = x := by
    rintro d ⟨r, hr, hrd⟩
    obtain rfl := List.mem_singleton.mp hr
    exact hrd.eq_of_leaf rfl
  obtain ⟨-, hsteps₁, -⟩ := parent_links_sound h₁
  have hown : w₂.forest.parent? x = some o :=
    (hsteps₁ _ _ hs₁).2 o x rfl (by simp [o, Draft.children]) rfl hnone
  have hgone : ¬ w₃.Live o := fun hlive => by simpa [o, x] using halone o hlive
  have hundone : w₃.forest.parent? x = none := by
    apply h₃.sound.parent?_eq_none hx
    intro p hp
    rw [halone p hp]
    exact List.not_mem_nil
  obtain ⟨-, hsteps₃, -⟩ := parent_links_sound h₃
  have hnew : w₄.forest.parent? x = some u :=
    (hsteps₃ _ _ hs₃).2 u x rfl (by simp [u, Draft.children]) rfl hundone
  exact ⟨w₁, w₂, w₃, w₄, h₁, hs₁, hs₂, hs₃, hx, hown, hgone, hundone, hnew,
    (parent_links_sound (h₃.step hs₃)).2.2 x⟩

end Workspace

end TreeLint
