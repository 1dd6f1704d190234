import TreeLint.Proofs.Composition
import TreeLint.Proofs.ProperTree

/-!
What becomes of an accepted tree as long as its root is alive. Inside nothing changes, whatever is
built around its nodes. The root is still free, so a new node may take it in; until that node is gone
the root is none, and the rules see what it stands in.
-/

namespace TreeLint

namespace Registry

theorem fromCatalogue_builtin : builtin.FromCatalogue := by
  intro kind rule hrule
  rw [holds_builtin.rulesFor_eq] at hrule
  exact List.mem_filter.mp hrule

end Registry

namespace Forest

variable {f : Forest} {held : List Draft}

theorem Sound.above_of_parent (h : f.Sound held) {n c : Node}
    (hp : f.parent? c.draft = some n.draft) :
    f.above c.draft = ⟨n.serial, .known n.kind⟩ :: f.above n.draft := by
  obtain ⟨serial, kind, label, children⟩ := n
  rw [above, h.ancestors_of_parent hp]
  rfl

theorem Sound.above_of_root (h : f.Sound held) {d : Draft} (hnone : f.parent? d = none) :
    f.above d = [] := by
  rw [above, h.ancestors_of_root hnone]
  rfl

theorem Sound.above_of_mem_preorderOf (h : f.Sound held) {n : Node}
    (hlinks : ∀ m ∈ n.nodes, ∀ c ∈ m.children, f.parent? c.draft = some m.draft) :
    ∀ s ∈ Site.preorderOf (f.above n.draft) n, s.above = f.above s.node.draft := by
  induction n using Node.by_children with
  | mk serial kind label children ih =>
    intro s hs
    rw [Site.preorderOf, Site.preordersOf_eq] at hs
    rcases List.mem_cons.mp hs with rfl | hs
    · rfl
    · obtain ⟨c, hc, hs⟩ := List.mem_flatMap.mp hs
      have habove := h.above_of_parent (hlinks _ (Node.mem_nodes_self _) c hc)
      rw [Node.serial, Node.kind] at habove
      rw [← habove] at hs
      exact ih c hc (fun m hm => hlinks m (Node.mem_nodes_of_child hc hm)) s hs

end Forest

namespace Workspace

open Forest

inductive Later (root : Draft) (w : Workspace) : List Draft → Workspace → Prop
  | now : Later root w [] w
  | step {w' w'' : Workspace} {since : List Draft} {built : Option Draft}
    (h : Later root w since w') (hs : Step w' built w'') (hlive : w''.Live root) :
    Later root w (built.toList ++ since) w''

variable {w w' : Workspace} {name path : String} {root : Draft} {t : Tree} {since : List Draft}

theorem Step.parent?_of_live {built : Option Draft} {c p : Draft} (hw : w.forest.Sound w.drafts)
    (hs : Step w built w') (hp : w.forest.parent? c = some p) (hlive : w'.Live p) :
    w'.forest.parent? c = some p := by
  rcases hs.parent?_cases hw c with hsame | ⟨hnone, -⟩ | ⟨-, q, hq, hgone⟩
  · rw [hsame, hp]
  · simp [hp] at hnone
  · obtain rfl := Option.some.inj (hp.symm.trans hq)
    exact absurd hlive hgone

namespace Later

theorem reached (hw : w.Reached) (h : Later root w since w') : w'.Reached := by
  induction h with
  | now => exact hw
  | step _ hs _ ih => exact ih.step hs

theorem live (hlive : w.Live root) (h : Later root w since w') : w'.Live root := by
  cases h with
  | now => exact hlive
  | step _ _ hlive' => exact hlive'

theorem parent?_within (hw : w.Reached) (h : Later root w since w')
    (hlinked : ∀ d, root.Within d → ∀ c ∈ d.children, w.forest.parent? c = some d) :
    ∀ d, root.Within d → ∀ c ∈ d.children, w'.forest.parent? c = some d := by
  induction h with
  | now => exact hlinked
  | step h hs hlive ih =>
    intro d hd c hc
    exact hs.parent?_of_live (h.reached hw).sound (ih d hd c hc) (hlive.within hd)

theorem of_parent?_root (hw : w.Reached) (hnone : w.forest.parent? root = none)
    (h : Later root w since w') :
    ∀ p, w'.forest.parent? root = some p → p ∈ since ∧ root ∈ p.children ∧ w'.Live p := by
  -- That the parent has the root for a child follows from the links at the end.
  suffices hsince : ∀ p, w'.forest.parent? root = some p → p ∈ since ∧ w'.Live root by
    intro p hp
    have hsound := (h.reached hw).sound
    obtain ⟨hmem, hroot⟩ := hsince p hp
    exact ⟨hmem, hsound.mem_children hroot hp, hsound.live_parent hp⟩
  induction h with
  | now =>
    intro p hp
    simp [hnone] at hp
  | step h hs hlive ih =>
    intro p hp
    refine ⟨?_, hlive⟩
    rcases hs.parent?_cases (h.reached hw).sound root with hsame | ⟨-, q, rfl, hq⟩ | ⟨hgone, -⟩
    · exact List.mem_append_right _ (ih p (hsame ▸ hp)).1
    · obtain rfl := Option.some.inj (hp.symm.trans hq)
      exact List.mem_cons_self
    · simp [hp] at hgone

theorem proper (hw : w.Reached) (h : Later root w since w') (hp : w.forest.Proper root)
    (hnone : w'.forest.parent? root = none) : w'.forest.Proper root :=
  { hp with
    parent_eq_none := hnone
    linked := h.parent?_within hw hp.linked }

end Later

theorem plantTree_of_parent (h : w.forest.parent? root ≠ none) (name path : String) :
    w.plantTree name root path =
      .error (.rejected (.malformed path "Tree root must not have a parent")) := by
  have hsome : (w.forest.parent? root).isSome := Option.isSome_iff_ne_none.mpr h
  rw [plantTree, accept, if_pos hsome]
  rfl

theorem step_of_plantTree (hroot : w.Offers root) (h : w.plantTree name root path = .ok (t, w')) :
    Step w none w' := by
  have hs := Step.plantTree name path hroot
  rwa [h] at hs

theorem live_of_plantTree (h : w.plantTree name root path = .ok (t, w')) : w'.Live root := by
  rw [(plantTree_eq_ok h).2]
  exact live_of_mem List.mem_cons_self

theorem proper_of_plantTree (hw : w.Reached) (hroot : w.Offers root)
    (h : w.plantTree name root path = .ok (t, w')) : w'.forest.Proper root := by
  have hproper := (accept_ok_iff hw.sound hroot path).mp ⟨t, (plantTree_eq_ok h).1⟩
  have hlater := Later.now.step (step_of_plantTree hroot h) (live_of_plantTree h)
  apply hlater.proper hw hproper
  rw [Option.eq_none_iff_forall_ne_some]
  intro p hp
  simpa using (hlater.of_parent?_root hw hproper.parent_eq_none p hp).1

/--
Below the root of an accepted tree no link changes, and a walk has above each node what the links lead
to. Only a node that was built around the root can become its parent. As long as there is none, the
tree is analyzed as before and accepted again; otherwise it is refused.
-/
theorem plantTree_lasting {w₀ w₁ w₂ : Workspace} (hw : w₀.Reached) (hroot : w₀.Offers root)
    (hplant : w₀.plantTree name root path = .ok (t, w₁)) (hlater : Later root w₁ since w₂) :
    (∀ d, root.Within d → ∀ c ∈ d.children,
        w₁.forest.parent? c = some d ∧ w₂.forest.parent? c = some d) ∧
      (∀ s ∈ (t.site (w₂.forest.above root)).walk, s.above = w₂.forest.above s.node.draft) ∧
      (∀ p, w₂.forest.parent? root = some p → p ∈ since ∧ root ∈ p.children ∧ w₂.Live p) ∧
      (w₂.forest.parent? root = none →
        (∃ ds, analyze .builtin (.tree t (w₁.forest.above root)) none = .ok (ds, none) ∧
          analyze .builtin (.tree t (w₂.forest.above root)) none = .ok (ds, none)) ∧
        ∀ again other, ∃ w₃, w₂.plantTree again root other = .ok ({ t with path := other }, w₃)) ∧
      (w₂.forest.parent? root ≠ none → ∀ again other,
        w₂.plantTree again root other =
          .error (.rejected (.malformed other "Tree root must not have a parent"))) := by
  have haccept := (plantTree_eq_ok hplant).1
  obtain rfl := (linked_of_accept haccept).1
  obtain ⟨rfl, ht⟩ := eq_of_accept haccept
  have h₁ := hw.step (step_of_plantTree hroot hplant)
  have h₂ := hlater.reached h₁
  have hproper₁ := proper_of_plantTree hw hroot hplant
  have hlinked := hlater.parent?_within h₁ hproper₁.linked
  refine ⟨fun d hd c hc => ⟨hproper₁.linked d hd c hc, hlinked d hd c hc⟩, ?_,
    hlater.of_parent?_root h₁ hproper₁.parent_eq_none, ?_, plantTree_of_parent⟩
  · rw [Site.walk_eq_preorder]
    exact h₂.sound.above_of_mem_preorderOf (parent?_of_mem_nodes hlinked)
  · intro hnone₂
    constructor
    · have hprepare : (Input.tree t []).prepare = .ok ⟨t, []⟩ := rfl
      have hds := Registry.fromCatalogue_builtin.analyze_eq hprepare ⟨_, _, haccept⟩
      rw [h₁.sound.above_of_root hproper₁.parent_eq_none, h₂.sound.above_of_root hnone₂]
      exact ⟨_, hds, hds⟩
    · intro again other
      have hlive₂ := hlater.live (live_of_plantTree hplant)
      have haccept₂ := (hlater.proper h₁ hproper₁ hnone₂).accept h₂.sound hlive₂ other
      rw [ht]
      exact ⟨_, plantTree_of_accept haccept₂⟩

theorem plantTree_lasting_inner_shared :
    let label : Label := ⟨.ofRange 0 1, "x", none, none⟩
    let x : Draft := .node 0 (.known .identifierName) label []
    let n : Node := .mk 1 .block label [.mk 0 .identifierName label []]
    let u : Draft := .node 2 (.known .compilationUnit) label [x]
    let t : Tree := ⟨n, "a.cs", 2⟩
    ∃ w₀ w₁ w₂ : Workspace, w₀.Reached ∧ w₀.Live n.draft ∧
      w₀.plantTree "t" n.draft "a.cs" = .ok (t, w₁) ∧ Later n.draft w₁ [u] w₂ ∧
      w₂.forest.parent? x = some n.draft ∧ w₂.forest.parent? n.draft = none ∧
      ∃ w₃, w₂.plantTree "again" n.draft "b.cs" = .ok ({ t with path := "b.cs" }, w₃) := by
  intro label x n u t
  let start := (Workspace.empty.construct "x" (.known .identifierName) label []).2
  let w₀ := (start.construct "b" (.known .block) label [x]).2
  let w₁ := w₀.hold "t" (.tree n.draft t)
  let w₂ := (w₁.construct "u" (.known .compilationUnit) label [x]).2
  have hsize : start.forest.size = 1 := size_construct _ _ _ _ _
  have hsize₀ : w₀.forest.size = 2 := by rw [size_construct, hsize]
  have hsize₁ : w₁.forest.size = 2 := by rw [forest_hold, size_collect, hsize₀]
  have hoffers : ∀ {w : Workspace}, w.Live x → ∀ c ∈ [x], w.Offers c := by
    intro w hw c hc
    rw [List.mem_singleton.mp hc]
    exact .inl hw
  have hx : start.Live x := live_of_mem List.mem_cons_self
  have h : start.Reached := .step .empty (.construct "x" (.known .identifierName) label (by simp))
  have hs : Step start (some n.draft) w₀ :=
    .construct_of_size hsize "b" (.known .block) label (hoffers hx)
  have h₀ := h.step hs
  have hlive : w₀.Live n.draft := hs.live_built h.sound
  have hlink : w₀.forest.parent? x = some n.draft :=
    hs.parent?_built h.sound List.mem_cons_self rfl (h.sound.parent?_eq_none_of_newest rfl hsize)
  have hfree : w₀.forest.parent? n.draft = none := h₀.sound.parent?_eq_none_of_newest rfl hsize₀
  have haccept : w₀.forest.accept n.draft "a.cs" = .ok t := by
    refine accept_draft hfree (by decide) ?_ (by decide) "a.cs"
    have hserial : w₀.forest.parentOf? 0 = some n.draft := hlink
    simpa [n, Node.nodes_mk, Node.children, Node.serial] using hserial
  have hplant : w₀.plantTree "t" n.draft "a.cs" = .ok (t, w₁) := plantTree_of_accept haccept
  have h₁ := h₀.step (step_of_plantTree (.inl hlive) hplant)
  have hlive₁ := live_of_plantTree hplant
  have hs₁ : Step w₁ (some u) w₂ :=
    .construct_of_size hsize₁ "u" (.known .compilationUnit) label
      (hoffers (hlive₁.child List.mem_cons_self))
  have hlater : Later n.draft w₁ [u] w₂ :=
    Later.now.step hs₁ (live_of_mem (List.mem_cons_of_mem _ List.mem_cons_self))
  obtain ⟨hinner, -, habove, hagain, -⟩ := plantTree_lasting h₀ (.inl hlive) hplant hlater
  have hnone : w₂.forest.parent? n.draft = none := by
    rw [Option.eq_none_iff_forall_ne_some]
    intro p hp
    obtain ⟨hsince, hmem, -⟩ := habove p hp
    obtain rfl := List.mem_singleton.mp hsince
    simp [u, x, n, Node.draft, Draft.children] at hmem
  exact ⟨w₀, w₁, w₂, h₀, hlive, hplant, hlater, (hinner n.draft .root x List.mem_cons_self).2, hnone,
    (hagain hnone).2 "again" "b.cs"⟩

theorem adopted_root_refused :
    let label : Label := ⟨.ofRange 0 2, "\x7b\x7d", none, none⟩
    let n : Node := .mk 0 .block label []
    let l : Draft := .node 1 (.known .simpleLambdaExpression) label [n.draft]
    let t : Tree := ⟨n, "a.cs", 1⟩
    ∃ w₀ w₁ w₂ : Workspace, w₀.Reached ∧ w₀.Live n.draft ∧
      w₀.plantTree "t" n.draft "a.cs" = .ok (t, w₁) ∧ Later n.draft w₁ [l] w₂ ∧
      analyze .builtin (.tree t (w₁.forest.above n.draft)) none =
        .ok ([⟨"SEV004", "Severes", .warning, label.span, Statements.blankBlockMessage, "a.cs"⟩],
          none) ∧
      analyze .builtin (.tree t (w₂.forest.above n.draft)) none = .ok ([], none) ∧
      w₂.plantTree "again" n.draft "a.cs" =
        .error (.rejected (.malformed "a.cs" "Tree root must not have a parent")) := by
  intro label n l t
  let w₀ := (Workspace.empty.construct "b" (.known .block) label []).2
  let w₁ := w₀.hold "t" (.tree n.draft t)
  let w₂ := (w₁.construct "l" (.known .simpleLambdaExpression) label [n.draft]).2
  have hsize₀ : w₀.forest.size = 1 := size_construct _ _ _ _ _
  have hsize₁ : w₁.forest.size = 1 := by rw [forest_hold, size_collect, hsize₀]
  have hlive : w₀.Live n.draft := live_of_mem List.mem_cons_self
  have h₀ : w₀.Reached := .step .empty (.construct "b" (.known .block) label (by simp))
  have hnone : w₀.forest.parent? n.draft = none := h₀.sound.parent?_eq_none_of_newest rfl hsize₀
  have haccept : w₀.forest.accept n.draft "a.cs" = .ok t :=
    accept_draft hnone (by decide) (by simp [n, Node.nodes_mk, Node.children]) (by decide) "a.cs"
  have hplant : w₀.plantTree "t" n.draft "a.cs" = .ok (t, w₁) := plantTree_of_accept haccept
  have h₁ := h₀.step (step_of_plantTree (.inl hlive) hplant)
  have hlive₁ := live_of_plantTree hplant
  have hnone₁ := (proper_of_plantTree h₀ (.inl hlive) hplant).parent_eq_none
  have hs : Step w₁ (some l) w₂ :=
    .construct_of_size hsize₁ "l" (.known .simpleLambdaExpression) label (by simpa using .inl hlive₁)
  have hlater : Later n.draft w₁ [l] w₂ :=
    Later.now.step hs ((hs.live_built h₁.sound).child List.mem_cons_self)
  have hlink : w₂.forest.parent? n.draft = some l :=
    hs.parent?_built h₁.sound List.mem_cons_self rfl hnone₁
  have hprepare : ∀ outside, (Input.tree t outside).prepare = .ok ⟨t, outside⟩ := fun _ => rfl
  have hanalyze := fun outside =>
    Registry.fromCatalogue_builtin.analyze_eq (hprepare outside) ⟨_, _, haccept⟩
  refine ⟨w₀, w₁, w₂, h₀, hlive, hplant, hlater, ?_, ?_, ?_⟩
  · rw [h₁.sound.above_of_root hnone₁, hanalyze]
    rfl
  · rw [above, (hlater.reached h₁).sound.ancestors_of_parent hlink, hanalyze]
    rfl
  · exact plantTree_of_parent (by simp [hlink]) "again" "a.cs"

end Workspace

end TreeLint
