import Mathlib.Data.List.Nodup
import TreeLint.Forest.Accept
import TreeLint.Proofs.Numbering

namespace TreeLint

namespace Node

mutual

def draft : Node → Draft
  | mk serial kind label children => .node serial (.known kind) label (drafts children)

def drafts : List Node → List Draft
  | [] => []
  | n :: rest => n.draft :: drafts rest

end

theorem drafts_eq_map (ns : List Node) : drafts ns = ns.map draft := by
  induction ns with
  | nil => rfl
  | cons n rest ih => rw [drafts, ih, List.map_cons]

theorem serial?_draft (n : Node) : n.draft.serial? = some n.serial := by
  cases n
  rfl

theorem label?_draft (n : Node) : n.draft.label? = some n.label := by
  cases n
  rfl

theorem isSame_draft (n : Node) : n.draft.isSame n.draft = true := by
  cases n
  simp [draft, Draft.isSame]

mutual

theorem settle_draft : ∀ n : Node, n.draft.settle = .ok n
  | mk serial kind label children => by
    rw [draft, Draft.settle, settleAll_drafts children]
    rfl

theorem settleAll_drafts : ∀ ns : List Node, Draft.settleAll (drafts ns) = .ok ns
  | [] => rfl
  | n :: rest => by
    rw [drafts, Draft.settleAll, settle_draft n, settleAll_drafts rest]

end

theorem derivedText_drafts (ns : List Node) :
    Draft.derivedText (ns.map draft) = Text.phrase (ns.map text) := by
  have hlabels : (ns.map draft).filterMap Draft.label? = ns.map label := by
    induction ns with
    | nil => rfl
    | cons n rest ih => simp only [List.map_cons, List.filterMap_cons, label?_draft, ih]
  rw [Draft.derivedText, hlabels, List.map_map]
  rfl

end Node

namespace Forest

open Node

theorem size_adopt (p : Draft) (links : Array (Option Draft)) (ds : List Draft) :
    (adopt p links ds).size = links.size := by
  induction ds generalizing links with
  | nil => rfl
  | cons d rest ih =>
    cases d with
    | node serial kind label children => simp [adopt, ih]
    | foreign mark v => simp [adopt, ih]

theorem getElem?_adopt (p : Draft) (links : Array (Option Draft)) (ds : List Draft) (j : Nat) :
    (adopt p links ds)[j]? =
      if j ∈ ds.filterMap Draft.serial? then links[j]?.map (·.or (some p)) else links[j]? := by
  induction ds generalizing links with
  | nil => simp [adopt]
  | cons d rest ih =>
    cases d with
    | foreign mark v => exact ih links
    | node serial kind label children =>
      have hserial : (Draft.node serial kind label children).serial? = some serial := rfl
      simp only [adopt, ih, Array.getElem?_modify, List.filterMap_cons, hserial, List.mem_cons]
      by_cases hj : serial = j
      · subst hj
        cases links[serial]? with
        | none => simp
        | some link => by_cases hmem : serial ∈ rest.filterMap Draft.serial? <;> simp [hmem]
      · have hj' : j ≠ serial := fun e => hj e.symm
        simp [hj, hj']

theorem parentOf?_construct (f : Forest) (kind : KindTag) (label : Label) (ds : List Draft)
    (j : Nat) (hds : ∀ s ∈ ds.filterMap Draft.serial?, s < f.size) :
    (f.construct kind label ds).2.parentOf? j =
      if j ∈ ds.filterMap Draft.serial? then
        (f.parentOf? j).or (some (.node f.size kind label ds))
      else f.parentOf? j := by
  simp only [construct, parentOf?, Array.getElem?_push, size_adopt, getElem?_adopt]
  by_cases hj : j = f.links.size
  · have hnot : j ∉ ds.filterMap Draft.serial? := by
      intro hmem
      have := hds j hmem
      unfold size at this
      omega
    simp [hj ▸ hnot, hj]
  · rw [if_neg hj]
    by_cases hmem : j ∈ ds.filterMap Draft.serial?
    · have hlt : j < f.links.size := hds j hmem
      simp [hmem, Array.getElem?_eq_getElem hlt]
    · simp [hmem]

theorem parentOf?_construct_drafts (f : Forest) (kind : Kind) (label : Label) (ns : List Node)
    (j : Nat) (hns : ∀ n ∈ ns, n.serial < f.size) :
    (f.construct (.known kind) label (ns.map draft)).2.parentOf? j =
      if j ∈ ns.map serial then
        (f.parentOf? j).or (some (Node.mk f.size kind label ns).draft)
      else f.parentOf? j := by
  have hserials : (ns.map draft).filterMap Draft.serial? = ns.map serial := by
    rw [List.filterMap_map, ← List.filterMap_eq_map]
    congr 1
    funext n
    exact serial?_draft n
  have hlt : ∀ s ∈ ns.map serial, s < f.size := by
    intro s hs
    obtain ⟨n, hn, rfl⟩ := List.mem_map.mp hs
    exact hns n hn
  rw [parentOf?_construct _ _ _ _ _ (by rwa [hserials]), hserials, draft, drafts_eq_map]

theorem create_eq (f : Forest) (kind : Kind) (ns : List Node) (text identifier role : Option String)
    (span : Span) :
    f.create (.known kind) (ns.map draft) text identifier role (some span) =
      f.construct (.known kind)
        ⟨span, text.getD (Text.phrase (ns.map Node.text)), identifier, role⟩ (ns.map draft) := by
  simp only [create, derivedText_drafts, Option.getD_some]

theorem size_construct (f : Forest) (kind : KindTag) (label : Label) (ds : List Draft) :
    (f.construct kind label ds).2.size = f.size + 1 := by
  simp only [construct, size, Array.size_push, size_adopt]

structure Grown (f g : Forest) (ns : List Node) : Prop where
  size : g.size = f.size + (ns.flatMap nodes).length
  old : ∀ j < f.size, g.parentOf? j = f.parentOf? j
  fresh : ∀ n ∈ ns.flatMap nodes, f.size ≤ n.serial ∧ n.serial < g.size
  nodup : ((ns.flatMap nodes).map serial).Nodup
  roots : ∀ n ∈ ns, g.parentOf? n.serial = none
  links : ∀ n ∈ ns.flatMap nodes, ∀ c ∈ n.children, g.parentOf? c.serial = some n.draft

namespace Grown

variable {f g h : Forest} {n : Node} {ns : List Node}

theorem refl (f : Forest) : Grown f f [] where
  size := rfl
  old := fun _ _ => rfl
  fresh := by simp
  nodup := by simp
  roots := by simp
  links := by simp

theorem serial_lt (hg : Grown f g ns) (hn : n ∈ ns) : n.serial < g.size :=
  (hg.fresh n (List.mem_flatMap.mpr ⟨n, hn, mem_nodes_self n⟩)).2

theorem cons (hg : Grown f g ns) (hh : Grown g h [n]) : Grown f h (n :: ns) := by
  have hn : ∀ {m}, m ∈ n.nodes → g.size ≤ m.serial ∧ m.serial < h.size := by
    intro m hm
    exact hh.fresh m (by simpa using hm)
  have hsize : h.size = g.size + n.nodes.length := by simpa using hh.size
  refine ⟨?_, ?_, ?_, ?_, ?_, ?_⟩
  · rw [hsize, hg.size, List.flatMap_cons, List.length_append]
    omega
  · intro j hj
    have := hg.size
    rw [hh.old j (by omega), hg.old j hj]
  · intro m hm
    rw [List.flatMap_cons] at hm
    rcases List.mem_append.mp hm with hm | hm
    · have := hn hm
      have := hg.size
      omega
    · have := hg.fresh m hm
      omega
  · rw [List.flatMap_cons, List.map_append]
    refine List.nodup_append.mpr ⟨by simpa using hh.nodup, hg.nodup, ?_⟩
    rintro i hi j hj rfl
    obtain ⟨a, ha, rfl⟩ := List.mem_map.mp hi
    obtain ⟨b, hb, hab⟩ := List.mem_map.mp hj
    have := hn ha
    have := hg.fresh b hb
    omega
  · intro m hm
    rcases List.mem_cons.mp hm with rfl | hm
    · exact hh.roots m (by simp)
    · rw [hh.old _ (hg.serial_lt hm)]
      exact hg.roots m hm
  · intro m hm c hc
    rw [List.flatMap_cons] at hm
    rcases List.mem_append.mp hm with hm | hm
    · exact hh.links m (by simpa using hm) c hc
    · rw [hh.old _ (hg.fresh c (children_mem_flatMap_nodes ns hm hc)).2]
      exact hg.links m hm c hc

theorem not_root (hg : Grown f g ns) {m c : Node} (hm : m ∈ ns.flatMap nodes)
    (hc : c ∈ m.children) : c.serial ∉ ns.map serial := by
  intro hmem
  obtain ⟨r, hr, he⟩ := List.mem_map.mp hmem
  have hroot := hg.roots r hr
  rw [he, hg.links m hm c hc] at hroot
  simp at hroot

theorem construct (hg : Grown f g ns) (kind : Kind) (label : Label) :
    Grown f (g.construct (.known kind) label (ns.map draft)).2 [.mk g.size kind label ns] := by
  have hparent := fun j => parentOf?_construct_drafts g kind label ns j fun n hn => hg.serial_lt hn
  have hnodes : [Node.mk g.size kind label ns].flatMap nodes =
      .mk g.size kind label ns :: ns.flatMap nodes := by
    simp [nodes_mk]
  have hsize := size_construct g (.known kind) label (ns.map draft)
  have hgsize := hg.size
  have hself : g.size ∉ ns.map serial := by
    intro hmem
    obtain ⟨r, hr, he⟩ := List.mem_map.mp hmem
    have := hg.serial_lt hr
    omega
  refine ⟨?_, ?_, ?_, ?_, ?_, ?_⟩
  · rw [hsize, hnodes, List.length_cons]
    omega
  · intro j hj
    have hnot : j ∉ ns.map serial := by
      intro hmem
      obtain ⟨r, hr, rfl⟩ := List.mem_map.mp hmem
      have := hg.fresh r (List.mem_flatMap.mpr ⟨r, hr, mem_nodes_self r⟩)
      omega
    rw [hparent, if_neg hnot, hg.old j hj]
  · intro m hm
    rw [hnodes] at hm
    rcases List.mem_cons.mp hm with rfl | hm
    · simp only [Node.serial]
      omega
    · have := hg.fresh m hm
      omega
  · rw [hnodes, List.map_cons, List.nodup_cons]
    refine ⟨?_, hg.nodup⟩
    intro hmem
    obtain ⟨m, hm, he⟩ := List.mem_map.mp hmem
    have hlt := (hg.fresh m hm).2
    simp only [Node.serial] at he hlt
    omega
  · intro m hm
    obtain rfl : m = .mk g.size kind label ns := by simpa using hm
    have hnone : g.parentOf? g.size = none := by simp [parentOf?, Forest.size]
    rw [Node.serial, hparent, if_neg hself, hnone]
  · intro m hm c hc
    rw [hnodes] at hm
    rcases List.mem_cons.mp hm with rfl | hm
    · have hmem : c.serial ∈ ns.map serial := List.mem_map.mpr ⟨c, hc, rfl⟩
      rw [hparent, if_pos hmem, hg.roots c hc, Option.none_or]
    · rw [hparent, if_neg (hg.not_root hm hc)]
      exact hg.links m hm c hc

end Grown

end Forest

end TreeLint
