import TreeLint.Proofs.Blocks
import TreeLint.Proofs.Revalidation

namespace TreeLint

theorem Forest.Sound.of_live {f : Forest} {held held' : List Draft} (h : f.Sound held)
    (hheld : ∀ d ∈ held', Offers held d) (hall : ∀ d ∈ held, Live held' d) : f.Sound held' := by
  have hcollect := h.collect hheld
  rwa [h.collect_eq hheld hall] at hcollect

namespace Document

open Relation Forest.Sound
open Forest (Live Offers live_of_mem sound_empty)
open Site (blockAfter)

theorem sound_add {p : Planting} (h : p.forest.Sound (p.waiting.map Prod.snd)) (index : Nat)
    (row : Row) (span : Span) :
    (p.add index row span).forest.Sound ((p.add index row span).waiting.map Prod.snd) := by
  let inside := (p.waiting.takeWhile (·.1 == some index)).map Prod.snd
  let outside := (p.waiting.dropWhile (·.1 == some index)).map Prod.snd
  let label : Label :=
    ⟨span, row.text.getD (Draft.derivedText inside), row.identifier, row.role⟩
  have hsplit : p.waiting.map Prod.snd = inside ++ outside := by
    rw [← List.map_append, List.takeWhile_append_dropWhile]
  rw [hsplit] at h
  have hinside : ∀ c ∈ inside, Offers (inside ++ outside) c :=
    fun c hc => .inl (live_of_mem (List.mem_append_left _ hc))
  -- those that the new node takes in stop waiting, and are held by it from now on
  refine (h.construct (.known row.kind) label hinside).of_live ?_ ?_
  · intro d hd
    left
    apply live_of_mem
    rcases List.mem_cons.mp hd with rfl | hd
    · exact List.mem_cons_self
    · exact List.mem_cons_of_mem _ (List.mem_append_right _ hd)
  · intro d hd
    rcases List.mem_cons.mp hd with rfl | hd
    · exact live_of_mem List.mem_cons_self
    · rcases List.mem_append.mp hd with hd | hd
      · exact (live_of_mem List.mem_cons_self).child hd
      · exact live_of_mem (List.mem_cons_of_mem _ hd)

theorem sound_plantFrom (index : Nat) (entries : List (Row × Span)) :
    (plantFrom .empty index entries).forest.Sound
      ((plantFrom .empty index entries).waiting.map Prod.snd) := by
  induction entries generalizing index with
  | nil => exact sound_empty
  | cons e rest ih => exact sound_add (ih (index + 1)) index e.1 e.2

namespace Planted

variable {d : Document} {t : Tree}

theorem sound (h : Planted d t) (hd : d.Valid) : (d.plant .empty).forest.Sound [t.root.draft] := by
  have hsound := sound_plantFrom 0 (d.rows.zip d.spans)
  have hwaiting : (plantFrom .empty 0 (d.rows.zip d.spans)).waiting = [(none, t.root.draft)] :=
    h.waiting hd
  rw [hwaiting] at hsound
  exact hsound

theorem collect_eq (h : Planted d t) (hd : d.Valid) :
    (d.plant .empty).forest.collect [t.root.draft] = (d.plant .empty).forest :=
  (h.sound hd).collect_eq (fun _ hc => .inl (live_of_mem hc)) fun _ hc => live_of_mem hc

theorem parent?_at (h : Planted d t) {i : Nat} {s : Site} {row : Row} (hs : t.walk[i]? = some s)
    (hrow : d.rows[i]? = some row) :
    (d.plant .empty).forest.parent? s.node.draft =
      (row.parent.bind (t.walk[·]?)).map (·.node.draft) := by
  rw [Forest.parent?, Node.serial?_draft, Option.bind_some, h.link_at hs hrow]

theorem above_eq (h : Planted d t) (hd : d.Valid) {s : Site} (hs : s ∈ t.walk) :
    s.above = (d.plant .empty).forest.above s.node.draft := by
  have hsound := h.sound hd
  have hnone : (d.plant .empty).forest.parent? t.root.draft = none := by
    rw [Forest.parent?, Node.serial?_draft]
    exact h.grown.roots t.root (by simp)
  have hlinks : ∀ m ∈ t.root.nodes, ∀ c ∈ m.children,
      (d.plant .empty).forest.parent? c.draft = some m.draft := by
    intro m hm c hc
    rw [Forest.parent?, Node.serial?_draft]
    exact h.grown.links m (by simpa using hm) c hc
  apply hsound.above_of_mem_preorderOf hlinks
  rw [hsound.above_of_root hnone, ← walk_eq_preorderOf]
  exact hs

theorem exists_row (h : Planted d t) {i : Nat} {s : Site} (hs : t.walk[i]? = some s) :
    ∃ row, d.rows[i]? = some row := by
  have hlt := (List.getElem?_eq_some_iff.mp hs).1
  rw [h.length_walk] at hlt
  exact ⟨_, List.getElem?_eq_getElem hlt⟩

theorem ancestors_at (h : Planted d t) (hd : d.Valid) {j : Nat} {b : Site}
    (hb : t.walk[j]? = some b) :
    ∃ path, LeadsUp (d.rows.map Row.parent) (j :: path) ∧ (j :: path).getLast? = some 0 ∧
      ((d.plant .empty).forest.ancestors b.node.draft).map some =
        path.map fun p => t.walk[p]?.map (·.node.draft) := by
  induction j using Nat.strongRecOn generalizing b with
  | _ j ih =>
    obtain ⟨row, hrow⟩ := h.exists_row hb
    have hparent := h.parent?_at hb hrow
    have hp : (d.rows.map Row.parent)[j]? = some row.parent := by
      rw [List.getElem?_map, hrow, Option.map_some]
    cases hq : row.parent with
    | none =>
      rw [hq] at hparent hp
      obtain rfl := (h.parent_eq_none_iff hrow).mp hq
      refine ⟨[], hp, rfl, ?_⟩
      rw [(h.sound hd).ancestors_of_root hparent]
      rfl
    | some p =>
      have haround := h.around_at hb hrow
      rw [hq] at hparent hp haround
      obtain ⟨r, hr, -⟩ := haround
      rw [Option.bind_some, hr, Option.map_some] at hparent
      obtain ⟨path, hup, hlast, hancestors⟩ := ih p (hd.followsPath.lt_of_standsIn hp) hr
      refine ⟨p :: path, ⟨hp, hup⟩, ?_, ?_⟩
      · rw [List.getLast?_cons_cons]
        exact hlast
      · rw [(h.sound hd).ancestors_of_parent hparent, List.map_cons, List.map_cons, hancestors, hr]
        rfl

theorem eq_of_draft_eq (h : Planted d t) {i j : Nat} {a b : Site} (ha : t.walk[i]? = some a)
    (hb : t.walk[j]? = some b) (hdraft : a.node.draft = b.node.draft) : i = j := by
  have hlt := (List.getElem?_eq_some_iff.mp ha).1
  apply (List.getElem?_inj (by simpa using hlt) h.nodup_serial).mp
  rw [List.getElem?_map, List.getElem?_map, ha, hb, Option.map_some, Option.map_some,
    Node.draft_injective hdraft]

theorem mem_ancestors_iff (h : Planted d t) (hd : d.Valid) {i j : Nat} {a b : Site} (hij : i < j)
    (ha : t.walk[i]? = some a) (hb : t.walk[j]? = some b) :
    a.node.draft ∈ (d.plant .empty).forest.ancestors b.node.draft ↔
      TransGen (StandsIn (d.rows.map Row.parent)) j i := by
  obtain ⟨path, hup, -, hancestors⟩ := h.ancestors_at hd hb
  have hne : i ≠ j := Nat.ne_of_lt hij
  have hpath : i ∈ path ↔ TransGen (StandsIn (d.rows.map Row.parent)) j i := by
    have hmem := hup.mem_iff (p := i)
    rw [reflTransGen_iff_eq_or_transGen] at hmem
    simpa [hne] using hmem
  rw [← hpath]
  constructor
  · intro hmem
    have hsome := List.mem_map_of_mem (f := some) hmem
    rw [hancestors] at hsome
    obtain ⟨p, hp, hs⟩ := List.mem_map.mp hsome
    obtain ⟨s, hs, hdraft⟩ := Option.map_eq_some_iff.mp hs
    rwa [h.eq_of_draft_eq ha hs hdraft.symm]
  · intro hi
    have hsome : some a.node.draft ∈ path.map fun p => t.walk[p]?.map (·.node.draft) :=
      List.mem_map.mpr ⟨i, hi, by rw [ha, Option.map_some]⟩
    rw [← hancestors] at hsome
    obtain ⟨c, hc, he⟩ := List.mem_map.mp hsome
    rwa [← Option.some.inj he]

theorem descendants_at (h : Planted d t) {i : Nat} {a : Site} (ha : t.walk[i]? = some a) :
    a.descendants = blockAfter t.walk (d.rows.map Row.parent) i := by
  rw [walk_eq_preorderOf] at ha ⊢
  rw [← h.parents]
  exact Site.descendants_eq_blockAfter t.root ha

theorem mem_descendants_iff (h : Planted d t) {i j : Nat} {a b : Site} (hij : i < j)
    (ha : t.walk[i]? = some a) (hb : t.walk[j]? = some b) :
    b ∈ a.descendants ↔ Encloses (d.rows.map Row.parent) i j := by
  rw [h.descendants_at ha]
  exact mem_blockAfter_iff h.nodup_serial.of_map (by rw [h.length_walk, List.length_map]) hij hb

end Planted

/--
The nodes around a node are those that it stands below, and the numbers of the rows say which: by the
way up from row to row, and by the rows behind one, up to the first that stands in an earlier one.
Whoever holds the tree keeps every link in it.
-/
theorem navigation_agrees (d : Document) (hd : d.Valid) :
    ∃ t, d.toTree = .ok t ∧ t.walk.length = d.rows.length ∧
      (t.walk.map (·.node.serial)).Nodup ∧
      let links := (d.plant .empty).forest
      let ps := d.rows.map Row.parent
      links.collect [t.root.draft] = links ∧
        (∀ i j a b, i < j → t.walk[i]? = some a → t.walk[j]? = some b →
          (a.node.draft ∈ links.ancestors b.node.draft ↔ b ∈ a.descendants) ∧
          (b ∈ a.descendants ↔ TransGen (StandsIn ps) j i) ∧
          (TransGen (StandsIn ps) j i ↔ Encloses ps i j)) ∧
        (∀ (i : Nat) a, t.walk[i]? = some a → a.descendants = blockAfter t.walk ps i) ∧
        ∀ (j : Nat) b, t.walk[j]? = some b → b.above = links.above b.node.draft ∧
          ∃ path, LeadsUp ps (j :: path) ∧ (j :: path).getLast? = some 0 ∧
            (links.ancestors b.node.draft).map some =
              path.map fun p => t.walk[p]?.map (·.node.draft) := by
  obtain ⟨t, h⟩ := hd.planted
  refine ⟨t, h.toTree, h.length_walk, h.nodup_serial, h.collect_eq hd, ?_, ?_, ?_⟩
  · intro i j a b hij ha hb
    have hchain := hd.followsPath.encloses_iff hij
    have hup := h.mem_ancestors_iff hd hij ha hb
    have hdown := (h.mem_descendants_iff hij ha hb).trans hchain
    exact ⟨hup.trans hdown.symm, hdown, hchain.symm⟩
  · intro i a ha
    exact h.descendants_at ha
  · intro j b hb
    exact ⟨h.above_eq hd (List.mem_of_getElem? hb), h.ancestors_at hd hb⟩

theorem navigation_agrees_loop :
    let d : Document := ⟨"a.cs", [
      ⟨.block, none, none, none, none, none⟩,
      ⟨.whileStatement, some 0, none, none, none, none⟩,
      ⟨.block, some 1, none, none, none, none⟩,
      ⟨.identifierName, some 2, some "x", none, none, none⟩,
      ⟨.identifierName, some 0, some "x", none, none, none⟩]⟩
    d.Valid ∧ ∃ t loop inner outer, d.toTree = .ok t ∧ t.walk[1]? = some loop ∧
      t.walk[3]? = some inner ∧ t.walk[4]? = some outer ∧
      inner ∈ loop.descendants ∧ outer ∉ loop.descendants ∧
      loop.node.draft ∈ (d.plant .empty).forest.ancestors inner.node.draft ∧
      loop.node.draft ∉ (d.plant .empty).forest.ancestors outer.node.draft := by
  intro d
  have hd : d.Valid := by
    refine ⟨by simp [d], rfl, ?_⟩
    simp [d]
  obtain ⟨t, ht, hlen, -, -, hnodes, -⟩ := navigation_agrees d hd
  have hlen : t.walk.length = 5 := hlen
  have hat := fun i (hi : i < 5) => List.getElem?_eq_getElem (l := t.walk) (hlen ▸ hi)
  obtain ⟨hlinks, hdown, hup⟩ :=
    hnodes 1 3 _ _ (by decide) (hat 1 (by decide)) (hat 3 (by decide))
  obtain ⟨hlinks', hdown', hup'⟩ :=
    hnodes 1 4 _ _ (by decide) (hat 1 (by decide)) (hat 4 (by decide))
  have hinner := (hdown.trans hup).mpr (by decide)
  have houter := (not_congr (hdown'.trans hup')).mpr (by decide)
  exact ⟨hd, t, _, _, _, ht, hat 1 (by decide), hat 3 (by decide), hat 4 (by decide), hinner, houter,
    hlinks.mpr hinner, (not_congr hlinks').mpr houter⟩

end Document

end TreeLint
