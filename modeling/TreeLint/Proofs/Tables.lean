import TreeLint.Proofs.Starts

/-!
The passes over a listing with tables by position: which rows have others inside them, where a row
starts and how far it reaches yet, and which nodes wait for it. On a pre-order listing they come to
what the recursion over the listing comes to, where all that waits is kept in one list.
-/

namespace TreeLint.Document

def openParents (ps : List (Option Nat)) (index : Nat) : List (Option Nat) :=
  (ps.drop index).filter fun q => q.all (· < index)

def Waits {α : Type} (ps : List (Option Nat)) (index : Nat)
    (waiting : List (Option Nat × α)) : Prop :=
  (waiting.map Prod.fst).Sublist (openParents ps index)

theorem takeWhile_eq_filter {α : Type} {P : α → Bool} {l : List α}
    (h : l.Pairwise fun a b => P b → P a) :
    l.takeWhile P = l.filter P ∧ l.dropWhile P = l.filter fun a => !P a := by
  induction l with
  | nil => exact ⟨rfl, rfl⟩
  | cons a rest ih =>
    obtain ⟨ha, hrest⟩ := List.pairwise_cons.mp h
    obtain ⟨htake, hdrop⟩ := ih hrest
    cases hP : P a with
    | true => simp [hP, htake, hdrop]
    | false =>
      have hnone : ∀ b ∈ rest, P b = false := by
        intro b hb
        by_contra hPb
        have := ha b hb (by simpa using hPb)
        simp [hP] at this
      have hall : rest.filter (fun b => !P b) = rest :=
        List.filter_eq_self.mpr fun b hb => by simp [hnone b hb]
      simpa [hP, hall] using hnone

section

variable {α : Type} {ps : List (Option Nat)} {index : Nat} {waiting : List (Option Nat × α)}

theorem FollowsPath.pairwise_openParents (h : FollowsPath ps) (index : Nat) :
    (openParents ps (index + 1)).Pairwise fun a b => b = some index → a = some index := by
  rw [openParents, List.pairwise_filter, List.pairwise_iff_getElem]
  rintro i j hi hj hij ha - hb
  rw [List.length_drop] at hi hj
  rw [List.getElem_drop] at ha hb ⊢
  have hparent : StandsIn ps (index + 1 + j) index := List.getElem?_eq_some_iff.mpr ⟨by omega, hb⟩
  obtain ⟨p, hp, hle⟩ :=
    h.encloses_of_transGen (.single hparent) (index + 1 + i) (by omega) (by omega)
  obtain ⟨hlt, hp⟩ := List.getElem?_eq_some_iff.mp hp
  rw [hp] at ha ⊢
  have hlt : p < index + 1 := by simpa using ha
  exact congrArg some (by omega)

theorem Waits.split (h : FollowsPath ps) (hw : Waits ps (index + 1) waiting) :
    waiting.takeWhile (·.1 == some index) = waiting.filter (·.1 == some index) ∧
      waiting.dropWhile (·.1 == some index) = waiting.filter fun e => !(e.1 == some index) := by
  apply takeWhile_eq_filter
  have hpairs := (h.pairwise_openParents index).sublist hw
  exact (List.pairwise_map.mp hpairs).imp fun hab hb => by simpa using hab (by simpa using hb)

theorem Waits.sublist_dropWhile (h : FollowsPath ps) (hw : Waits ps (index + 1) waiting) :
    ((waiting.dropWhile (·.1 == some index)).map Prod.fst).Sublist
      ((ps.drop (index + 1)).filter fun q => q.all (· < index)) := by
  have hopen : (openParents ps (index + 1)).filter (fun q => !(q == some index)) =
      (ps.drop (index + 1)).filter fun q => q.all (· < index) := by
    rw [openParents, List.filter_filter]
    apply List.filter_congr
    intro q _
    cases q with
    | none => rfl
    | some p =>
      rw [Bool.eq_iff_iff]
      simp
      omega
  have hsub := List.Sublist.filter (fun q => !(q == some index)) hw
  rw [hopen, List.filter_map] at hsub
  rw [(hw.split h).2]
  exact hsub

theorem Waits.drop (h : FollowsPath ps) (hindex : index < ps.length)
    (hw : Waits ps (index + 1) waiting) :
    Waits ps index (waiting.dropWhile (·.1 == some index)) := by
  rw [Waits, openParents, List.drop_eq_getElem_cons hindex]
  exact (hw.sublist_dropWhile h).trans ((List.sublist_cons_self _ _).filter _)

theorem Waits.push (h : FollowsPath ps) {q : Option Nat} (hq : ps[index]? = some q)
    (hw : Waits ps (index + 1) waiting) (a : α) :
    Waits ps index ((q, a) :: waiting.dropWhile (·.1 == some index)) := by
  obtain ⟨hindex, rfl⟩ := List.getElem?_eq_some_iff.mp hq
  have hbefore : ps[index].all (· < index) := by
    cases hp : ps[index] with
    | none => rfl
    | some p => simpa using h.lt_of_standsIn (List.getElem?_eq_some_iff.mpr ⟨hindex, hp⟩)
  rw [Waits, openParents, List.drop_eq_getElem_cons hindex, List.filter_cons_of_pos hbefore,
    List.map_cons]
  exact (hw.sublist_dropWhile h).cons_cons _

/-- What waits for an earlier row is left as it is when a later row takes in what waits for it. -/
theorem filter_dropWhile (h : FollowsPath ps) (hw : Waits ps (index + 1) waiting) {p : Nat}
    (hp : p < index) :
    (waiting.dropWhile (·.1 == some index)).filter (·.1 == some p) =
      waiting.filter (·.1 == some p) := by
  rw [(hw.split h).2, List.filter_filter]
  apply List.filter_congr
  intro e _
  by_cases he : e.1 = some p
  · simp [he, Nat.ne_of_lt hp]
  · simp [he]

end

def markParent (marks : Array Bool) (row : Row) : Array Bool :=
  match row.parent with
  | some p => marks.setIfInBounds p true
  | none => marks

def markParents (rows : List Row) : Array Bool :=
  rows.foldl markParent (.replicate rows.length false)

structure Offsets where
  starts : Array Nat
  ends : Array Nat
  free : Nat

namespace Offsets

def add (marks : Array Bool) (o : Offsets) (e : Row × Nat) : Offsets :=
  match e.1.span with
  | some _ => o
  | none =>
    let starts := o.starts.setIfInBounds e.2 o.free
    if marks[e.2]?.getD false then ⟨starts, o.ends.setIfInBounds e.2 o.free, o.free⟩
    else
      let stop := o.free + textLength e.1
      ⟨starts, o.ends.setIfInBounds e.2 stop, stop + 1⟩

def ofRows (rows : List Row) : Offsets :=
  rows.zipIdx.foldl (add (markParents rows))
    ⟨.replicate rows.length 0, .replicate rows.length 0, 0⟩

end Offsets

def handOn (rows : List Row) (ends : Array Nat) (parent : Option Nat) (stop : Nat) : Array Nat :=
  match parent with
  | some p => if (rows[p]?.bind Row.span).isNone then ends.modify p (max · stop) else ends
  | none => ends

def closeSpans (rows : List Row) (o : Offsets) (index : Nat) : List Row → List Span × Array Nat
  | [] => ([], o.ends)
  | row :: rest =>
    let (spans, ends) := closeSpans rows o (index + 1) rest
    match row.span with
    | some span => (span :: spans, ends)
    | none =>
      let start := o.starts[index]?.getD 0
      let stop := ends[index]?.getD 0
      (⟨start, stop, 1, start⟩ :: spans, handOn rows ends row.parent stop)

def spansByTables (rows : List Row) : List Span :=
  (closeSpans rows (.ofRows rows) 0 rows).1

theorem getD_markParent (marks : Array Bool) (row : Row) {i : Nat} (hi : i < marks.size) :
    (markParent marks row)[i]?.getD false = (marks[i]?.getD false || row.parent == some i) := by
  rw [markParent]
  cases row.parent with
  | none => simp
  | some p =>
    simp only [Array.getElem?_setIfInBounds]
    by_cases hp : p = i
    · simp [hp, hi]
    · simp [hp]

theorem getD_markParents (rows : List Row) {i : Nat} (hi : i < rows.length) :
    (markParents rows)[i]?.getD false = (rows.map Row.parent).contains (some i) := by
  suffices hfold : ∀ (more : List Row) (marks : Array Bool), i < marks.size →
      (more.foldl markParent marks)[i]?.getD false =
        (marks[i]?.getD false || (more.map Row.parent).contains (some i)) by
    rw [markParents, hfold rows _ (by simpa using hi)]
    simp [hi]
  intro more
  induction more with
  | nil => simp
  | cons row rest ih =>
    intro marks hmarks
    have hsize : (markParent marks row).size = marks.size := by
      rw [markParent]
      split <;> simp
    rw [List.foldl_cons, ih _ (hsize ▸ hmarks), getD_markParent marks row hmarks, Bool.or_assoc,
      List.map_cons, List.contains_cons, Bool.beq_comm]

def ownStop (rows : List Row) (e : Row × Nat) : Nat :=
  offsetAt rows e.2 +
    if (rows.map Row.parent).contains (some e.2) then 0 else textLength e.1

structure Offsets.Covers (rows : List Row) (index : Nat) (o : Offsets) : Prop where
  starts_size : o.starts.size = rows.length
  ends_size : o.ends.size = rows.length
  free : o.free = offsetAt rows index
  starts : ∀ i row, i < index → rows[i]? = some row → row.span = none →
    o.starts[i]? = some (offsetAt rows i)
  ends : ∀ i row, i < index → rows[i]? = some row → row.span = none →
    o.ends[i]? = some (ownStop rows (row, i))

theorem Offsets.Covers.add {rows : List Row} {index : Nat} {o : Offsets} {row : Row}
    (h : o.Covers rows index) (hrow : rows[index]? = some row) :
    (o.add (markParents rows) (row, index)).Covers rows (index + 1) := by
  have hlt := (List.getElem?_eq_some_iff.mp hrow).1
  have hnext := offsetAt_succ hrow
  have hcases : ∀ {i : Nat} {row' : Row}, i < index + 1 → rows[i]? = some row' →
      i < index ∨ i = index ∧ row' = row := by
    intro i row' hi hrow'
    rcases Nat.lt_succ_iff_lt_or_eq.mp hi with hi | rfl
    · exact .inl hi
    · exact .inr ⟨rfl, Option.some.inj (hrow'.symm.trans hrow)⟩
  cases hspan : row.span with
  | some span =>
    have hsame : o.add (markParents rows) (row, index) = o := by rw [Offsets.add, hspan]
    rw [hsame]
    refine { h with free := ?_, starts := ?_, ends := ?_ }
    · simp [h.free, hnext, advance, hspan]
    · intro i row' hi hrow' hnone
      rcases hcases hi hrow' with hi | ⟨-, rfl⟩
      · exact h.starts i row' hi hrow' hnone
      · simp [hspan] at hnone
    · intro i row' hi hrow' hnone
      rcases hcases hi hrow' with hi | ⟨-, rfl⟩
      · exact h.ends i row' hi hrow' hnone
      · simp [hspan] at hnone
  | none =>
    have hadd : o.add (markParents rows) (row, index) =
        ⟨o.starts.setIfInBounds index (offsetAt rows index),
          o.ends.setIfInBounds index (ownStop rows (row, index)), offsetAt rows (index + 1)⟩ := by
      rw [Offsets.add, hspan, hnext]
      simp only [getD_markParents rows hlt, h.free, ownStop, advance, hspan]
      cases (rows.map Row.parent).contains (some index) <;> simp [Nat.add_assoc]
    rw [hadd]
    refine ⟨by simpa using h.starts_size, by simpa using h.ends_size, rfl, ?_, ?_⟩
    · intro i row' hi hrow' hnone
      rcases hcases hi hrow' with hi | ⟨rfl, rfl⟩
      · rw [Array.getElem?_setIfInBounds_ne (by omega), h.starts i row' hi hrow' hnone]
      · rw [Array.getElem?_setIfInBounds_self_of_lt (by rw [h.starts_size]; exact hlt)]
    · intro i row' hi hrow' hnone
      rcases hcases hi hrow' with hi | ⟨rfl, rfl⟩
      · rw [Array.getElem?_setIfInBounds_ne (by omega), h.ends i row' hi hrow' hnone]
      · rw [Array.getElem?_setIfInBounds_self_of_lt (by rw [h.ends_size]; exact hlt)]

theorem Offsets.covers_ofRows (rows : List Row) : (ofRows rows).Covers rows rows.length := by
  suffices hfold : ∀ (rest : List Row) (index : Nat) (o : Offsets), rows.drop index = rest →
      o.Covers rows index →
      ((rest.zipIdx index).foldl (add (markParents rows)) o).Covers rows (index + rest.length) by
    have hstart : Covers rows 0 ⟨.replicate rows.length 0, .replicate rows.length 0, 0⟩ :=
      ⟨by simp, by simp, rfl, by simp, by simp⟩
    simpa [ofRows] using hfold rows 0 _ rfl hstart
  intro rest
  induction rest with
  | nil =>
    intro index o _ ho
    exact ho
  | cons row rest ih =>
    intro index o hrest ho
    obtain ⟨hrow, hrest⟩ := getElem?_of_drop hrest
    have hlater := ih (index + 1) _ hrest (ho.add hrow)
    rw [List.zipIdx_cons, List.foldl_cons, List.length_cons]
    rwa [Nat.add_right_comm] at hlater

section

variable {rows : List Row} {index offset : Nat} {rest : List Row}

theorem waits_fillSpans (h : FollowsPath (rows.map Row.parent)) (hrest : rows.drop index = rest)
    (offset : Nat) : Waits (rows.map Row.parent) index (fillSpans index offset rest).2 := by
  induction rest generalizing index offset with
  | nil => exact List.nil_sublist _
  | cons row rest ih =>
    obtain ⟨hrow, hrest⟩ := getElem?_of_drop hrest
    have hparent : (rows.map Row.parent)[index]? = some row.parent := by simp [hrow]
    have hlt := (List.getElem?_eq_some_iff.mp hparent).1
    rw [fillSpans]
    cases row.span with
    | some span => exact (ih hrest _).drop h hlt
    | none => exact (ih hrest _).push h hparent _

def reachOf (waiting : List (Option Nat × Nat)) (p own : Nat) : Nat :=
  (waiting.filter (·.1 == some p)).foldl (fun stop e => max stop e.2) own

theorem reachOf_cons (parent : Option Nat) (stop : Nat) (waiting : List (Option Nat × Nat))
    (p own : Nat) : reachOf ((parent, stop) :: waiting) p own =
      if parent = some p then max (reachOf waiting p own) stop else reachOf waiting p own := by
  have hcomm : ∀ (l : List (Option Nat × Nat)) (own : Nat),
      l.foldl (fun stop e => max stop e.2) (max own stop) =
        max (l.foldl (fun stop e => max stop e.2) own) stop := by
    intro l
    induction l with
    | nil => exact fun _ => rfl
    | cons e rest ih =>
      intro own
      rw [List.foldl_cons, List.foldl_cons, Nat.max_right_comm, ih]
  by_cases hp : parent = some p
  · simp [reachOf, hp, hcomm]
  · simp [reachOf, hp]

theorem getElem?_handOn (ends : Array Nat) (parent : Option Nat) (stop : Nat) {p : Nat}
    (hp : (rows[p]?.bind Row.span) = none) : (handOn rows ends parent stop)[p]? =
      if parent = some p then ends[p]?.map (max · stop) else ends[p]? := by
  cases parent with
  | none => rfl
  | some q =>
    rw [handOn]
    by_cases hq : q = p
    · simp [hq, hp, Array.getElem?_modify]
    · split <;> simp [hq, Array.getElem?_modify]

theorem fillSpans_of_given {row : Row} {span : Span} (hspan : row.span = some span) :
    fillSpans index offset (row :: rest) = (span :: (fillSpans (index + 1) offset rest).1,
      (fillSpans (index + 1) offset rest).2.dropWhile (·.1 == some index)) := by
  rw [fillSpans, hspan]

theorem fillSpans_of_omitted (h : FollowsPath (rows.map Row.parent)) {row : Row}
    (hrest : rows.drop index = row :: rest) (hspan : row.span = none) :
    let below := fillSpans (index + 1) (offsetAt rows (index + 1)) rest
    let stop := reachOf below.2 index (ownStop rows (row, index))
    fillSpans index (offsetAt rows index) (row :: rest) =
      (⟨offsetAt rows index, stop, 1, offsetAt rows index⟩ :: below.1,
        (row.parent, stop) :: below.2.dropWhile (·.1 == some index)) := by
  intro below stop
  obtain ⟨hrow, hrest⟩ := getElem?_of_drop hrest
  have hleaf : isLeaf index rest = !(rows.map Row.parent).contains (some index) := by
    rw [← hrest, isLeaf_drop_eq h]
  have hown : (if isLeaf index rest then offsetAt rows index + textLength row
      else offsetAt rows index) = ownStop rows (row, index) := by
    rw [hleaf, ownStop]
    cases (rows.map Row.parent).contains (some index) <;> simp
  have hnext : (if isLeaf index rest then ownStop rows (row, index) + 1 else offsetAt rows index) =
      offsetAt rows (index + 1) := by
    rw [offsetAt_succ hrow, ← hown, advance, hspan, hleaf]
    cases (rows.map Row.parent).contains (some index) <;> simp [Nat.add_assoc]
  have htake := ((waits_fillSpans h hrest (offsetAt rows (index + 1))).split h).1
  simp only [fillSpans, hspan, hown, hnext, htake]
  rfl

theorem closeSpans_eq (h : FollowsPath (rows.map Row.parent)) {o : Offsets}
    (ho : o.Covers rows rows.length) (hrest : rows.drop index = rest) :
    (closeSpans rows o index rest).1 = (fillSpans index (offsetAt rows index) rest).1 ∧
      ∀ p < index, (rows[p]?.bind Row.span) = none →
        (closeSpans rows o index rest).2[p]? = o.ends[p]?.map
          (reachOf (fillSpans index (offsetAt rows index) rest).2 p) := by
  induction rest generalizing index with
  | nil =>
    refine ⟨rfl, fun p _ _ => ?_⟩
    have hreach : reachOf (fillSpans index (offsetAt rows index) []).2 p = id := rfl
    rw [hreach, Option.map_id]
    rfl
  | cons row rest ih =>
    obtain ⟨hrow, hlater⟩ := getElem?_of_drop hrest
    have hwaits := waits_fillSpans h hlater (offsetAt rows (index + 1))
    obtain ⟨hspans, hends⟩ := ih hlater
    -- the entries for earlier rows are the same before and after this row takes in its own
    have hkeep : ∀ p < index,
        reachOf ((fillSpans (index + 1) (offsetAt rows (index + 1)) rest).2.dropWhile
          (·.1 == some index)) p =
        reachOf (fillSpans (index + 1) (offsetAt rows (index + 1)) rest).2 p := by
      intro p hp
      funext own
      rw [reachOf, filter_dropWhile h hwaits hp]
      rfl
    cases hspan : row.span with
    | some span =>
      have hoffset : offsetAt rows (index + 1) = offsetAt rows index := by
        simp [offsetAt_succ hrow, advance, hspan]
      rw [hoffset] at hspans hends hkeep
      rw [fillSpans_of_given hspan, closeSpans, hspan]
      refine ⟨congrArg _ hspans, fun p hp hnone => ?_⟩
      rw [hends p (Nat.lt_succ_of_lt hp) hnone, hkeep p hp]
    | none =>
      have hlt := (List.getElem?_eq_some_iff.mp hrow).1
      have hstart := ho.starts index row hlt hrow hspan
      have hstop := hends index (Nat.lt_succ_self index) (by simp [hrow, hspan])
      rw [ho.ends index row hlt hrow hspan] at hstop
      rw [fillSpans_of_omitted h hrest hspan, closeSpans, hspan]
      simp only [hstart, hstop, hspans, Option.map_some, Option.getD_some, true_and]
      intro p hp hnone
      rw [getElem?_handOn _ _ _ hnone, hends p (Nat.lt_succ_of_lt hp) hnone]
      by_cases hparent : row.parent = some p
      · rw [if_pos hparent, Option.map_map]
        congr 1
        funext own
        rw [reachOf_cons, if_pos hparent, hkeep p hp]
        rfl
      · rw [if_neg hparent]
        congr 1
        funext own
        rw [reachOf_cons, if_neg hparent, hkeep p hp]

theorem spansByTables_eq {d : Document} (h : FollowsPath (d.rows.map Row.parent)) :
    spansByTables d.rows = d.spans :=
  (closeSpans_eq h (Offsets.covers_ofRows d.rows) rfl).1

end

structure Sprouts where
  forest : Forest
  children : Array (List Draft)
  root : Option Draft

def Sprouts.add (s : Sprouts) (index : Nat) (row : Row) (span : Span) : Sprouts :=
  let (d, forest) := s.forest.create (.known row.kind) (s.children[index]?.getD []).reverse row.text
    row.identifier row.role (some span)
  match row.parent with
  | none => ⟨forest, s.children, some d⟩
  | some p => ⟨forest, s.children.modify p (· ++ [d]), s.root⟩

def sproutFrom (f : Forest) (count index : Nat) : List (Row × Span) → Sprouts
  | [] => ⟨f, .replicate count [], none⟩
  | (row, span) :: rest => (sproutFrom f count (index + 1) rest).add index row span

def toTreeByTables (d : Document) : Except Malformed Tree :=
  let s := sproutFrom .empty d.rows.length 0 (d.rows.zip (spansByTables d.rows))
  s.forest.accept (s.root.getD (.foreign 0 .null)) d.path

section

variable {ps : List (Option Nat)} {f : Forest} {index : Nat} {es : List (Row × Span)}

theorem waits_plantFrom (h : FollowsPath ps) (hes : ps.drop index = es.map (·.1.parent)) :
    Waits ps index (plantFrom f index es).waiting := by
  induction es generalizing index with
  | nil => exact List.nil_sublist _
  | cons e rest ih =>
    obtain ⟨hparent, hlater⟩ := getElem?_of_drop hes
    exact (ih hlater).push h hparent _

structure Sprouts.Holds (p : Planting) (index count : Nat) (s : Sprouts) : Prop where
  forest : s.forest = p.forest
  size : s.children.size = count
  children : ∀ q < index, s.children[q]?.getD [] =
    ((p.waiting.filter (·.1 == some q)).map (·.2)).reverse
  root : p.waiting.head?.all (·.1.isNone) → s.root = p.waiting.head?.map (·.2)

theorem holds_sproutFrom (h : FollowsPath ps) (hes : ps.drop index = es.map (·.1.parent)) :
    (sproutFrom f ps.length index es).Holds (plantFrom f index es) index ps.length := by
  induction es generalizing index with
  | nil =>
    refine ⟨rfl, by simp [sproutFrom], ?_, fun _ => rfl⟩
    intro q _
    rw [sproutFrom, plantFrom, Array.getElem?_replicate]
    split <;> rfl
  | cons e rest ih =>
    obtain ⟨row, span⟩ := e
    obtain ⟨hparent, hlater⟩ := getElem?_of_drop hes
    have hbelow := ih hlater
    have hwaits := waits_plantFrom (f := f) h hlater
    have hown : ((sproutFrom f ps.length (index + 1) rest).children[index]?.getD []).reverse =
        ((plantFrom f (index + 1) rest).waiting.takeWhile (·.1 == some index)).map (·.2) := by
      rw [hbelow.children index (Nat.lt_succ_self index), List.reverse_reverse, (hwaits.split h).1]
    have hkeep : ∀ q < index, (sproutFrom f ps.length (index + 1) rest).children[q]?.getD [] =
        ((((plantFrom f (index + 1) rest).waiting.dropWhile (·.1 == some index)).filter
          (·.1 == some q)).map (·.2)).reverse := by
      intro q hq
      rw [hbelow.children q (Nat.lt_succ_of_lt hq), filter_dropWhile h hwaits hq]
    rw [sproutFrom, plantFrom, Sprouts.add, Planting.add, hown, hbelow.forest]
    cases hrow : row.parent with
    | none =>
      refine ⟨rfl, hbelow.size, fun q hq => ?_, fun _ => rfl⟩
      rw [hkeep q hq]
      rfl
    | some p =>
      have hp : p < (sproutFrom f ps.length (index + 1) rest).children.size := by
        rw [hbelow.size]
        have hlt := h.lt_of_standsIn (i := index) (hparent.trans (congrArg some hrow))
        have := (List.getElem?_eq_some_iff.mp hparent).1
        omega
      refine ⟨rfl, by simpa using hbelow.size, fun q hq => ?_, by simp⟩
      simp only [Array.getElem?_modify]
      by_cases hpq : p = q
      · subst hpq
        simp only [if_true, Array.getElem?_eq_getElem hp, Option.map_some, Option.getD_some]
        have hwaiting := hkeep p hq
        rw [Array.getElem?_eq_getElem hp, Option.getD_some] at hwaiting
        rw [hwaiting]
        simp
      · rw [if_neg hpq, hkeep q hq]
        simp [hpq]

theorem toTreeByTables_eq {d : Document} (h : FollowsPath (d.rows.map Row.parent)) :
    d.toTreeByTables = d.toTree := by
  have hes : (d.rows.map Row.parent).drop 0 = (d.rows.zip d.spans).map (·.1.parent) := by
    have hfst : (fun e : Row × Span => e.1.parent) = Row.parent ∘ Prod.fst := rfl
    rw [List.drop_zero, hfst, ← List.map_map, List.map_fst_zip (Nat.le_of_eq (length_spans d).symm)]
  have hholds := holds_sproutFrom (f := .empty) h hes
  rw [List.length_map] at hholds
  have hroot : (plantFrom .empty 0 (d.rows.zip d.spans)).waiting.head?.all (·.1.isNone) := by
    cases hzip : d.rows.zip d.spans with
    | nil => rfl
    | cons e rest =>
      have hfirst := h.1
      rw [← List.drop_zero (l := d.rows.map Row.parent), hes, hzip] at hfirst
      have hparent : e.1.parent = none := Option.some.inj hfirst
      simp [plantFrom, Planting.add, hparent]
  have hdraft : (plantFrom .empty 0 (d.rows.zip d.spans)).root =
      ((plantFrom .empty 0 (d.rows.zip d.spans)).waiting.head?.map (·.2)).getD
        (.foreign 0 .null) := by
    rw [Planting.root]
    split
    · next hnil => rw [hnil]; rfl
    · next hcons => rw [hcons]; rfl
  simp only [toTreeByTables, toTree, plant, spansByTables_eq h, hholds.forest, hholds.root hroot,
    hdraft]

end

end TreeLint.Document
