import TreeLint.Proofs.Ledger

namespace TreeLint.Registry

theorem register_granted_of_registerEach {r : Registry} {rule : Rule} {kind : Kind}
    {before after : List Kind} (h : (r.registerEach rule (before ++ kind :: after)).2 = none) :
    ((r.registerEach rule before).1.register (.known kind) rule).2 = none := by
  induction before generalizing r with
  | nil =>
    rw [List.nil_append, registerEach] at h
    split at h
    · next r₁ hfirst => exact congrArg Prod.snd hfirst
    · simp at h
  | cons first rest ih =>
    rw [List.cons_append, registerEach] at h
    rw [registerEach]
    split at h
    · exact ih h
    · simp at h

variable {r : Registry} {l : Ledger} {rule : Rule}

theorem Reflects.registerRule_granted (h : r.Reflects l) (hrule : l.Admits Rule.definition rule)
    (hready : r.Ready rule) : (r.registerEach rule rule.kinds.toList).2 = none := by
  have hsettles := h.settles_registerRule hrule
  have hallowed : (Call.registerRule rule).Allowed l := by
    simpa only [Ready, Call.Allowed, h.contains_iff, not_exists, not_and] using hready
  rw [← registerRule_of_ready hready]
  exact hsettles.granted_iff.mpr hallowed

theorem Reflects.registerRule_granted_iff (h : r.Reflects l)
    (hrule : l.Admits Rule.definition rule) : (r.registerRule rule).2 = none ↔ r.Ready rule := by
  constructor
  · intro hgranted
    by_contra hnot
    obtain ⟨refusal, hcall⟩ := registerRule_of_not_ready hnot
    simp [hcall] at hgranted
  · intro hready
    rw [registerRule_of_ready hready]
    exact h.registerRule_granted hrule hready

theorem Reflects.run_refused (h : r.Reflects l) {c : Call} (hrule : l.Admits Rule.definition c.rule)
    (hrefused : (c.run r).2 ≠ none) : (c.run r).1 = r := by
  match c with
  | .register kind rule => exact eq_of_register_refused hrefused
  | .registerRule rule =>
    have hnot : ¬ r.Ready rule := fun hready =>
      hrefused ((h.registerRule_granted_iff hrule).mpr hready)
    obtain ⟨refusal, hcall⟩ := registerRule_of_not_ready hnot
    change (r.registerRule rule).1 = r
    rw [hcall]

theorem Reflects.rulesFor_registerRule (h : r.Reflects l) (hrule : l.Admits Rule.definition rule)
    (kind : Kind) :
    (r.registerRule rule).1.rulesFor kind =
      if (r.registerRule rule).2 = none ∧ rule.kinds.has kind then r.rulesFor kind ++ [rule]
      else r.rulesFor kind := by
  by_cases hgranted : (r.registerRule rule).2 = none
  · have hready := (h.registerRule_granted_iff hrule).mp hgranted
    have hcall : r.registerEach rule rule.kinds.toList = ((r.registerRule rule).1, none) :=
      (registerRule_of_ready hready).symm.trans (Prod.ext rfl hgranted)
    rw [(of_registerEach rule.kinds.nodup_toList hcall).1 kind]
    simp only [hgranted, true_and, KindSet.mem_toList]
  · have hrefused : (r.registerRule rule).1 = r :=
      h.run_refused (c := .registerRule rule) hrule hgranted
    rw [hrefused, if_neg fun hboth => hgranted hboth.1]

/--
A refused call leaves the very registry that it was made on. A call for all kinds of a rule is
refused only before it wires the rule anywhere: with its own checks passed, each wiring is granted.
-/
theorem refused_traceless (calls : List Call) (c : Call) (h : Consistent (c :: calls)) :
    let r := (empty.replay [] calls).1
    ((c.run r).2 ≠ none → (c.run r).1 = r) ∧
      ∀ rule, c = .registerRule rule →
        ((c.run r).2 = none ↔ r.Ready rule) ∧
        (r.Ready rule → ∀ before kind after, rule.kinds.toList = before ++ kind :: after →
          ((r.registerEach rule before).1.register (.known kind) rule).2 = none) ∧
        ∀ kind, (c.run r).1.rulesFor kind =
          if (c.run r).2 = none ∧ rule.kinds.has kind then r.rulesFor kind ++ [rule]
          else r.rulesFor kind := by
  intro r
  obtain ⟨hreflects, hrule⟩ := reflects_replay h
  refine ⟨hreflects.run_refused hrule, ?_⟩
  rintro rule rfl
  refine ⟨hreflects.registerRule_granted_iff hrule, ?_, hreflects.rulesFor_registerRule hrule⟩
  intro hready before kind after hkinds
  have hgranted : (r.registerEach rule rule.kinds.toList).2 = none :=
    hreflects.registerRule_granted hrule hready
  rw [hkinds] at hgranted
  exact register_granted_of_registerEach hgranted

theorem refused_traceless_half_wired :
    let notes : Rule := ⟨1, "A1", "notes", .ofList [.block, .modifier], [], "", .info, "c",
      fun _ _ => .abstain⟩
    let marks : Rule := ⟨2, "B2", "marks", .ofList [.block, .parameter], [], "", .info, "c",
      fun _ _ => .abstain⟩
    let calls : List Call := [.register (.known .block) notes]
    let r := (empty.replay [] calls).1
    Consistent (.registerRule notes :: calls) ∧ Consistent (.registerRule marks :: calls) ∧
      (r.registerRule notes).2 ≠ none ∧ (r.registerRule notes).1 = r ∧
      r.Ready marks ∧ marks.kinds.toList = [.block] ++ .parameter :: [] ∧
      ((r.registerEach marks [.block]).1.register (.known .parameter) marks).2 = none ∧
      (r.registerRule marks).1.rulesFor .parameter = [marks] := by
  intro notes marks calls r
  have hnotes : Consistent (.registerRule notes :: calls) := by
    simp [Consistent, calls, Call.rule]
  have hmarks : Consistent (.registerRule marks :: calls) := by
    simp [Consistent, calls, Call.rule, notes, marks]
  have hrefused : (r.registerRule notes).2 ≠ none := by
    rw [show (r.registerRule notes).2 = some (.twice "A1") from rfl]
    simp
  have hkinds : marks.kinds.toList = [.block] ++ .parameter :: [] := rfl
  have hready : r.Ready marks := ⟨by rw [hkinds]; simp, rfl, by decide⟩
  obtain ⟨-, hmarksCall⟩ := refused_traceless calls (.registerRule marks) hmarks
  obtain ⟨hgranted, hwired, htable⟩ := hmarksCall marks rfl
  refine ⟨hnotes, hmarks, hrefused, (refused_traceless calls _ hnotes).1 hrefused, hready, hkinds,
    hwired hready _ _ _ hkinds, ?_⟩
  have hparameter := htable .parameter
  rw [hgranted.mpr hready] at hparameter
  exact hparameter

end TreeLint.Registry
