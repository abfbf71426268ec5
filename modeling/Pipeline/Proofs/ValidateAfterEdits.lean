import Pipeline.Proofs.StageRanks

namespace Pipeline.Graph

open Pipeline.Path Relation Connection

variable {g : Graph} {t : TieBreak} {s u : String} {cs : List Connection} {items : List Value}

theorem mem_stages_of_eqvGen (hb : g.Books) (h : EqvGen (Leads g.edges) s u) :
    s ∈ g.stages ↔ u ∈ g.stages := by
  induction h with
  | rel a b hab => exact iff_of_true (hb.joined _ hab).1 (hb.joined _ hab).2
  | refl a => exact Iff.rfl
  | symm a b _ ih => exact ih.symm
  | trans a b c _ _ ihab ihbc => exact ihab.trans ihbc

inductive Finds (g : Graph) : Except GraphError Unit → Prop
  | nothing (h : g.stages = []) : Finds g (.error (.noSource []))
  | whole (hne : g.stages ≠ []) (h : Connected g.stages g.edges) : Finds g (.ok ())
  | part (first : String) (names : List String) (h : ¬Connected g.stages g.edges)
      (hfirst : g.tieBreak.First g.stages (· ∈ g.sources.members) first)
      (hnames : ∀ x, x ∈ names ↔ x ∈ g.stages ∧ EqvGen (Leads g.edges) first x) :
      Finds g (.error (.island names))

theorem Valid.finds (hv : g.Valid) (hg : g.Seated) : g.Finds g.validate := by
  have hsub : ∀ s ∈ g.sources.members, s ∈ g.stages := fun s hs => ((hv.members .source s).1 hs).1
  obtain ⟨hs, hval⟩ | ⟨hs, ⟨hk, -⟩ | ⟨hk, ⟨hc, -⟩ | ⟨-, hval⟩⟩⟩ := validate_cases hv.toSound
  · rw [hval, (cycleReport_eq_nil_iff hv.toSound).2 hv.acyclic]
    exact .nothing ((hv.members_eq_nil_iff .source).1 hs)
  · -- An end without members means that no stage is left, so both ends have none.
    have hnil := (hv.members_eq_nil_iff .sink).1 hk
    exact absurd ((hv.members_eq_nil_iff .source).2 hnil) hs
  · exact absurd hc hv.acyclic
  · rw [hval]
    have hne : g.stages ≠ [] := mt (hv.members_eq_nil_iff .source).2 hs
    obtain ⟨hl, hi⟩ | ⟨hl, first, island, hhead, hmem, -, hi⟩ :=
      checkIslands_cases hv.toSound hv.acyclic
    · rw [hi]
      exact .whole hne hl
    · have hfirst := (head?_ordered_eq_some_iff hg.toDated hsub).1 hhead
      have hstage := hsub first hfirst.1
      rw [hi]
      refine .part first _ hl hfirst fun x => ?_
      rw [sortedNames, List.mem_mergeSort, hmem]
      exact (and_iff_right_of_imp fun hx => (mem_stages_of_eqvGen hv.toBooks hx).1 hstage).symm

theorem Valid.validate_eq_ok_iff (hv : g.Valid) (hg : g.Seated) :
    g.validate = .ok () ↔ g.stages ≠ [] ∧ Connected g.stages g.edges := by
  have hfinds := hv.finds hg
  generalize g.validate = r at hfinds
  cases hfinds with
  | nothing h => simp [h]
  | whole hne h => simp [hne, h]
  | part first names h => simp [h]

/-- Edited or not, and whether or not it was checked before, a graph drawn without a cycle passes
exactly when it has a stage and all its stages hang together. If they do not, the finding names
all that hangs together with the first source, and if no stage is left it names none. -/
theorem validate_after_edits {g₀ : Graph}
    (hg : ofItems t items = .ok g₀ ∨
      ∃ cs, cs ≠ [] ∧ List.Forall₂ Denotes items cs ∧ ¬Cyclic cs ∧ g₀ = draw t cs)
    (es : List Edit) :
    let g := g₀.run es
    (g.validate = .ok () ↔ g.stages ≠ [] ∧ Connected g.stages g.edges) ∧
      ((∃ names, g.validate = .error (.island names)) ↔
        ∃ s ∈ g.stages, ∃ u ∈ g.stages, ¬EqvGen (Leads g.edges) s u) ∧
      (∀ names, g.validate = .error (.island names) →
        ∃ first, t.First g.stages (· ∈ g.sources.members) first ∧
          ∀ x, x ∈ names ↔ x ∈ g.stages ∧ EqvGen (Leads g.edges) first x) ∧
      (g.validate = .error (.noSource []) ↔ g.stages = []) ∧
      ∀ e, g.validate = .error e → e = .noSource [] ∨ e.kind = .island := by
  have hdrawn : ∃ cs, g₀ = draw t cs ∧ g₀.Valid := by
    obtain hg | ⟨cs, -, -, ha, rfl⟩ := hg
    · obtain ⟨cs, -, hdraw, hv⟩ := valid_of_ofItems hg
      exact ⟨cs, hdraw, hv⟩
    · exact ⟨cs, rfl, valid_draw t ha⟩
  obtain ⟨cs, hdraw, hv₀⟩ := hdrawn
  have hv := hv₀.run es
  have hseated := seated_run hv₀ (hdraw ▸ seated_draw t cs) es
  have ht : (g₀.run es).tieBreak = t := (tieBreak_run g₀ es).trans (hdraw ▸ tieBreak_draw t cs)
  dsimp only
  generalize g₀.run es = g at hv hseated ht
  have hsplit : (∃ s ∈ g.stages, ∃ u ∈ g.stages, ¬EqvGen (Leads g.edges) s u) ↔
      ¬Connected g.stages g.edges := by
    simp [Connected]
  have hfinds := hv.finds hseated
  rw [hsplit, ← ht]
  generalize g.validate = r at hfinds
  cases hfinds with
  | nothing h => simp [h, Connected]
  | whole hne h => simp [hne, h]
  | part first names h hfirst hnames =>
    have hne : g.stages ≠ [] := fun hnil => h (by simp [hnil, Connected])
    refine ⟨by simp [h], iff_of_true ⟨names, rfl⟩ h, ?_, by simp [hne], ?_⟩
    · rintro _ ⟨⟩
      exact ⟨first, hfirst, hnames⟩
    · rintro _ ⟨⟩
      exact .inr rfl

/-- Two parts before any check and after a stage was spliced in: the source that sits first is
`a`, since `x` came last. -/
theorem validate_after_edits_split :
    let cs := [⟨"b", "c"⟩, ⟨"a", "c"⟩, ⟨"d", "e"⟩]
    let g := (draw .insertion cs).run [.insert (.text "x") (.text "b"), .remove .sink]
    List.Forall₂ Denotes [.tuple [.text "b", .text "c"], .list [.text "a", .text "c"],
        .connection (.text "d") (.text "e")] cs ∧ ¬Cyclic cs ∧
      g.validate = .error (.island ["a"]) ∧
      ∃ first, TieBreak.insertion.First g.stages (· ∈ g.sources.members) first ∧
        ∀ x, x ∈ ["a"] ↔ x ∈ g.stages ∧ EqvGen (Leads g.edges) first x := by
  have hitems : List.Forall₂ Denotes [.tuple [.text "b", .text "c"],
      .list [.text "a", .text "c"], .connection (.text "d") (.text "e")]
        [⟨"b", "c"⟩, ⟨"a", "c"⟩, ⟨"d", "e"⟩] := by
    simp [Denotes, parts?, Value.items?]
  have ha : ¬Cyclic [⟨"b", "c"⟩, ⟨"a", "c"⟩, ⟨"d", "e"⟩] := by
    rw [← (drawn_draw .insertion _).cyclic_iff, ← cycleReport_eq_nil_iff (sound_draw _ _)]
    cbv
  have hval : ((draw .insertion [⟨"b", "c"⟩, ⟨"a", "c"⟩, ⟨"d", "e"⟩]).run
      [.insert (.text "x") (.text "b"), .remove .sink]).validate = .error (.island ["a"]) := by
    cbv
  exact ⟨hitems, ha, hval,
    (validate_after_edits (.inr ⟨_, by simp, hitems, ha, rfl⟩) _).2.2.1 _ hval⟩

end Pipeline.Graph
