import Pipeline.Graph.Order
import Pipeline.Proofs.Books
import Pipeline.Proofs.Reach

namespace Pipeline.Graph

open Pipeline.Path Relation

variable {g rest : Graph} {e : End} {s : String} {l : List String}

theorem drain_of_none (hr : g.remove e = (none, rest)) : g.drain e = ([], rest) := by
  rw [drain]
  split <;> simp_all

theorem drain_of_some (hr : g.remove e = (some s, rest)) :
    g.drain e = (s :: (rest.drain e).1, (rest.drain e).2) := by
  rw [drain]
  split <;> simp_all

/-- A graph before and after it was drained of a list of stages from one end. -/
structure Drained (g : Graph) (e : End) (l : List String) (rest : Graph) : Prop where
  nodup : l.Nodup
  mem_iff : ∀ s, s ∈ g.stages ↔ s ∈ l ∨ s ∈ rest.stages
  gone : ∀ s ∈ l, s ∉ rest.stages
  edges : ∀ c, c ∈ rest.edges ↔ c ∈ g.edges ∧ c.tail ∉ l ∧ c.head ∉ l
  ranks : rest.ranks = g.ranks
  tieBreak : rest.tieBreak = g.tieBreak
  sound : rest.Sound
  members : (rest.frontier e).members = []
  cyclic : Cyclic g.edges → Cyclic rest.edges

theorem Drained.of_none (hg : g.Sound) (hr : g.remove e = (none, rest)) :
    Drained g e [] rest := by
  have hsound : rest.Sound := by simpa only [hr] using hg.remove e
  obtain ⟨hm, rfl⟩ := hg.remove_none hr
  refine ⟨.nil, by simp, by simp, by simp, by simp, by simp, hsound, ?_, by simp⟩
  simp [frontier_withFrontier, Frontier.empty]

theorem Drained.cons (hg : g.Sound) {final : Graph} (hr : g.remove e = (some s, rest))
    (h : Drained rest e l final) : Drained g e (s :: l) final := by
  obtain ⟨hs, hw, -⟩ := hg.remove_some hr
  obtain ⟨hstage, hfree⟩ := (hg.members e s).1 hs
  have hrest : ∀ {t}, t ∈ rest.stages ↔ t ∈ g.stages ∧ t ≠ s := by
    intro t
    simp [hw.stages]
  have hsrest : s ∉ rest.stages := fun h => (hrest.1 h).2 rfl
  refine ⟨?_, fun t => ?_, fun t ht => ?_, fun c => ?_, h.ranks.trans hw.ranks,
    h.tieBreak.trans hw.tieBreak, h.sound, h.members, fun hc => ?_⟩
  · exact List.nodup_cons.2 ⟨fun hsl => hsrest ((h.mem_iff s).2 (.inl hsl)), h.nodup⟩
  · rw [List.mem_cons, or_assoc, ← h.mem_iff, hrest]
    by_cases ht : t = s <;> simp [ht, hstage]
  · obtain rfl | ht := List.mem_cons.1 ht
    · exact fun hf => hsrest ((h.mem_iff t).2 (.inr hf))
    · exact h.gone t ht
  · rw [h.edges, hw.edges, mem_edgesWithout]
    simp only [List.mem_cons, not_or]
    tauto
  · refine h.cyclic (hc.of_free hfree fun c hc htail hhead => ?_)
    rw [hw.edges]
    exact mem_edgesWithout.2 ⟨hc, htail, hhead⟩

theorem Sound.drained (hg : g.Sound) (e : End) : Drained g e (g.drain e).1 (g.drain e).2 := by
  induction g using Graph.drain.induct e with
  | case1 g rest hr =>
    rw [drain_of_none hr]
    exact .of_none hg hr
  | case2 g s rest hr ih =>
    rw [drain_of_some hr]
    exact .cons hg hr (ih (hg.remove_some hr).2.2)

theorem Drained.edges_subset (h : Drained g e l rest) : rest.edges ⊆ g.edges :=
  fun c hc => ((h.edges c).1 hc).1

theorem Drained.cyclic_iff (h : Drained g e l rest) : Cyclic g.edges ↔ Cyclic rest.edges :=
  ⟨h.cyclic, .mono h.edges_subset⟩

theorem Drained.stages_eq_nil (h : Drained g e l rest) (ha : ¬Cyclic g.edges) :
    rest.stages = [] := by
  apply List.eq_nil_iff_forall_not_mem.2
  intro s hs
  obtain ⟨t, ht, hfree⟩ := exists_free e (mt h.cyclic_iff.2 ha) h.sound.joined hs
  have hmem := (h.sound.members e t).2 ⟨ht, hfree⟩
  rw [h.members] at hmem
  exact List.not_mem_nil hmem

theorem Drained.edges_eq_nil_iff (h : Drained g e l rest) :
    rest.edges = [] ↔ ¬Cyclic g.edges := by
  constructor
  · intro hnil hc
    obtain ⟨s, hs⟩ := h.cyclic hc
    obtain ⟨t, hst, -⟩ := TransGen.head'_iff.1 hs
    rw [Leads, hnil] at hst
    exact List.not_mem_nil hst
  · intro ha
    apply List.eq_nil_iff_forall_not_mem.2
    intro c hc
    have htail := (h.sound.joined c hc).1
    rw [h.stages_eq_nil ha] at htail
    exact List.not_mem_nil htail

theorem mem_ordered {names : List String} : s ∈ g.ordered names ↔ s ∈ names := by
  simp [ordered]

theorem cycleStart?_eq_none_iff (hg : g.Sound) : g.cycleStart? = none ↔ ¬Cyclic g.edges := by
  have h := hg.drained .source
  rw [← h.edges_eq_nil_iff]
  unfold cycleStart?
  dsimp only
  split
  · rename_i hnil
    simp [hnil]
  · rename_i hne
    have hcore := h.sound.drained .sink
    -- The core keeps a cycle, and a stage of that cycle keeps an output.
    obtain ⟨s, hs⟩ := hcore.cyclic (h.cyclic (not_not.1 (mt h.edges_eq_nil_iff.2 hne)))
    obtain ⟨t, hst, -⟩ := TransGen.head'_iff.1 hs
    have hout : s ∈ ((g.drain .source).2.drain .sink).2.stages.filter
        ((g.drain .source).2.drain .sink).2.hasOutput := by
      refine List.mem_filter.2 ⟨(hcore.sound.joined _ hst).1, ?_⟩
      exact List.any_eq_true.2 ⟨_, hst, by simp⟩
    rw [List.head?_eq_none_iff]
    refine ⟨fun hnil => ?_, fun hnil => absurd hnil hne⟩
    have hmem := (mem_ordered (g := g)).2 hout
    rw [hnil] at hmem
    exact absurd hmem List.not_mem_nil

theorem cycleReport_eq_nil_iff (hg : g.Sound) : g.cycleReport = [] ↔ ¬Cyclic g.edges := by
  rw [← cycleStart?_eq_none_iff hg]
  unfold cycleReport
  split
  · rename_i hnone
    simp [hnone]
  · rename_i s hsome
    simp only [hsome, reduceCtorEq, iff_false]
    intro hnil
    have hmem : s ∈ sortedNames (g.reach s []) := by
      rw [sortedNames, List.mem_mergeSort]
      exact mem_reach_nil.2 .refl
    rw [hnil] at hmem
    exact List.not_mem_nil hmem

theorem linearize_of_nil (h : g.cycleReport = []) : g.linearize = .ok (g.drain .source).1 := by
  rw [linearize, h]

theorem linearize_of_ne_nil (h : g.cycleReport ≠ []) :
    g.linearize = .error (.cycle g.cycleReport) := by
  unfold linearize
  split
  · rename_i hnil
    exact absurd hnil h
  · rfl

theorem linearize_eq_ok (hg : g.Sound) (ha : ¬Cyclic g.edges) :
    g.linearize = .ok (g.drain .source).1 :=
  linearize_of_nil ((cycleReport_eq_nil_iff hg).2 ha)

theorem linearize_eq_error (hg : g.Sound) (hc : Cyclic g.edges) :
    g.linearize = .error (.cycle g.cycleReport) :=
  linearize_of_ne_nil fun hnil => (cycleReport_eq_nil_iff hg).1 hnil hc

end Pipeline.Graph
