import Pipeline.Proofs.UniqueRanks
import Pipeline.Proofs.StageRanks

namespace Pipeline.Graph

variable {g : Graph} {t : TieBreak} {s : String} {items : List Value}

theorem Seated.ascending (hg : g.Seated) (hn : g.stages.Nodup) :
    (g.stages.map g.rank).Pairwise (· < ·) := by
  rw [List.pairwise_map, List.pairwise_iff_getElem]
  intro i j hi hj hij
  apply (hg.agrees _ (List.getElem_mem hi) _ (List.getElem_mem hj)).2
  rw [hn.idxOf_getElem, hn.idxOf_getElem]
  exact hij

theorem Enrolled.lookup_eq (hg : g.Enrolled) (hs : s ∈ g.stages) :
    g.ranks.lookup s = some (g.rank s) := by
  obtain ⟨k, hk⟩ := hg.ranked s hs
  cases hl : g.ranks.lookup s with
  | none => simpa using List.lookup_eq_none_iff.1 hl _ hk
  | some j => rw [rank, hl, Option.getD_some]

theorem Rolled.name_eq_of_rank_eq (hg : g.Rolled) (ht : g.tieBreak = .insertion) {d e : End}
    {x y : Entry} (hx : x ∈ (g.frontier d).queue) (hy : y ∈ (g.frontier e).queue)
    (hxy : x.rank = y.rank) : x.name = y.name :=
  hg.name_eq (hg.queued ht d x hx) (hg.queued ht e y hy) hxy

/-- After any calls the stages, in the order in which they stand, have ascending ranks of their own
below the next one; each member of an end is queued there under its present entry; by order of
entry two entries of one rank, at one end or at both, name one stage; and an end yields nothing
exactly when it has no member. -/
theorem queues_cohere {g₀ : Graph} (hg : ofItems t items = .ok g₀) (es : List Edit) :
    let g := g₀.run es
    ((g.stages.map g.rank).Pairwise (· < ·) ∧
      ∀ s ∈ g.stages, g.ranks.lookup s = some (g.rank s) ∧ g.rank s < g.nextRank) ∧
    (∀ e, ∀ s ∈ (g.frontier e).members, g.entry s ∈ (g.frontier e).queue) ∧
    (t = .insertion → ∀ d e, ∀ x ∈ (g.frontier d).queue, ∀ y ∈ (g.frontier e).queue,
      x.rank = y.rank → x.name = y.name) ∧
    ∀ e, (g.frontier e).pop.1 = none ↔ (g.frontier e).members = [] := by
  obtain ⟨cs, -, hdraw, hvalid⟩ := valid_of_ofItems hg
  have hseated₀ : g₀.Seated := hdraw ▸ seated_draw t cs
  have hrolled₀ : g₀.Rolled := hdraw ▸ rolled_draw t cs
  have ht₀ : g₀.tieBreak = t := hdraw ▸ tieBreak_draw t cs
  have hv := hvalid.run es
  have hseated := seated_run hvalid hseated₀ es
  have hrolled := hrolled₀.run hvalid es
  have ht := (tieBreak_run g₀ es).trans ht₀
  dsimp only
  generalize g₀.run es = g at *
  refine ⟨⟨hseated.ascending hv.stages_nodup, fun s hs => ?_⟩, fun e => (hv.inOrder e).held,
    fun hins d e x hx y hy hxy => ?_, fun e => (hv.inOrder e).pop_eq_none_iff g.entry_name⟩
  · exact ⟨hrolled.lookup_eq hs, hseated.below s hs⟩
  · exact hrolled.name_eq_of_rank_eq (ht.trans hins) hx hy hxy

/-- A stage that left as a sink came back while its first entry still waits among the sources, and
now waits at both ends under one new rank. -/
theorem queues_cohere_recalled :
    let g₀ := draw .insertion [⟨"a", "c"⟩, ⟨"b", "c"⟩, ⟨"d", "c"⟩]
    let es := [.remove .sink, .remove .sink, .insert (.text "a") (.text "b"), .remove .sink]
    ofItems .insertion [.tuple [.text "a", .text "c"], .list [.text "b", .text "c"],
        .tuple [.text "d", .text "c"]] = .ok g₀ ∧
      (g₀.run es).sources.queue = [⟨0, "a"⟩, ⟨2, "b"⟩, ⟨3, "d"⟩, ⟨4, "a"⟩] ∧
      ⟨4, "a"⟩ ∈ (g₀.run es).sinks.queue ∧
      ∀ x ∈ (g₀.run es).sources.queue, x.rank = 4 → x.name = "a" := by
  have hg : ofItems .insertion [.tuple [.text "a", .text "c"], .list [.text "b", .text "c"],
      .tuple [.text "d", .text "c"]] =
        .ok (draw .insertion [⟨"a", "c"⟩, ⟨"b", "c"⟩, ⟨"d", "c"⟩]) := by cbv
  let es : List Edit :=
    [.remove .sink, .remove .sink, .insert (.text "a") (.text "b"), .remove .sink]
  have hmem : (⟨4, "a"⟩ : Entry) ∈
      ((draw .insertion [⟨"a", "c"⟩, ⟨"b", "c"⟩, ⟨"d", "c"⟩]).run es).sinks.queue := by
    decide +kernel
  refine ⟨hg, by decide +kernel, hmem, fun x hx hrank => ?_⟩
  exact (queues_cohere hg es).2.2.1 rfl .source .sink x hx ⟨4, "a"⟩ hmem hrank

end Pipeline.Graph
