import Pipeline.Proofs.Phase
import Pipeline.Proofs.Twin

namespace Pipeline

namespace Graph

open Pipeline.Path Relation

variable {g rest : Graph} {e : End} {r s u v : String} {stops : List String}

theorem way_edgesWithout :
    Way (g.edgesWithout r) e u s ↔ Way g.edges e u s ∧ u ≠ r ∧ s ≠ r := by
  cases e with
  | source => exact mem_edgesWithout
  | sink => exact mem_edgesWithout.trans (and_congr_right fun _ => and_comm)

/-- The stages that keep a stage away from an end: its inputs, or its outputs. -/
def keepers (g : Graph) : End → String → List String
  | .source, s => g.inputs s
  | .sink, s => g.outputs s

theorem mem_keepers : u ∈ g.keepers e s ↔ Way g.edges e u s := by
  cases e with
  | source => exact mem_inputs
  | sink => exact mem_outputs

theorem Books.nodup_keepers (hb : g.Books) (e : End) (s : String) : (g.keepers e s).Nodup := by
  cases e with
  | source => exact hb.nodup_inputs s
  | sink => exact hb.nodup_outputs s

theorem Books.keepers_eq_singleton_iff (hb : g.Books) :
    g.keepers e s = [r] ↔ ∀ u, Way g.edges e u s ↔ u = r := by
  rw [← List.perm_singleton,
    List.perm_ext_iff_of_nodup (hb.nodup_keepers e s) (List.nodup_singleton r)]
  simp only [mem_keepers, List.mem_singleton]

theorem Books.mem_freed_iff_keepers (hb : g.Books) (hs : s ≠ r) :
    s ∈ g.freed r e ↔ g.keepers e s = [r] := by
  have hway : (∃ c ∈ g.edges, e.other.bars c = r ∧ e.bars c = s) ↔ Way g.edges e r s := by
    cases e with
    | source => exact ⟨fun ⟨c, hc, ht, hh⟩ => ht ▸ hh ▸ hc, fun h => ⟨_, h, rfl, rfl⟩⟩
    | sink => exact ⟨fun ⟨c, hc, hh, ht⟩ => ht ▸ hh ▸ hc, fun h => ⟨_, h, rfl, rfl⟩⟩
  rw [mem_freed, hway, free_iff, hb.keepers_eq_singleton_iff]
  simp only [way_edgesWithout, not_and, ne_eq, not_not]
  constructor
  · rintro ⟨hr, hothers⟩ u
    refine ⟨fun hu => ?_, fun hu => hu ▸ hr⟩
    by_contra hur
    exact hs (hothers u hu hur)
  · intro honly
    exact ⟨(honly r).2 rfl, fun u hu hur => absurd ((honly u).1 hu) hur⟩

theorem freed_other_of_free (h : Free g.edges e r) : g.freed r e.other = [] := by
  apply List.eq_nil_iff_forall_not_mem.2
  intro t ht
  obtain ⟨⟨c, hc, hcr, -⟩, -⟩ := mem_freed.1 ht
  cases e with
  | source => exact h c hc hcr
  | sink => exact h c hc hcr

theorem Without.mem_members (hw : g.Without r rest) (hb : g.Books) (hrest : rest.Books) :
    s ∈ (rest.frontier e).members ↔
      (s ∈ (g.frontier e).members ∧ s ≠ r) ∨ s ∈ g.freed r e ∧ s ≠ r := by
  rw [hrest.members, hb.members, hw.stages, hw.edges, List.mem_filter, decide_eq_true_eq]
  by_cases hs : s = r
  · simp [hs]
  · have hfreed : s ∈ g.freed r e → s ∈ g.stages := fun h => hb.freed_subset r e h
    rw [free_edgesWithout_iff hs]
    tauto

theorem Sound.remove_ends (hg : g.Sound) (hr : g.remove e = (some r, rest)) :
    g.Without r rest ∧ Free g.edges e r ∧
      (∀ s, s ∈ (rest.frontier e).members ↔
        (s ∈ (g.frontier e).members ∧ s ≠ r) ∨ g.keepers e s = [r]) ∧
      ∀ s, s ∈ (rest.frontier e.other).members ↔ s ∈ (g.frontier e.other).members ∧ s ≠ r := by
  obtain ⟨hmem, hw, hrest⟩ := hg.remove_some hr
  have hfree := ((hg.members e r).1 hmem).2
  refine ⟨hw, hfree, fun s => ?_, fun s => ?_⟩
  · rw [hw.mem_members hg.toBooks hrest.toBooks]
    refine or_congr_right ⟨fun ⟨hs, hsr⟩ => (hg.mem_freed_iff_keepers hsr).1 hs, fun hs => ?_⟩
    have hsr : s ≠ r := by
      rintro rfl
      exact free_iff.1 hfree s ((hg.keepers_eq_singleton_iff.1 hs s).2 rfl)
    exact ⟨(hg.mem_freed_iff_keepers hsr).2 hs, hsr⟩
  · -- A stage that is free at one end keeps none away from the other.
    rw [hw.mem_members hg.toBooks hrest.toBooks, freed_other_of_free hfree]
    simp

theorem Without.connections_eq (hw : g.Without r rest) : rest.connections =
    g.connections.filter fun c => c.tail ≠ r ∧ c.head ≠ r := by
  have hcomm : ∀ s, (g.edgesWithout r).filter (·.tail = s) =
      (g.edges.filter (·.tail = s)).filter fun c => c.tail ≠ r ∧ c.head ≠ r := by
    intro s
    rw [edgesWithout, List.filter_filter, List.filter_filter]
    exact List.filter_congr fun c _ => Bool.and_comm _ _
  have hgone : ((g.edges.filter (·.tail = r)).filter fun c => c.tail ≠ r ∧ c.head ≠ r) = [] := by
    simp +contextual
  rw [connections, connections, hw.stages, hw.edges, List.filter_flatMap]
  induction g.stages with
  | nil => rfl
  | cons s stages ih =>
    by_cases hs : s = r
    · rw [List.filter_cons_of_neg (by simpa using hs), List.flatMap_cons, hs, hgone, ih,
        List.nil_append]
    · rw [List.filter_cons_of_pos (by simpa using hs), List.flatMap_cons, List.flatMap_cons, ih,
        hcomm]

theorem notMem_reach_of_free (hfree : Free g.edges .source r) (hu : u ≠ r) :
    r ∉ g.reach u stops := by
  intro hr
  obtain he | ⟨x, -, hxr⟩ := ReflTransGen.cases_tail (mem_reach_iff.1 hr)
  · exact hu he.symm
  · exact free_source_iff.1 hfree x hxr.1

theorem Without.mem_reach (hw : g.Without r rest) (hfree : Free g.edges e r) (hu : u ≠ r) :
    v ∈ rest.reach u stops ↔ v ∈ g.reach u stops ∧ v ≠ r := by
  have hleads : ∀ {a b}, Leads rest.edges a b ↔ Leads g.edges a b ∧ a ≠ r ∧ b ≠ r :=
    hw.edges ▸ mem_edgesWithout
  rw [mem_reach_iff, mem_reach_iff]
  constructor
  · intro h
    induction h with
    | refl => exact ⟨.refl, hu⟩
    | tail _ hab ih =>
      obtain ⟨hab, hpass⟩ := hab
      exact ⟨ih.1.tail ⟨(hleads.1 hab).1, hpass⟩, (hleads.1 hab).2.2⟩
  · rintro ⟨h, hv⟩
    induction h with
    | refl => exact .refl
    | @tail a b hua hab ih =>
      obtain ⟨hab, hpass⟩ := hab
      -- No way goes through a stage that is free: nothing leads to it, or nothing leads on.
      have ha : a ≠ r := by
        rintro rfl
        cases e with
        | source => exact notMem_reach_of_free hfree hu (mem_reach_iff.2 hua)
        | sink => exact free_sink_iff.1 hfree b hab
      exact (ih ha).tail ⟨hleads.2 ⟨hab, ha, hv⟩, hpass⟩

end Graph

namespace Planner

open Pipeline.Path Pipeline.Graph Connection

variable {g h : Graph} {t : TieBreak} {items : List Value} {r u : String}
  {p : List String → List String → Prop}

theorem both_reachable_of_reach (hg : u ∈ g.stages) (hh : u ∈ h.stages)
    (hp : ∀ stops, p (h.reach u stops) (g.reach u stops)) (stops : Value) :
    Both p (reachable h (.text u) stops) (reachable g (.text u) stops) := by
  cases hs : stops.hashedItems with
  | error m =>
    simp only [reachable, stage?, hg, hh, if_true, hs]
    exact .error _
  | ok vs =>
    rw [reachable_of_hashed hh hs, reachable_of_hashed hg hs]
    exact .ok (hp _)

/-- After any calls, a removal takes a stage away with the connections that touch it, and nothing
else. At the end where it stood come in exactly the stages it was the only input or output of, at
the other end none does. What the stages that stay reach, up to any stops, is what they reached
when a source goes, and all of it but that stage when a sink goes. -/
theorem removal_frame {g₀ : Graph} (hg : ofItems t items = .ok g₀) (es : List Edit) :
    let g := g₀.run es
    (∀ r h, g.remove .source = (some r, h) →
      h.stages = g.stages.filter (· ≠ r) ∧
      h.connections = (g.connections.filter fun d => d.tail ≠ r ∧ d.head ≠ r) ∧
      (∀ s, s ∈ h.sources.members ↔ (s ∈ g.sources.members ∧ s ≠ r) ∨ g.inputs s = [r]) ∧
      (∀ s, s ∈ h.sinks.members ↔ s ∈ g.sinks.members ∧ s ≠ r) ∧
      ∀ u ∈ h.stages, ∀ stops, Both (fun l m => ∀ v, v ∈ l ↔ v ∈ m)
        (reachable h (.text u) stops) (reachable g (.text u) stops)) ∧
    ∀ k h, g.remove .sink = (some k, h) →
      h.stages = g.stages.filter (· ≠ k) ∧
      h.connections = (g.connections.filter fun d => d.tail ≠ k ∧ d.head ≠ k) ∧
      (∀ s, s ∈ h.sinks.members ↔ (s ∈ g.sinks.members ∧ s ≠ k) ∨ g.outputs s = [k]) ∧
      (∀ s, s ∈ h.sources.members ↔ s ∈ g.sources.members ∧ s ≠ k) ∧
      ∀ u ∈ h.stages, ∀ stops, Both (fun l m => ∀ v, v ∈ l ↔ v ∈ m ∧ v ≠ k)
        (reachable h (.text u) stops) (reachable g (.text u) stops) := by
  obtain ⟨cs, -, -, hvalid⟩ := valid_of_ofItems hg
  have hv := hvalid.run es
  generalize g₀.run es = g at hv
  have hstays : ∀ {r h}, g.Without r h → ∀ u ∈ h.stages, u ∈ g.stages ∧ u ≠ r := by
    intro r h hw u hu
    simpa [hw.stages] using hu
  refine ⟨fun r h hr => ?_, fun k h hr => ?_⟩
  · obtain ⟨hw, hfree, hsources, hsinks⟩ := hv.remove_ends hr
    refine ⟨hw.stages, hw.connections_eq, hsources, hsinks, fun u hu => ?_⟩
    obtain ⟨hug, hur⟩ := hstays hw u hu
    refine both_reachable_of_reach hug hu fun stops v => (hw.mem_reach hfree hur).trans ?_
    exact and_iff_left_of_imp fun hv he => notMem_reach_of_free hfree hur (he ▸ hv)
  · obtain ⟨hw, hfree, hsinks, hsources⟩ := hv.remove_ends hr
    refine ⟨hw.stages, hw.connections_eq, hsinks, hsources, fun u hu => ?_⟩
    obtain ⟨hug, huk⟩ := hstays hw u hu
    exact both_reachable_of_reach hug hu fun stops v => hw.mem_reach hfree huk

theorem removal_frame_both_ends :
    let g₀ := draw .insertion [⟨"a", "b"⟩, ⟨"b", "c"⟩, ⟨"d", "c"⟩, ⟨"c", "e"⟩]
    let g := g₀.run [.insert (.text "x") (.text "c")]
    ofItems .insertion [.tuple [.text "a", .text "b"], .list [.text "b", .text "c"],
        .tuple [.text "d", .text "c"], .tuple [.text "c", .text "e"]] = .ok g₀ ∧
      (∃ h, g.remove .source = (some "a", h) ∧ "b" ∈ h.sources.members ∧
        h.connections = [⟨"b", "x"⟩, ⟨"c", "e"⟩, ⟨"d", "x"⟩, ⟨"x", "c"⟩]) ∧
      ∃ k, g.remove .sink = (some "e", k) ∧ "c" ∈ k.sinks.members ∧
        ∃ l m, reachable k (.text "b") (.set [.text "a"]) = .ok l ∧
          reachable g (.text "b") (.set [.text "a"]) = .ok m ∧ "e" ∈ m ∧ "e" ∉ l ∧
            "c" ∈ l := by
  have hg : ofItems .insertion [.tuple [.text "a", .text "b"], .list [.text "b", .text "c"],
      .tuple [.text "d", .text "c"], .tuple [.text "c", .text "e"]] =
        .ok (draw .insertion [⟨"a", "b"⟩, ⟨"b", "c"⟩, ⟨"d", "c"⟩, ⟨"c", "e"⟩]) := by cbv
  have hframe := removal_frame hg [.insert (.text "x") (.text "c")]
  have hfound : reachable ((draw .insertion [⟨"a", "b"⟩, ⟨"b", "c"⟩, ⟨"d", "c"⟩,
      ⟨"c", "e"⟩]).run [.insert (.text "x") (.text "c")]) (.text "b") (.set [.text "a"]) =
        .ok ["e", "c", "x", "b"] := by cbv
  have hsource := Prod.ext (y := (some "a", (((draw .insertion [⟨"a", "b"⟩, ⟨"b", "c"⟩,
    ⟨"d", "c"⟩, ⟨"c", "e"⟩]).run [.insert (.text "x") (.text "c")]).remove .source).2))
      (by decide +kernel) rfl
  have hsink := Prod.ext (y := (some "e", (((draw .insertion [⟨"a", "b"⟩, ⟨"b", "c"⟩,
    ⟨"d", "c"⟩, ⟨"c", "e"⟩]).run [.insert (.text "x") (.text "c")]).remove .sink).2))
      (by decide +kernel) rfl
  obtain ⟨-, hconnections, hsources, -⟩ := hframe.1 _ _ hsource
  obtain ⟨-, -, hsinks, -, hreach⟩ := hframe.2 _ _ hsink
  refine ⟨hg, ⟨_, hsource, (hsources "b").2 (.inr (by decide +kernel)),
    hconnections.trans (by decide +kernel)⟩,
    ⟨_, hsink, (hsinks "c").2 (.inr (by decide +kernel)), ?_⟩⟩
  have hboth := hreach "b" (by decide +kernel) (.set [.text "a"])
  rw [hfound] at hboth
  generalize reachable _ (.text "b") (.set [.text "a"]) = found at hboth ⊢
  cases hboth with
  | ok hl =>
    rw [hfound]
    exact ⟨_, _, rfl, rfl, by simp, by simp [hl], by simp [hl]⟩

end Planner

end Pipeline
