import Pipeline.Proofs.Cut

namespace Pipeline

namespace Graph

open Pipeline.Path

variable {g rest : Graph} {s u v : String} {seen l m : List String}

/-- A stage is put off: another one runs while it could run as well, all its inputs being done. -/
def PutsOff (g : Graph) (l : List String) (u v : String) : Prop :=
  [u, v].Sublist l ∧ ∀ p ∈ g.inputs v, [p, u].Sublist l

instance (g : Graph) (l : List String) (u v : String) : Decidable (g.PutsOff l u v) :=
  inferInstanceAs (Decidable (_ ∧ _))

theorem pair_sublist_cons_iff :
    [u, v].Sublist (s :: l) ↔ u = s ∧ v ∈ l ∨ [u, v].Sublist l := by
  constructor
  · intro h
    cases h with
    | cons _ h => exact .inr h
    | cons_cons _ h => exact .inl ⟨rfl, List.singleton_sublist.1 h⟩
  · rintro (⟨rfl, hv⟩ | h)
    · exact (List.singleton_sublist.2 hv).cons_cons u
    · exact h.cons s

theorem putsOff_cons_iff (hw : g.Without s rest) (hs : s ∉ l) :
    g.PutsOff (s :: l) u v ↔ (u = s ∧ v ∈ l ∧ g.inputs v = []) ∨ rest.PutsOff l u v := by
  have hinput : ∀ {p}, p ∈ rest.inputs v ↔ p ∈ g.inputs v ∧ p ≠ s ∧ v ≠ s := by
    intro p
    rw [mem_inputs, mem_inputs, hw.edges, mem_edgesWithout]
  have hself : ∀ p, ¬[p, s].Sublist (s :: l) := by
    intro p h
    obtain ⟨-, h⟩ | h := pair_sublist_cons_iff.1 h
    · exact hs h
    · exact hs (h.subset (by simp))
  simp only [PutsOff]
  constructor
  · rintro ⟨huv, hbefore⟩
    obtain ⟨rfl, hv⟩ | huv := pair_sublist_cons_iff.1 huv
    · exact .inl ⟨rfl, hv, List.eq_nil_iff_forall_not_mem.2 fun p hp => hself p (hbefore p hp)⟩
    · refine .inr ⟨huv, fun p hp => ?_⟩
      obtain ⟨hp, hps, -⟩ := hinput.1 hp
      exact (pair_sublist_cons_iff.1 (hbefore p hp)).resolve_left fun h => hps h.1
  · rintro (⟨rfl, hv, hnone⟩ | ⟨huv, hbefore⟩)
    · exact ⟨pair_sublist_cons_iff.2 (.inl ⟨rfl, hv⟩), by simp [hnone]⟩
    · refine ⟨huv.cons s, fun p hp => pair_sublist_cons_iff.2 ?_⟩
      by_cases hps : p = s
      · exact .inl ⟨hps, huv.subset (by simp)⟩
      · have hvs : v ≠ s := fun he => hs (he ▸ huv.subset (by simp))
        exact .inr (hbefore p (hinput.2 ⟨hp, hps, hvs⟩))

theorem eq_of_entry_le (h : (g.entry u).le (g.entry v)) (h' : (g.entry v).le (g.entry u)) :
    u = v := by
  rw [Entry.le_iff, entry_name, entry_name] at h h'
  obtain hlt | ⟨heq, hle⟩ := h <;> obtain hlt' | ⟨heq', hle'⟩ := h'
  · omega
  · omega
  · omega
  · exact String.le_antisymm hle hle'

/-- Of all orders the one found is the one that puts no stage off for one with a later entry. -/
theorem Settled.drain_eq_iff (h : Settled seen g) (hv : g.Valid) (hm : IsOrder g m) :
    (g.drain .source).1 = m ↔ ∀ u v, g.PutsOff m u v → (g.entry u).le (g.entry v) := by
  induction g using Graph.drain.induct .source generalizing m with
  | case1 g rest hr =>
    have hnil := (hv.members_eq_nil_iff .source).1 (hv.remove_none hr).1
    have hmnil : m = [] := by
      simpa only [List.eq_nil_iff_forall_not_mem, hm.mem_iff] using hnil
    rw [drain_of_none hr, hmnil]
    simp [PutsOff]
  | case2 g s rest hr ih =>
    obtain ⟨hs, hw, -⟩ := hv.remove_some hr
    have hrest : rest.Valid := by simpa only [hr] using hv.remove .source
    have hsettled : Settled seen rest := by simpa only [hr] using h.remove hv.toBooks .source
    have hfirst := (h.remove_le hv.toSound (by rw [hr])).2
    obtain ⟨hstage, hfree⟩ := (hv.members .source s).1 hs
    rw [drain_of_some hr]
    cases m with
    | nil => exact absurd ((hm.mem_iff s).2 hstage) List.not_mem_nil
    | cons a m =>
      have hsource : ∀ {x}, x ∈ a :: m → g.inputs x = [] → (g.entry s).le (g.entry x) :=
        fun hx hnone => hfirst _ ((hv.members .source _).2
          ⟨(hm.mem_iff _).1 hx, free_source_iff_inputs.2 hnone⟩)
      by_cases hsa : s = a
      · subst hsa
        have hsm := (List.nodup_cons.1 hm.nodup).1
        rw [List.cons.injEq, and_iff_right rfl, ih hsettled hrest (hm.tail hw)]
        simp only [putsOff_cons_iff hw hsm, hw.entry]
        refine ⟨fun hlater u v => ?_, fun hall u v huv => hall u v (.inr huv)⟩
        rintro (⟨rfl, hvm, hnone⟩ | huv)
        · exact hsource (List.mem_cons_of_mem _ hvm) hnone
        · exact hlater u v huv
      · -- The source found is put off for the one that the order begins with.
        have hsm : s ∈ m :=
          (List.mem_cons.1 ((hm.mem_iff s).2 hstage)).resolve_left hsa
        have hput : g.PutsOff (a :: m) a s := by
          refine ⟨pair_sublist_cons_iff.2 (.inl ⟨rfl, hsm⟩), ?_⟩
          simp [free_source_iff_inputs.1 hfree]
        have hle := hsource List.mem_cons_self (free_source_iff_inputs.1 hm.head_free)
        refine iff_of_false (fun he => hsa (List.cons.inj he).1) fun hall => ?_
        exact hsa (eq_of_entry_le hle (hall a s hput))

/-- The graph drawn anew of its connections, grouped by their tails. -/
def regrouped (g : Graph) : Graph := draw g.tieBreak g.connections

theorem Valid.subset_eq_regrouped (hv : g.Valid) (hs : s ∈ g.stages) (hne : g.edges ≠ [])
    (hall : ∀ u ∈ g.stages, u ∈ g.reach s []) :
    g.subset s [] = .ok g.regrouped ∧ Alike g.regrouped g := by
  have hb := hv.toBooks
  have hinduced : g.induced (g.reach s []) = g.connections := by
    refine List.filter_eq_self.2 fun d hd => ?_
    have hends := hv.joined d (hb.mem_connections_iff.1 hd)
    simpa using And.intro (hall _ hends.1) (hall _ hends.2)
  obtain ⟨d, hd⟩ := List.exists_mem_of_ne_nil _ hne
  have hdc := hb.mem_connections_iff.2 hd
  have hmade : g.induced (g.reach s []) ≠ [] := hinduced ▸ List.ne_nil_of_mem hdc
  have hcut : Cut g s (g.reach s []) (draw g.tieBreak (g.induced (g.reach s []))) :=
    hv.cut_draw (mt hb.induced_reach_eq_nil_iff.2 hmade)
  have hok := hv.subset_eq_ok hmade
  rw [hinduced] at hcut hok
  refine ⟨hok, hcut.tieBreak, fun u => (hcut.stages u).trans ⟨fun hu => ?_, hall u⟩, fun e => ?_⟩
  · exact hb.mem_stages_of_mem_reach hs hu
  · rw [regrouped, (drawn_draw _ _).mem_edges, hb.mem_connections_iff]

theorem Alike.putsOff_iff {h : Graph} (ha : Alike g h) :
    g.PutsOff l u v ↔ h.PutsOff l u v := by
  simp only [PutsOff, mem_inputs, ha.edges]

theorem Valid.drain_regrouped_eq_iff (hv : g.Valid) (ha : Alike g.regrouped g) :
    (g.regrouped.drain .source).1 = (g.drain .source).1 ↔
      ∀ u v, g.PutsOff (g.drain .source).1 u v →
        g.tieBreak.Ahead (endpoints g.connections) u v := by
  have hvalid : g.regrouped.Valid :=
    ⟨sound_draw _ _, mt ha.cyclic_iff.1 hv.acyclic⟩
  have horder : IsOrder g.regrouped (g.drain .source).1 := ha.symm.isOrder (isOrder_drain hv)
  have hdated : Dated (endpoints g.connections) g.regrouped := dated_draw _ _
  have hsettled : Settled (endpoints g.connections) g.regrouped := settled_draw _ _
  rw [hsettled.drain_eq_iff hvalid horder]
  refine forall₂_congr fun u v => ?_
  rw [ha.putsOff_iff]
  refine imp_congr_right fun huv => ?_
  have hknown : ∀ x ∈ [u, v], x ∈ endpoints g.connections := fun x hx =>
    hsettled.known x ((horder.mem_iff x).1 (huv.1.subset hx))
  rw [hdated.entry_le_iff (hknown u (by simp)) (hknown v (by simp)), ha.tieBreak]

end Graph

namespace Planner

open Pipeline.Graph Pipeline.Path Connection

variable {g : Graph} {t : TieBreak} {items : List Value} {s : String} {names : List String}

theorem hashedItems_nil : (Value.tuple []).hashedItems = .ok [] := rfl

theorem exists_of_reachable (h : reachable g (.text s) (.tuple []) = .ok names) :
    s ∈ g.stages ∧ names = g.reach s [] := by
  by_cases hs : s ∈ g.stages
  · rw [reachable_of_hashed hs hashedItems_nil, Except.ok.injEq] at h
    exact ⟨hs, h.symm⟩
  · simp [reachable, stage?, hs] at h

/-- A graph of which a stage reaches everything is the same graph when it is cut out from there.
By name it keeps its order. By place it keeps it exactly when the order puts no stage off for one
that is named later in the connections, grouped by their tails as they are handed over. -/
theorem subset_whole (hg : ofItems t items = .ok g)
    (hfrom : reachable g (.text s) (.tuple []) = .ok names) (hall : ∀ u ∈ g.stages, u ∈ names) :
    ∃ sub l m, Makes g s (.tuple []) sub ∧ sub.same g = true ∧ sub.tieBreak = g.tieBreak ∧
      g.linearize = .ok l ∧ sub.linearize = .ok m ∧ (t = .lexicographic → m = l) ∧
      (m = l ↔ ∀ u v, g.PutsOff l u v → t.Ahead (endpoints g.connections) u v) := by
  obtain ⟨cs, -, hdraw, hv⟩ := valid_of_ofItems hg
  have ht : g.tieBreak = t := hdraw ▸ tieBreak_draw t cs
  have hsettled : Settled (endpoints cs) g := hdraw ▸ settled_draw t cs
  have hd : Drawn cs g := hdraw ▸ drawn_draw t cs
  obtain ⟨hs, rfl⟩ := exists_of_reachable hfrom
  have hne : g.edges ≠ [] := by
    obtain ⟨d, hdc, -⟩ := mem_endpoints.1 ((hd.mem_stages s).1 hs)
    exact List.ne_nil_of_mem ((hd.mem_edges d).2 hdc)
  obtain ⟨hmade, ha⟩ := hv.subset_eq_regrouped hs hne hall
  have hvalid : g.regrouped.Valid := ⟨sound_draw _ _, mt ha.cyclic_iff.1 hv.acyclic⟩
  have hl := linearize_eq_ok hv.toSound hv.acyclic
  have hm := linearize_eq_ok hvalid.toSound hvalid.acyclic
  refine ⟨g.regrouped, _, _, makes_of_subset hs hashedItems_nil hmade,
    ha.same hvalid.toBooks hv.toBooks, ha.tieBreak, hl, hm, fun htl => ?_,
    ht ▸ hv.drain_regrouped_eq_iff ha⟩
  have hsame := ha.linearize_eq (ha.tieBreak.trans (ht.trans htl)) hvalid hv (settled_draw _ _)
    hsettled
  rwa [hl, hm, Except.ok.injEq] at hsame

theorem subset_whole_interleaved :
    let g := draw .insertion [⟨"s", "b"⟩, ⟨"b", "d"⟩, ⟨"s", "a"⟩, ⟨"a", "d"⟩]
    ofItems .insertion [.tuple [.text "s", .text "b"], .list [.text "b", .text "d"],
        .tuple [.text "s", .text "a"], .tuple [.text "a", .text "d"]] = .ok g ∧
      reachable g (.text "s") (.tuple []) = .ok ["d", "b", "a", "s"] ∧
      (∀ u ∈ g.stages, u ∈ ["d", "b", "a", "s"]) ∧
      g.stages ≠ (endpoints g.connections).eraseDups ∧
      ∃ sub l, (subset ⟨.json, 10, 1, []⟩ "" g (.text "s") (.tuple [])).result = .ok sub ∧
        sub.same g = true ∧ g.linearize = .ok l ∧ sub.linearize = .ok l := by
  have hg : ofItems .insertion [.tuple [.text "s", .text "b"], .list [.text "b", .text "d"],
      .tuple [.text "s", .text "a"], .tuple [.text "a", .text "d"]] =
        .ok (draw .insertion [⟨"s", "b"⟩, ⟨"b", "d"⟩, ⟨"s", "a"⟩, ⟨"a", "d"⟩]) := by cbv
  have hfrom : reachable (draw .insertion [⟨"s", "b"⟩, ⟨"b", "d"⟩, ⟨"s", "a"⟩, ⟨"a", "d"⟩])
      (.text "s") (.tuple []) = .ok ["d", "b", "a", "s"] := by cbv
  have hall : ∀ u ∈ (draw .insertion [⟨"s", "b"⟩, ⟨"b", "d"⟩, ⟨"s", "a"⟩, ⟨"a", "d"⟩]).stages,
      u ∈ ["d", "b", "a", "s"] := by decide +kernel
  obtain ⟨sub, l, m, hmakes, hsame, -, hl, hm, -, hiff⟩ := subset_whole hg hfrom hall
  have hsub := (hmakes ⟨.json, 10, 1, []⟩ "").1 (recorded_of_context rfl "" "s" sub)
  have horder : (draw .insertion [⟨"s", "b"⟩, ⟨"b", "d"⟩, ⟨"s", "a"⟩, ⟨"a", "d"⟩]).linearize =
      .ok ["s", "b", "a", "d"] := by cbv
  rw [horder, Except.ok.injEq] at hl
  subst hl
  have hkept : ∀ u ∈ ["s", "b", "a", "d"], ∀ v ∈ ["s", "b", "a", "d"],
      (draw .insertion [⟨"s", "b"⟩, ⟨"b", "d"⟩, ⟨"s", "a"⟩, ⟨"a", "d"⟩]).PutsOff
        ["s", "b", "a", "d"] u v → TieBreak.insertion.Ahead (endpoints
          (draw .insertion [⟨"s", "b"⟩, ⟨"b", "d"⟩, ⟨"s", "a"⟩, ⟨"a", "d"⟩]).connections) u v := by
    decide +kernel
  have hml := hiff.2 fun u v huv =>
    hkept u (huv.1.subset (by simp)) v (huv.1.subset (by simp)) huv
  exact ⟨hg, hfrom, hall, by decide +kernel, sub, _, hsub, hsame, horder, hml ▸ hm⟩

/-- Cut out as a whole, a graph may change its order by place: one output of the first stage is
named in front of what the other leads to. -/
theorem subset_whole_reordered :
    let g := draw .insertion [⟨"s", "a"⟩, ⟨"a", "c"⟩, ⟨"s", "b"⟩]
    ofItems .insertion [.tuple [.text "s", .text "a"], .tuple [.text "a", .text "c"],
        .tuple [.text "s", .text "b"]] = .ok g ∧
      reachable g (.text "s") (.tuple []) = .ok ["c", "a", "b", "s"] ∧
      (∀ u ∈ g.stages, u ∈ ["c", "a", "b", "s"]) ∧
      ∃ sub, (subset ⟨.json, 10, 1, []⟩ "" g (.text "s") (.tuple [])).result = .ok sub ∧
        g.linearize = .ok ["s", "a", "c", "b"] ∧ sub.linearize = .ok ["s", "a", "b", "c"] := by
  have hmade : (draw .insertion [⟨"s", "a"⟩, ⟨"a", "c"⟩, ⟨"s", "b"⟩]).subset "s" [] =
      .ok (draw .insertion [⟨"s", "a"⟩, ⟨"s", "b"⟩, ⟨"a", "c"⟩]) := by cbv
  have hstage : "s" ∈ (draw .insertion [⟨"s", "a"⟩, ⟨"a", "c"⟩, ⟨"s", "b"⟩]).stages := by
    decide +kernel
  have hsub := (makes_of_subset hstage hashedItems_nil hmade ⟨.json, 10, 1, []⟩ "").1
    (recorded_of_context rfl "" "s" _)
  exact ⟨by cbv, by cbv, by decide +kernel, _, hsub, by cbv, by cbv⟩

end Planner

end Pipeline
