import Pipeline.Proofs.ValidateAfterEdits

namespace Pipeline.Path

open Relation

theorem eqvGen_map {r q : String → String → Prop} {f : String → String} {s t : String}
    (hf : ∀ a b, r a b → EqvGen q (f a) (f b)) (h : EqvGen r s t) : EqvGen q (f s) (f t) := by
  induction h with
  | rel a b hab => exact hf a b hab
  | refl a => exact .refl _
  | symm a b _ ih => exact ih.symm
  | trans a b c _ _ ihab ihbc => exact ihab.trans _ _ _ ihbc

end Pipeline.Path

namespace Pipeline.Graph

open Pipeline.Path Relation Connection

variable {g : Graph} {t : TieBreak} {items : List Value} {name target u v : String}

def detour (name target : String) (c : Connection) : Connection :=
  if c.head = target then ⟨c.tail, name⟩ else c

theorem splicedEdges_perm (g : Graph) (name target : String) :
    (g.splicedEdges name target).Perm (⟨name, target⟩ :: g.edges.map (detour name target)) := by
  have hkept : (g.edges.filter (·.head ≠ target)).map (detour name target) =
      g.edges.filter (·.head ≠ target) := by
    refine List.map_congr_left (g := id) (fun c hc => ?_) |>.trans (List.map_id _)
    exact if_neg (by simpa using (List.mem_filter.1 hc).2)
  have hmoved : (g.edges.filter fun c => !decide (c.head ≠ target)).map (detour name target) =
      (g.inputs target).map fun s => ⟨s, name⟩ := by
    rw [inputs, List.map_map]
    simp only [decide_not, Bool.not_not]
    exact List.map_congr_left fun c hc => if_pos (by simpa using (List.mem_filter.1 hc).2)
  have hsplit := (List.filter_append_perm (fun c => decide (c.head ≠ target)) g.edges).map
    (detour name target)
  rw [List.map_append, hkept, hmoved] at hsplit
  exact List.perm_append_singleton _ _ |>.trans (hsplit.cons _)

theorem Books.connections_perm (hb : g.Books) : g.connections.Perm g.edges :=
  (List.perm_ext_iff_of_nodup hb.nodup_connections hb.edges_nodup).2 fun _ =>
    hb.mem_connections_iff

theorem leads_splice_name (hb : g.Books) (hn : name ∉ g.stages) (ht : target ∈ g.stages) :
    Leads (g.splicedEdges name target) u name ↔ Leads g.edges u target := by
  refine mem_splicedEdges.trans ⟨?_, fun hu => .inr (.inl ⟨hu, rfl⟩)⟩
  rintro (⟨hc, -⟩ | ⟨hc, -⟩ | hc)
  · exact absurd rfl (hb.not_touched hn hc).2
  · exact hc
  · exact absurd ht ((Connection.mk.inj hc).2 ▸ hn)

theorem leads_splice (g : Graph) (name target : String) :
    Leads (g.splicedEdges name target) name target :=
  mem_splicedEdges.2 (.inr (.inr rfl))

theorem mem_sinks_splice (hb : g.Books) (hn : name ∉ g.stages) (ht : target ∈ g.stages) :
    u ∈ (g.splice name target).sinks.members ↔ u ∈ g.sinks.members := by
  have hnew := (hb.splice hn ht).members .sink u
  have hold := hb.members .sink u
  refine hnew.trans (Iff.trans ?_ hold.symm)
  show u ∈ (g.splice name target).stages ∧ Free (g.splicedEdges name target) .sink u ↔ _
  rw [mem_stages_splice]
  by_cases hun : u = name
  · subst hun
    refine iff_of_false (fun h => ?_) fun h => hn h.1
    exact free_sink_iff.1 h.2 _ (leads_splice g u target)
  · rw [free_splicedEdges hun (by simp)]
    simp [hun]

theorem mem_sources_splice (hb : g.Books) (hn : name ∉ g.stages) (ht : target ∈ g.stages) :
    u ∈ (g.splice name target).sources.members ↔
      (u ∈ g.sources.members ∧ u ≠ target) ∨ (u = name ∧ target ∈ g.sources.members) := by
  have hnew := (hb.splice hn ht).members .source u
  have hold : ∀ s, s ∈ g.sources.members ↔ s ∈ g.stages ∧ Free g.edges .source s :=
    hb.members .source
  have htn : target ≠ name := fun he => hn (he ▸ ht)
  refine hnew.trans ?_
  show u ∈ (g.splice name target).stages ∧ Free (g.splicedEdges name target) .source u ↔ _
  rw [mem_stages_splice, hold, hold]
  by_cases hun : u = name
  · subst hun
    simp [hn, ht, free_source_iff, leads_splice_name hb hn ht]
  · by_cases hut : u = target
    · subst hut
      refine iff_of_false (fun h => ?_) (by simp [hun])
      exact free_source_iff.1 h.2 _ (leads_splice g name u)
    · rw [free_splicedEdges hun fun _ => hut]
      simp [hun, hut]

/-- A way of before goes through the new stage wherever it went into the old one. -/
theorem reaches_splice (h : ReflTransGen (Leads g.edges) u v) :
    ReflTransGen (Leads (g.splicedEdges name target)) u v := by
  induction h with
  | refl => exact .refl
  | @tail a b _ hab ih =>
    by_cases hb : b = target
    · subst hb
      have hmoved : Leads (g.splicedEdges name b) a name :=
        mem_splicedEdges.2 (.inr (.inl ⟨hab, rfl⟩))
      exact (ih.tail hmoved).tail (leads_splice g name b)
    · exact ih.tail (mem_splicedEdges.2 (.inl ⟨hab, hb⟩))

theorem reaches_splice_iff (hb : g.Books) (hn : name ∉ g.stages) (ht : target ∈ g.stages)
    (hu : u ∈ g.stages) (hv : v ∈ g.stages) :
    ReflTransGen (Leads (g.splicedEdges name target)) u v ↔ ReflTransGen (Leads g.edges) u v := by
  have hun : u ≠ name := fun he => hn (he ▸ hu)
  have hvn : v ≠ name := fun he => hn (he ▸ hv)
  refine ⟨fun h => ?_, reaches_splice⟩
  obtain rfl | h := reflTransGen_iff_eq_or_transGen.1 h
  · exact .refl
  · obtain h | ⟨he, -⟩ := transGen_of_splice hb hn ht h
    · rw [if_neg hun, if_neg hvn] at h
      exact h.to_reflTransGen
    · exact absurd he hun

theorem name_reaches_splice_iff (hb : g.Books) (hn : name ∉ g.stages) (ht : target ∈ g.stages) :
    ReflTransGen (Leads (g.splicedEdges name target)) name v ↔
      v = name ∨ ReflTransGen (Leads g.edges) target v := by
  constructor
  · intro h
    obtain rfl | h := reflTransGen_iff_eq_or_transGen.1 h
    · exact .inl rfl
    · by_cases hvn : v = name
      · exact .inl hvn
      · right
        obtain h | ⟨-, rfl⟩ := transGen_of_splice hb hn ht h
        · rw [if_pos rfl, if_neg hvn] at h
          exact h.to_reflTransGen
        · exact .refl
  · rintro (rfl | h)
    · exact .refl
    · exact .head (leads_splice g name target) (reaches_splice h)

theorem reaches_splice_name_iff (hv : g.Valid) (hn : name ∉ g.stages) (ht : target ∈ g.stages) :
    ReflTransGen (Leads (g.splicedEdges name target)) u name ↔
      u = name ∨ u ∈ g.stages ∧ u ≠ target ∧ ReflTransGen (Leads g.edges) u target := by
  have htn : target ≠ name := fun he => hn (he ▸ ht)
  constructor
  · intro h
    obtain rfl | h := reflTransGen_iff_eq_or_transGen.1 h
    · exact .inl rfl
    · by_cases hun : u = name
      · exact .inl hun
      · right
        obtain h | ⟨-, he⟩ := transGen_of_splice hv.toBooks hn ht h
        · rw [if_neg hun, if_pos rfl] at h
          obtain ⟨w, huw, -⟩ := TransGen.head'_iff.1 h
          refine ⟨(hv.joined _ huw).1, ?_, h.to_reflTransGen⟩
          rintro rfl
          exact hv.acyclic ⟨u, h⟩
        · exact absurd he.symm htn
  · rintro (rfl | ⟨-, hut, h⟩)
    · exact .refl
    · obtain he | h := reflTransGen_iff_eq_or_transGen.1 h
      · exact absurd he.symm hut
      · obtain ⟨w, huw, hwt⟩ := TransGen.tail'_iff.1 h
        exact (reaches_splice huw).tail ((leads_splice_name hv.toBooks hn ht).2 hwt)

theorem connected_splice_iff (hb : g.Books) (hn : name ∉ g.stages) (ht : target ∈ g.stages) :
    Connected (g.splice name target).stages (g.splice name target).edges ↔
      Connected g.stages g.edges := by
  have hne : ∀ {s}, s ∈ g.stages → s ≠ name := fun hs he => hn (he ▸ hs)
  constructor
  · intro h a ha b hb'
    have hab := h a (mem_stages_splice.2 (.inl ha)) b (mem_stages_splice.2 (.inl hb'))
    -- Seen from before the new stage is the old one.
    have hback := eqvGen_map (q := Leads g.edges) (f := fun s => if s = name then target else s)
      (fun x y hxy => ?_) hab
    · simpa only [if_neg (hne ha), if_neg (hne hb')] using hback
    · obtain ⟨rfl, rfl⟩ | hxy := leads_of_splice hb hn hxy
      · simpa only [if_pos, if_neg (hne ht)] using EqvGen.refl y
      · exact .rel _ _ hxy
  · intro h
    have hnear : ∀ s ∈ (g.splice name target).stages, ∃ x ∈ g.stages,
        EqvGen (Leads (g.splicedEdges name target)) s x := by
      intro s hs
      obtain hs | rfl := mem_stages_splice.1 hs
      · exact ⟨s, hs, .refl s⟩
      · exact ⟨target, ht, .rel _ _ (leads_splice g s target)⟩
    intro a ha b hb'
    obtain ⟨x, hx, hax⟩ := hnear a ha
    obtain ⟨y, hy, hby⟩ := hnear b hb'
    have hxy := eqvGen_map (q := Leads (g.splicedEdges name target)) (f := id)
      (fun c d hcd => eqvGen_of_reflTransGen (reaches_splice (.single hcd))) (h x hx y hy)
    exact hax.trans _ _ _ (hxy.trans _ _ _ hby.symm)

/-- A stage spliced into a graph of any history changes nothing of the plan but its own place: the
connections into the old stage lead to the new one and one leads on from there, the sinks stay, the
new stage stands for the old one among the sources, old stages reach each other as before, the new
one reaches what the old one reaches and is reached from what reached it, and the check passes as
before. -/
theorem insert_keeps_plan {g₀ : Graph} (hg : ofItems t items = .ok g₀) (es : List Edit)
    (hname : name ≠ "") (hn : name ∉ (g₀.run es).stages) (ht : target ∈ (g₀.run es).stages) :
    let g := g₀.run es
    ∃ h, g.insert (.text name) (.text target) = .ok h ∧
      (∀ c time, (Planner.insert c time g (.text name) (.text target)).1 = h) ∧
      (∀ u, u ∈ h.stages ↔ u ∈ g.stages ∨ u = name) ∧
      h.connections.Perm (⟨name, target⟩ :: g.connections.map (detour name target)) ∧
      (∀ u, u ∈ h.sinks.members ↔ u ∈ g.sinks.members) ∧
      (∀ u, u ∈ h.sources.members ↔
        (u ∈ g.sources.members ∧ u ≠ target) ∨ (u = name ∧ target ∈ g.sources.members)) ∧
      (∀ u ∈ g.stages, ∀ v ∈ g.stages, v ∈ h.reach u [] ↔ v ∈ g.reach u []) ∧
      (∀ v, v ∈ h.reach name [] ↔ v = name ∨ v ∈ g.reach target []) ∧
      (∀ u, name ∈ h.reach u [] ↔ u = name ∨ u ∈ g.stages ∧ u ≠ target ∧ target ∈ g.reach u []) ∧
      (h.validate = .ok () ↔ g.validate = .ok ()) := by
  obtain ⟨cs, -, hdraw, hvalid⟩ := valid_of_ofItems hg
  have hv := hvalid.run es
  have hseated := seated_run hvalid (hdraw ▸ seated_draw t cs) es
  dsimp only
  generalize g₀.run es = g at hv hseated hn ht
  have hb := hv.toBooks
  have hi : g.insert (.text name) (.text target) = .ok (g.splice name target) :=
    insert_eq_ok_iff.2 ⟨name, target, rfl, rfl, hname, hn, ht, rfl⟩
  refine ⟨_, hi, fun c time => ?_, fun u => mem_stages_splice, ?_,
    fun u => mem_sinks_splice hb hn ht, fun u => mem_sources_splice hb hn ht,
    fun u hu v hv => ?_, fun v => ?_, fun u => ?_, ?_⟩
  · rw [fst_planner_insert, edit, hi]
  · have hmoved := (hb.connections_perm.map (detour name target)).symm.cons ⟨name, target⟩
    exact ((hb.splice hn ht).connections_perm.trans (splicedEdges_perm g name target)).trans hmoved
  · rw [mem_reach_nil, mem_reach_nil]
    exact reaches_splice_iff hb hn ht hu hv
  · rw [mem_reach_nil, mem_reach_nil]
    exact name_reaches_splice_iff hb hn ht
  · rw [mem_reach_nil, mem_reach_nil]
    exact reaches_splice_name_iff hv hn ht
  · have hstages : (g.splice name target).stages ≠ [] :=
      List.ne_nil_of_mem (mem_stages_splice.2 (.inr rfl))
    rw [(hv.splice hn ht).validate_eq_ok_iff (hseated.enter hn rfl rfl rfl),
      hv.validate_eq_ok_iff hseated, connected_splice_iff hb hn ht]
    simp [hstages, List.ne_nil_of_mem ht]

theorem insert_keeps_plan_alone :
    let g₀ := draw .insertion [⟨"a", "c"⟩, ⟨"b", "c"⟩, ⟨"c", "d"⟩]
    let g := g₀.run [.remove .sink, .remove .sink]
    ofItems .insertion [.tuple [.text "a", .text "c"], .list [.text "b", .text "c"],
        .connection (.text "c") (.text "d")] = .ok g₀ ∧
      "b" ∈ g.sources.members ∧ "b" ∈ g.sinks.members ∧
      ∃ h, g.insert (.text "x") (.text "b") = .ok h ∧ "b" ∈ h.sinks.members ∧
        "b" ∉ h.sources.members ∧ "x" ∈ h.sources.members ∧
        h.connections.Perm [⟨"x", "b"⟩] ∧ (∀ v, v ∈ h.reach "x" [] ↔ v = "x" ∨ v = "b") ∧
        h.validate ≠ .ok () := by
  have hg : ofItems .insertion [.tuple [.text "a", .text "c"], .list [.text "b", .text "c"],
      .connection (.text "c") (.text "d")] =
        .ok (draw .insertion [⟨"a", "c"⟩, ⟨"b", "c"⟩, ⟨"c", "d"⟩]) := by cbv
  have hnew : "x" ∉ ((draw .insertion [⟨"a", "c"⟩, ⟨"b", "c"⟩, ⟨"c", "d"⟩]).run
      [.remove .sink, .remove .sink]).stages := by
    decide +kernel
  have hold : "b" ∈ ((draw .insertion [⟨"a", "c"⟩, ⟨"b", "c"⟩, ⟨"c", "d"⟩]).run
      [.remove .sink, .remove .sink]).stages := by
    decide +kernel
  have hsource : "b" ∈ ((draw .insertion [⟨"a", "c"⟩, ⟨"b", "c"⟩, ⟨"c", "d"⟩]).run
      [.remove .sink, .remove .sink]).sources.members := by
    decide +kernel
  have hsink : "b" ∈ ((draw .insertion [⟨"a", "c"⟩, ⟨"b", "c"⟩, ⟨"c", "d"⟩]).run
      [.remove .sink, .remove .sink]).sinks.members := by
    decide +kernel
  have hedges : ((draw .insertion [⟨"a", "c"⟩, ⟨"b", "c"⟩, ⟨"c", "d"⟩]).run
      [.remove .sink, .remove .sink]).connections = [] := by
    decide +kernel
  have hreach : ((draw .insertion [⟨"a", "c"⟩, ⟨"b", "c"⟩, ⟨"c", "d"⟩]).run
      [.remove .sink, .remove .sink]).reach "b" [] = ["b"] := by
    cbv
  have hsplit : ((draw .insertion [⟨"a", "c"⟩, ⟨"b", "c"⟩, ⟨"c", "d"⟩]).run
      [.remove .sink, .remove .sink]).validate = .error (.island ["a"]) := by
    cbv
  obtain ⟨h, hi, -, -, hperm, hsinks, hsources, -, hfrom, -, hval⟩ :=
    insert_keeps_plan hg _ (by decide) hnew hold
  rw [hedges] at hperm
  rw [hsplit] at hval
  simp only [hreach, List.mem_singleton] at hfrom
  refine ⟨hg, hsource, hsink, h, hi, (hsinks "b").2 hsink, fun hb => ?_,
    (hsources "x").2 (.inr ⟨rfl, hsource⟩), hperm, hfrom, fun hok => ?_⟩
  · simpa using (hsources "b").1 hb
  · cases hval.1 hok

end Pipeline.Graph
