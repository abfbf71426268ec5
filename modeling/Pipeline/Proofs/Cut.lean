import Pipeline.Proofs.Alike
import Pipeline.Proofs.Phase
import Pipeline.Proofs.Record

namespace Pipeline

namespace Graph

open Pipeline.Path Relation

variable {g sub : Graph} {s t u v : String} {stops names reached : List String} {d : Connection}

/-- A part of a graph that begins at one stage: some stages, and whatever connects them. -/
structure Cut (g : Graph) (s : String) (reached : List String) (sub : Graph) : Prop where
  tieBreak : sub.tieBreak = g.tieBreak
  stages : ∀ v, v ∈ sub.stages ↔ v ∈ reached
  connections : ∀ d, d ∈ sub.connections ↔ d ∈ g.connections ∧ d.tail ∈ reached ∧ d.head ∈ reached
  sources : ∀ v, v ∈ sub.sources.members ↔ v = s
  sinks : ∀ v, v ∈ sub.sinks.members ↔ v ∈ reached ∧ ∀ u ∈ g.outputs v, u ∉ reached

theorem mem_reach_self (g : Graph) (s : String) (stops : List String) : s ∈ g.reach s stops :=
  mem_reach_iff.2 .refl

theorem mem_reach_of_output (h : t ∈ g.outputs s) : t ∈ g.reach s stops :=
  mem_reach_iff.2 (.single ⟨mem_outputs.1 h, .inl rfl⟩)

theorem Books.mem_stages_of_mem_reach (hb : g.Books) (hs : s ∈ g.stages)
    (hv : v ∈ g.reach s stops) : v ∈ g.stages := by
  have hway : ReflTransGen (Way g.edges .source) s v :=
    ReflTransGen.mono (fun _ _ h => h.1) _ _ (mem_reach_iff.1 hv)
  exact (mem_of_reflTransGen_way hb.joined hway).1 hs

theorem exists_leads_of_mem_reach (hv : v ∈ g.reach s stops) (hne : v ≠ s) :
    ∃ u ∈ g.reach s stops, Leads g.edges u v := by
  obtain rfl | ⟨u, hu, huv⟩ := ReflTransGen.cases_tail (mem_reach_iff.1 hv)
  · exact absurd rfl hne
  · exact ⟨u, mem_reach_iff.2 hu, huv.1⟩

theorem Valid.not_leads_start (hg : g.Valid) (hu : u ∈ g.reach s stops) : ¬Leads g.edges u s := by
  intro hus
  have hway : ReflTransGen (Leads g.edges) s u :=
    ReflTransGen.mono (fun _ _ h => h.1) _ _ (mem_reach_iff.1 hu)
  exact hg.acyclic ⟨s, .tail' hway hus⟩

theorem Books.induced_reach_eq_nil_iff (hb : g.Books) :
    g.induced (g.reach s stops) = [] ↔ g.outputs s = [] := by
  simp only [List.eq_nil_iff_forall_not_mem, hb.mem_induced]
  constructor
  · intro hnone t ht
    exact hnone ⟨s, t⟩ ⟨mem_outputs.1 ht, mem_reach_self g s stops, mem_reach_of_output ht⟩
  · rintro hnone c ⟨hc, htail, -⟩
    -- Without an output only the stage itself is reached.
    have hlone : c.tail = s := by
      obtain rfl | ⟨t, hst, -⟩ := ReflTransGen.cases_head (mem_reach_iff.1 htail)
      · rfl
      · exact absurd (mem_outputs.2 hst.1) (hnone t)
    exact hnone c.head (mem_outputs.2 (hlone ▸ hc))

theorem Books.mem_endpoints_induced (hb : g.Books) (hout : g.outputs s ≠ []) :
    v ∈ endpoints (g.induced (g.reach s stops)) ↔ v ∈ g.reach s stops := by
  rw [mem_endpoints]
  simp only [hb.mem_induced]
  constructor
  · rintro ⟨c, ⟨-, htail, hhead⟩, rfl | rfl⟩
    · exact htail
    · exact hhead
  · intro hv
    by_cases hvs : v = s
    · subst hvs
      obtain ⟨t, ht⟩ := List.exists_mem_of_ne_nil _ hout
      exact ⟨⟨v, t⟩, ⟨mem_outputs.1 ht, hv, mem_reach_of_output ht⟩, .inl rfl⟩
    · obtain ⟨u, hu, huv⟩ := exists_leads_of_mem_reach hv hvs
      exact ⟨⟨u, v⟩, ⟨huv, hu, hv⟩, .inr rfl⟩

theorem Valid.cut_draw (hg : g.Valid) (hout : g.outputs s ≠ []) :
    Cut g s (g.reach s stops) (draw g.tieBreak (g.induced (g.reach s stops))) := by
  have hb := hg.toBooks
  have hd := drawn_draw g.tieBreak (g.induced (g.reach s stops))
  have hsub := (sound_draw g.tieBreak (g.induced (g.reach s stops))).toBooks
  have hstages : ∀ v, v ∈ (draw g.tieBreak (g.induced (g.reach s stops))).stages ↔
      v ∈ g.reach s stops := fun v => (hd.mem_stages v).trans (hb.mem_endpoints_induced hout)
  have hleads : ∀ u v, Leads (draw g.tieBreak (g.induced (g.reach s stops))).edges u v ↔
      Leads g.edges u v ∧ u ∈ g.reach s stops ∧ v ∈ g.reach s stops :=
    fun u v => (hd.mem_edges ⟨u, v⟩).trans hb.mem_induced
  refine ⟨tieBreak_draw _ _, hstages, fun d => ?_, fun v => ?_, fun v => ?_⟩
  · rw [mem_connections_draw, hb.mem_induced, hb.mem_connections_iff]
  · refine (hsub.members .source v).trans ?_
    simp only [hstages, free_source_iff, hleads]
    constructor
    · rintro ⟨hv, hfree⟩
      by_contra hvs
      obtain ⟨u, hu, huv⟩ := exists_leads_of_mem_reach hv hvs
      exact hfree u ⟨huv, hu, hv⟩
    · rintro rfl
      exact ⟨mem_reach_self g v stops, fun u ⟨huv, hu, _⟩ => hg.not_leads_start hu huv⟩
  · refine (hsub.members .sink v).trans ?_
    simp only [hstages, free_sink_iff, hleads]
    refine and_congr_right fun hv => ⟨fun hfree u hu hur => ?_, fun hfree u ⟨hvu, _, hur⟩ => ?_⟩
    · exact hfree u ⟨mem_outputs.1 hu, hv, hur⟩
    · exact hfree u (mem_outputs.2 hvu) hur

/-- A cut can be made exactly where the first stage has an output, and then passes every check. -/
theorem Valid.subset_cases (hg : g.Valid) (s : String) (stops : List String) :
    (g.outputs s = [] ∧ g.subset s stops = .error .noConnections) ∨
      g.outputs s ≠ [] ∧ ∃ sub, g.subset s stops = .ok sub ∧ sub.Valid ∧
        Cut g s (g.reach s stops) sub := by
  have hnil : g.induced (g.reach s stops) = [] ↔ g.outputs s = [] :=
    hg.toBooks.induced_reach_eq_nil_iff
  by_cases hout : g.outputs s = []
  · refine .inl ⟨hout, ?_⟩
    unfold subset ofConnections
    rw [if_pos (hnil.2 hout)]
  · have hsub : g.induced (g.reach s stops) ⊆ g.edges :=
      fun _ hc => (hg.toBooks.mem_induced.1 hc).1
    exact .inr ⟨hout, _, hg.subset_eq_ok (mt hnil.1 hout),
      valid_draw _ (mt (Cyclic.mono hsub) hg.acyclic), hg.cut_draw hout⟩

variable (hc : Cut g s (g.reach s stops) sub)

include hc

theorem Cut.leads_iff (hg : g.Books) (hsub : sub.Books) :
    Leads sub.edges u v ↔
      Leads g.edges u v ∧ u ∈ g.reach s stops ∧ v ∈ g.reach s stops := by
  have hcon := hc.connections ⟨u, v⟩
  rwa [hsub.mem_connections_iff, hg.mem_connections_iff] at hcon

theorem Cut.reach_within (hg : g.Books) (hsub : sub.Books) (ht : t ∈ g.reach s stops)
    (hpass : t = s ∨ t ∉ stops) (hv : v ∈ g.reach t stops) :
    v ∈ sub.reach t stops ∧ v ∈ g.reach s stops := by
  have hstep : ∀ a b, a ∈ g.reach s stops → Passes g.edges t stops a b →
      b ∈ g.reach s stops ∧ Passes sub.edges t stops a b := by
    rintro a b ha ⟨hab, hat⟩
    have has : a = s ∨ a ∉ stops := by
      obtain rfl | hat := hat
      · exact hpass
      · exact .inr hat
    have hb : b ∈ g.reach s stops := mem_reach_iff.2 ((mem_reach_iff.1 ha).tail ⟨hab, has⟩)
    exact ⟨hb, (hc.leads_iff hg hsub).2 ⟨hab, ha, hb⟩, hat⟩
  have hway := reflTransGen_within hstep (mem_reach_iff.1 hv) ht
  exact ⟨mem_reach_iff.2 hway.1, hway.2⟩

theorem Cut.mem_reach_iff (hg : g.Books) (hsub : sub.Books) (ht : t ∈ g.reach s stops)
    (hpass : t = s ∨ t ∉ stops) : v ∈ sub.reach t stops ↔ v ∈ g.reach t stops := by
  refine ⟨fun hv => ?_, fun hv => (hc.reach_within hg hsub ht hpass hv).1⟩
  have hstep : ∀ a b, Passes sub.edges t stops a b → Passes g.edges t stops a b :=
    fun a b hab => ⟨((hc.leads_iff hg hsub).1 hab.1).1, hab.2⟩
  exact Graph.mem_reach_iff.2 (ReflTransGen.mono hstep _ _ (Graph.mem_reach_iff.1 hv))

theorem Cut.mem_induced_iff (hg : g.Books) (hsub : sub.Books) (ht : t ∈ g.reach s stops)
    (hpass : t = s ∨ t ∉ stops) :
    d ∈ sub.induced (sub.reach t stops) ↔ d ∈ g.induced (g.reach t stops) := by
  simp only [hg.mem_induced, hsub.mem_induced, hc.mem_reach_iff hg hsub ht hpass]
  refine and_congr_left fun ⟨htail, hhead⟩ => ?_
  have hboth := And.intro (hc.reach_within hg hsub ht hpass htail).2
    (hc.reach_within hg hsub ht hpass hhead).2
  exact (hc.leads_iff hg hsub).trans (and_iff_left hboth)

theorem Cut.subset_cases (hg : g.Valid) (hsub : sub.Valid) (ht : t ∈ g.reach s stops)
    (hpass : t = s ∨ t ∉ stops) :
    (∃ k h, sub.subset t stops = .ok k ∧ g.subset t stops = .ok h ∧ k.same h = true) ∨
      sub.subset t stops = .error .noConnections ∧ g.subset t stops = .error .noConnections := by
  have hinduced : ∀ d, d ∈ sub.induced (sub.reach t stops) ↔ d ∈ g.induced (g.reach t stops) :=
    fun d => hc.mem_induced_iff hg.toBooks hsub.toBooks ht hpass
  by_cases hnil : g.induced (g.reach t stops) = []
  · have hnil' : sub.induced (sub.reach t stops) = [] := by
      simpa only [List.eq_nil_iff_forall_not_mem, hinduced] using hnil
    refine .inr ⟨?_, ?_⟩
    · rw [subset, hnil']
      rfl
    · rw [subset, hnil]
      rfl
  · have hnil' : sub.induced (sub.reach t stops) ≠ [] := by
      simpa only [ne_eq, List.eq_nil_iff_forall_not_mem, hinduced] using hnil
    have hsame := (alike_draw g.tieBreak hinduced).same (sound_draw _ _).toBooks
      (sound_draw _ _).toBooks
    refine .inl ⟨_, _, hsub.subset_eq_ok hnil', hg.subset_eq_ok hnil, ?_⟩
    rw [hc.tieBreak]
    exact hsame

end Graph

namespace Planner

open Pipeline.Graph Connection

variable {c : Log.Config} {time s : String} {g sub : Graph} {t : TieBreak}
  {items vs : List Value} {stops : Value}

def extracted (c : Log.Config) (time s : String) (sub : Graph) : Answer Unit :=
  note c time "Extracted stage sub-graph"
    [("start", .text s), ("stages", count sub.stages.length)]

/-- Both records of a cut can be made. -/
def Recorded (c : Log.Config) (time s : String) (sub : Graph) : Prop :=
  (passed c time sub).result = .ok () ∧ (extracted c time s sub).result = .ok ()

theorem recorded_of_context (h : c.context = []) (time s : String) (sub : Graph) :
    Recorded c time s sub := by
  have hplain : ∀ {r : Except Failure Unit}, Yields c r () → r = .ok () :=
    fun hr => hr.resolve_right fun hbad => hbad.1 h
  exact ⟨hplain (yields_passed c time sub), hplain (yields_extracted c time s _)⟩

/-- What a cut makes under whatever is logged. It comes to nothing only by a record that cannot be
made. -/
def Makes (g : Graph) (s : String) (stops : Value) (sub : Graph) : Prop :=
  ∀ c time, (Recorded c time s sub → (subset c time g (.text s) stops).result = .ok sub) ∧
    (¬Recorded c time s sub → ∃ f, (subset c time g (.text s) stops).result = .error (.log f))

theorem makes_of_subset (hs : s ∈ g.stages) (hstops : stops.hashedItems = .ok vs)
    (h : g.subset s (stopNames vs) = .ok sub) : Makes g s stops sub := by
  intro c time
  have hresult : (subset c time g (.text s) stops).result =
      (((passed c time sub).andThen fun _ => ⟨.ok sub, []⟩).andThen fun sub =>
        (extracted c time s sub).andThen fun _ => ⟨.ok sub, []⟩).result := by
    unfold subset
    rw [reachable_of_hashed hs hstops]
    dsimp only
    rw [← Graph.subset, h]
    rfl
  rw [hresult]
  unfold Recorded
  obtain hp | ⟨f, hp⟩ : (passed c time sub).result = .ok () ∨
      ∃ f, (passed c time sub).result = .error (.log f) := note_cases _ _ _ _
  · obtain he | ⟨f, he⟩ : (extracted c time s sub).result = .ok () ∨
        ∃ f, (extracted c time s sub).result = .error (.log f) := note_cases _ _ _ _
    · simp [Answer.andThen, hp, he]
    · simp [Answer.andThen, hp, he]
  · simp [Answer.andThen, hp]

theorem subset_refused (hs : s ∈ g.stages) (hstops : stops.hashedItems = .ok vs) {e : GraphError}
    (h : g.subset s (stopNames vs) = .error e) (c : Log.Config) (time : String) :
    (subset c time g (.text s) stops).result = .error (.graph e) := by
  unfold subset
  rw [reachable_of_hashed hs hstops]
  dsimp only
  rw [← Graph.subset, h]
  rfl

theorem Makes.not_refused (h : Makes g s stops sub) (c : Log.Config) (time : String) (k : Kind) :
    ¬Refused (subset c time g (.text s) stops).result k := by
  rintro ⟨e, he, -⟩
  by_cases hrec : Recorded c time s sub
  · rw [(h c time).1 hrec] at he
    cases he
  · obtain ⟨f, hf⟩ := (h c time).2 hrec
    rw [hf] at he
    cases he

theorem subset_cases (hv : g.Valid) (hs : s ∈ g.stages) (hstops : stops.hashedItems = .ok vs) :
    (g.outputs s = [] ∧ ∀ c time,
      (subset c time g (.text s) stops).result = .error (.graph .noConnections)) ∨
      g.outputs s ≠ [] ∧ ∃ sub, Makes g s stops sub ∧ sub.Valid ∧
        Cut g s (g.reach s (stopNames vs)) sub := by
  obtain ⟨hout, hr⟩ | ⟨hout, sub, hr, hsub⟩ := hv.subset_cases s (stopNames vs)
  · exact .inl ⟨hout, subset_refused hs hstops hr⟩
  · exact .inr ⟨hout, sub, makes_of_subset hs hstops hr, hsub⟩

/-- After any calls a cut fails for a stage that is not there or has no output. In every other
case it is made, and holds exactly what the stage reaches up to the stops. -/
theorem subset_exact {g₀ : Graph} (hg : ofItems t items = .ok g₀) (es : List Edit) :
    let g := g₀.run es
    (∀ c time stage stops, g.has stage = false →
      (subset c time g stage stops).result = .error (.graph (.missing stage))) ∧
      ∀ s ∈ g.stages, ∀ stops vs, stops.hashedItems = .ok vs →
        ∃ reached, reachable g (.text s) stops = .ok reached ∧
          (∀ c time, Refused (subset c time g (.text s) stops).result .construction ↔
            g.outputs s = []) ∧
          (g.outputs s ≠ [] → ∃ sub, Makes g s stops sub ∧ Cut g s reached sub) := by
  obtain ⟨cs, -, -, hvalid⟩ := valid_of_ofItems hg
  have hv := hvalid.run es
  generalize g₀.run es = g at hv
  dsimp only
  refine ⟨fun c time stage stops hstage => ?_, fun s hs stops vs hstops => ?_⟩
  · have hnone : g.stage? stage = none := by simpa [has] using hstage
    simp [subset, reachable, hnone, Answer.failed]
  · refine ⟨_, reachable_of_hashed hs hstops, ?_⟩
    obtain ⟨hout, hr⟩ | ⟨hout, sub, hmakes, -, hcut⟩ := subset_cases hv hs hstops
    · exact ⟨fun c time => iff_of_true ⟨_, hr c time, rfl⟩ hout, fun hne => absurd hout hne⟩
    · exact ⟨fun c time => iff_of_false (hmakes.not_refused c time _) hout,
        fun _ => ⟨sub, hmakes, hcut⟩⟩

/-- A connection that leaves a stop is kept when the stage behind it is reached on another way. -/
theorem subset_exact_past_stop :
    let g₀ := draw .insertion [⟨"a", "b"⟩, ⟨"b", "c"⟩, ⟨"a", "c"⟩, ⟨"c", "d"⟩, ⟨"e", "d"⟩]
    let g := g₀.run [.insert (.text "x") (.text "c"), .remove .sink]
    let stops := Value.list [.text "b", .int 1]
    ofItems .insertion [.tuple [.text "a", .text "b"], .list [.text "b", .text "c"],
        .tuple [.text "a", .text "c"], .tuple [.text "c", .text "d"],
        .tuple [.text "e", .text "d"]] = .ok g₀ ∧
      "a" ∈ g.stages ∧ stops.hashedItems = .ok [.text "b", .int 1] ∧
      ∃ sub, (subset ⟨.json, 10, 1, []⟩ "" g (.text "a") stops).result = .ok sub ∧
        Cut g "a" ["c", "b", "x", "a"] sub ∧ ⟨"b", "x"⟩ ∈ sub.connections := by
  have hg : ofItems .insertion [.tuple [.text "a", .text "b"], .list [.text "b", .text "c"],
      .tuple [.text "a", .text "c"], .tuple [.text "c", .text "d"],
      .tuple [.text "e", .text "d"]] = .ok (draw .insertion [⟨"a", "b"⟩, ⟨"b", "c"⟩, ⟨"a", "c"⟩,
        ⟨"c", "d"⟩, ⟨"e", "d"⟩]) := by cbv
  have hstage : "a" ∈ ((draw .insertion [⟨"a", "b"⟩, ⟨"b", "c"⟩, ⟨"a", "c"⟩, ⟨"c", "d"⟩,
      ⟨"e", "d"⟩]).run [.insert (.text "x") (.text "c"), .remove .sink]).stages := by
    decide +kernel
  have hstops : (Value.list [.text "b", .int 1]).hashedItems = .ok [.text "b", .int 1] := rfl
  have hfound : reachable ((draw .insertion [⟨"a", "b"⟩, ⟨"b", "c"⟩, ⟨"a", "c"⟩, ⟨"c", "d"⟩,
      ⟨"e", "d"⟩]).run [.insert (.text "x") (.text "c"), .remove .sink]) (.text "a")
        (.list [.text "b", .int 1]) = .ok ["c", "b", "x", "a"] := by cbv
  obtain ⟨reached, hreached, -, hmade⟩ := (subset_exact hg
    [.insert (.text "x") (.text "c"), .remove .sink]).2 "a" hstage _ _ hstops
  rw [hfound, Except.ok.injEq] at hreached
  subst hreached
  obtain ⟨sub, hmakes, hcut⟩ := hmade (by decide +kernel)
  have hsub := (hmakes ⟨.json, 10, 1, []⟩ "").1 (recorded_of_context rfl "" "a" sub)
  exact ⟨hg, hstage, hstops, sub, hsub, hcut, (hcut.connections _).2 (by decide +kernel)⟩

/-- After any calls a cut of a cut, at the same stops and from a stage that the first one passes,
reaches what a cut of the graph reaches and is the same graph, or neither is made. -/
theorem subset_nests {g₀ : Graph} (hg : ofItems t items = .ok g₀) (es : List Edit)
    (stops : List String) {s : String} (hout : (g₀.run es).outputs s ≠ []) :
    let g := g₀.run es
    let stopped := Value.set (stops.map .text)
    ∃ sub names, Makes g s stopped sub ∧ reachable g (.text s) stopped = .ok names ∧
      ∀ t ∈ names, t = s ∨ t ∉ stops →
        (∃ l m, reachable sub (.text t) stopped = .ok l ∧ reachable g (.text t) stopped = .ok m ∧
          ∀ v, v ∈ l ↔ v ∈ m) ∧
        ((∃ k h, Makes sub t stopped k ∧ Makes g t stopped h ∧ k.same h = true) ∨
          ∀ c time, Refused (subset c time sub (.text t) stopped).result .construction ∧
            Refused (subset c time g (.text t) stopped).result .construction) := by
  obtain ⟨cs, -, -, hvalid⟩ := valid_of_ofItems hg
  have hv := hvalid.run es
  generalize g₀.run es = g at hv hout
  dsimp only
  have hstage : s ∈ g.stages := by
    obtain ⟨u, hu⟩ := List.exists_mem_of_ne_nil _ hout
    exact (hv.joined _ (mem_outputs.1 hu)).1
  have hstops : (Value.set (stops.map .text)).hashedItems = .ok (stops.map .text) := by
    simp [Value.hashedItems, Value.items?, unhashableIn?_map_text]
  obtain ⟨hnone, -⟩ | ⟨-, sub, hmakes, hsub, hcut⟩ := subset_cases hv hstage hstops
  · exact absurd hnone hout
  rw [stopNames_map_text] at hcut
  refine ⟨sub, _, hmakes, reachable_eq hstage stops, fun u hu hpass => ?_⟩
  have hinner : u ∈ sub.stages := (hcut.stages u).2 hu
  have houter : u ∈ g.stages := hv.toBooks.mem_stages_of_mem_reach hstage hu
  refine ⟨⟨_, _, reachable_eq hinner stops, reachable_eq houter stops, fun v => ?_⟩, ?_⟩
  · exact hcut.mem_reach_iff hv.toBooks hsub.toBooks hu hpass
  · have hcases := hcut.subset_cases hv hsub hu hpass
    rw [← stopNames_map_text stops] at hcases
    obtain ⟨k, h, hk, hh, hsame⟩ | ⟨hk, hh⟩ := hcases
    · exact .inl ⟨k, h, makes_of_subset hinner hstops hk, makes_of_subset houter hstops hh, hsame⟩
    · exact .inr fun c time => ⟨⟨_, subset_refused hinner hstops hk c time, rfl⟩,
        ⟨_, subset_refused houter hstops hh c time, rfl⟩⟩

theorem subset_nests_from_stop :
    let g₀ := draw .lexicographic [⟨"a", "b"⟩, ⟨"b", "c"⟩, ⟨"a", "c"⟩, ⟨"c", "d"⟩, ⟨"e", "d"⟩]
    let g := g₀.run [.insert (.text "x") (.text "c"), .remove .source]
    let stopped := Value.set [.text "b", .text "d"]
    ofItems .lexicographic [.tuple [.text "a", .text "b"], .list [.text "b", .text "c"],
        .tuple [.text "a", .text "c"], .tuple [.text "c", .text "d"],
        .tuple [.text "e", .text "d"]] = .ok g₀ ∧
      g.outputs "b" ≠ [] ∧
      ∃ sub k h, (subset ⟨.json, 10, 1, []⟩ "" g (.text "b") stopped).result = .ok sub ∧
        (subset ⟨.json, 10, 1, []⟩ "" sub (.text "c") stopped).result = .ok k ∧
        (subset ⟨.json, 10, 1, []⟩ "" g (.text "c") stopped).result = .ok h ∧
        k.same h = true := by
  have hg : ofItems .lexicographic [.tuple [.text "a", .text "b"], .list [.text "b", .text "c"],
      .tuple [.text "a", .text "c"], .tuple [.text "c", .text "d"],
      .tuple [.text "e", .text "d"]] = .ok (draw .lexicographic [⟨"a", "b"⟩, ⟨"b", "c"⟩,
        ⟨"a", "c"⟩, ⟨"c", "d"⟩, ⟨"e", "d"⟩]) := by cbv
  have hout : ((draw .lexicographic [⟨"a", "b"⟩, ⟨"b", "c"⟩, ⟨"a", "c"⟩, ⟨"c", "d"⟩,
      ⟨"e", "d"⟩]).run [.insert (.text "x") (.text "c"), .remove .source]).outputs "b" ≠ [] := by
    decide +kernel
  have hmade : ∀ {k t stopped h}, Makes k t stopped h →
      (subset ⟨.json, 10, 1, []⟩ "" k (.text t) stopped).result = .ok h :=
    fun hm => (hm ⟨.json, 10, 1, []⟩ "").1 (recorded_of_context rfl "" _ _)
  obtain ⟨sub, names, hsub, hnames, hnests⟩ := subset_nests hg
    [.insert (.text "x") (.text "c"), .remove .source] ["b", "d"] hout
  have hfound : reachable ((draw .lexicographic [⟨"a", "b"⟩, ⟨"b", "c"⟩, ⟨"a", "c"⟩, ⟨"c", "d"⟩,
      ⟨"e", "d"⟩]).run [.insert (.text "x") (.text "c"), .remove .source]) (.text "b")
        (.set [.text "b", .text "d"]) = .ok ["d", "c", "x", "b"] := by cbv
  rw [List.map_cons, List.map_cons, List.map_nil, hfound, Except.ok.injEq] at hnames
  subst hnames
  obtain ⟨k, h, hk, hh, hsame⟩ | hnone := (hnests "c" (by simp) (.inr (by simp))).2
  · exact ⟨hg, hout, sub, k, h, hmade hsub, hmade hk, hmade hh, hsame⟩
  · -- The stage has an output, so the cut of the graph is made.
    obtain ⟨-, -, -, hvalid⟩ := valid_of_ofItems hg
    have hv := hvalid.run [.insert (.text "x") (.text "c"), .remove .source]
    have hstops : (Value.set [.text "b", .text "d"]).hashedItems =
        .ok [.text "b", .text "d"] := rfl
    obtain ⟨hnone, -⟩ | ⟨-, sub, hmakes, -⟩ :=
      subset_cases (s := "c") hv (by decide +kernel) hstops
    · exact absurd hnone (by decide +kernel)
    · exact absurd (hnone ⟨.json, 10, 1, []⟩ "").2 (hmakes.not_refused _ _ _)

end Planner

end Pipeline
