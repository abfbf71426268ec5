import Pipeline.Proofs.StageRanks

namespace Pipeline.Path

open Relation

variable {cs : List Connection} {s t : String}

/-- A stage on a cycle, or on a way from one cycle to another. -/
def Core (cs : List Connection) (s : String) : Prop :=
  (∃ a, TransGen (Leads cs) a a ∧ ReflTransGen (Leads cs) a s) ∧
    ∃ b, TransGen (Leads cs) b b ∧ ReflTransGen (Leads cs) s b

theorem held_sink_iff :
    Held cs .sink s ↔ ∃ b, TransGen (Leads cs) b b ∧ ReflTransGen (Leads cs) s b :=
  exists_congr fun _ => and_congr transGen_swap reflTransGen_swap

theorem core_iff : Core cs s ↔ Held cs .source s ∧ Held cs .sink s :=
  and_congr_right' held_sink_iff.symm

theorem Core.cyclic (h : Core cs s) : Cyclic cs := by
  obtain ⟨⟨a, ha, -⟩, -⟩ := h
  exact ⟨a, ha⟩

theorem Core.mem_endpoints (h : Core cs s) : s ∈ endpoints cs := by
  obtain ⟨⟨a, ha, has⟩, -⟩ := h
  obtain ⟨u, -, hus⟩ := TransGen.tail'_iff.1 (ha.trans_left has)
  exact Path.mem_endpoints.2 ⟨_, hus, .inr rfl⟩

theorem transGen_self_of_reaches_iff {r : String → String → Prop} (hs : TransGen r s s)
    (h : ∀ v, ReflTransGen r t v ↔ ReflTransGen r s v) : TransGen r t t := by
  have hts : ReflTransGen r t s := (h s).2 .refl
  have hst : ReflTransGen r s t := (h t).1 .refl
  exact (TransGen.trans_right hts hs).trans_left hst

end Pipeline.Path

namespace Pipeline.Graph

open Pipeline.Path Relation Connection

variable {g rest : Graph} {e : End} {t : TieBreak} {s v : String} {seen l : List String}
  {cs : List Connection} {items : List Value}

theorem mem_stages_of_held (hb : g.Books) (h : Held g.edges e s) : s ∈ g.stages := by
  obtain ⟨c, hc, rfl⟩ : ∃ c ∈ g.edges, e.bars c = s := by simpa [Free] using h.not_free
  exact mem_stages_of_bars hb e hc

/-- What stays of a graph drained from one end is what a cycle holds there. -/
theorem Sound.mem_stages_drain (hg : g.Sound) :
    s ∈ (g.drain e).2.stages ↔ Held g.edges e s := by
  induction g using Graph.drain.induct e with
  | case1 g rest hr =>
    have hm := (hg.remove_none hr).1
    have hrest : (g.drain e).2.stages = g.stages := by
      rw [drain_of_none hr, (hg.remove_none hr).2, withFrontier_stages]
    rw [hrest]
    refine ⟨fun hs => ?_, mem_stages_of_held hg.toBooks⟩
    obtain hheld | ⟨r, hrs, hfree⟩ := held_or_exists_free g.edges e s
    · exact hheld
    · have hmem := (hg.members e r).2 ⟨(mem_of_reflTransGen_way hg.joined hrs).2 hs, hfree⟩
      rw [hm] at hmem
      exact absurd hmem List.not_mem_nil
  | case2 g x rest hr ih =>
    obtain ⟨hx, hw, hrest⟩ := hg.remove_some hr
    have hfree := ((hg.members e x).1 hx).2
    rw [drain_of_some hr, ih hrest]
    constructor
    · exact Held.mono (by rw [hw.edges]; exact fun c hc => (mem_edgesWithout.1 hc).1)
    · intro h
      refine (h.of_free hfree fun c hc htail hhead => ?_).1
      rw [hw.edges]
      exact mem_edgesWithout.2 ⟨hc, htail, hhead⟩

theorem Drained.mem_edges (hg : g.Sound) (h : Drained g e l rest) {c : Connection} :
    c ∈ rest.edges ↔ c ∈ g.edges ∧ c.tail ∈ rest.stages ∧ c.head ∈ rest.stages := by
  rw [h.edges]
  refine and_congr_right fun hc => ?_
  have hstays : ∀ {u}, u ∈ g.stages → (u ∉ l ↔ u ∈ rest.stages) :=
    fun hu => ⟨((h.mem_iff _).1 hu).resolve_left, fun hr hl => h.gone _ hl hr⟩
  exact and_congr (hstays (hg.joined c hc).1) (hstays (hg.joined c hc).2)

theorem Sound.mem_stages_core (hg : g.Sound) :
    s ∈ ((g.drain .source).2.drain .sink).2.stages ↔ Core g.edges s := by
  have h := hg.drained .source
  have hstays : ∀ {u}, u ∈ (g.drain .source).2.stages ↔ Held g.edges .source u :=
    hg.mem_stages_drain
  -- Behind a cycle every way of the graph is still there after the first drain.
  have hstep : ∀ a b, Held g.edges .source a → Leads g.edges a b →
      Held g.edges .source b ∧ Leads (g.drain .source).2.edges a b := by
    intro a b ha hab
    obtain ⟨x, hx, hxa⟩ := ha
    have hb : Held g.edges .source b := ⟨x, hx, hxa.tail hab⟩
    exact ⟨hb, (h.mem_edges hg).2 ⟨hab, hstays.2 ⟨x, hx, hxa⟩, hstays.2 hb⟩⟩
  rw [h.sound.mem_stages_drain, core_iff]
  constructor
  · intro hs
    exact ⟨hstays.1 (mem_stages_of_held h.sound.toBooks hs), hs.mono h.edges_subset⟩
  · rintro ⟨hsource, hsink⟩
    obtain ⟨b, hb, hsb⟩ := held_sink_iff.1 hsink
    have hway := reflTransGen_within hstep hsb hsource
    exact held_sink_iff.2 ⟨b, (transGen_within hstep hb hway.2).1, hway.1⟩

theorem Core.mem_stages (hb : g.Books) (h : Core g.edges s) : s ∈ g.stages :=
  mem_stages_of_held hb (core_iff.1 h).1

theorem Sound.hasOutput_core (hg : g.Sound)
    (hs : s ∈ ((g.drain .source).2.drain .sink).2.stages) :
    ((g.drain .source).2.drain .sink).2.hasOutput s = true := by
  have hcore := (hg.drained .source).sound.drained .sink
  have hfree : ¬Free ((g.drain .source).2.drain .sink).2.edges .sink s := by
    intro hfree
    have hmem := (hcore.sound.members .sink s).2 ⟨hs, hfree⟩
    rw [hcore.members] at hmem
    exact List.not_mem_nil hmem
  simpa [Free, hasOutput, End.bars] using hfree

theorem cycleStart?_eq_some_iff (hg : g.Sound) (hd : Dated seen g)
    (hseen : ∀ u ∈ g.stages, u ∈ seen) :
    g.cycleStart? = some s ↔ g.tieBreak.First seen (Core g.edges) s := by
  by_cases hc : Cyclic g.edges
  · have hrest : (g.drain .source).2.edges ≠ [] :=
      fun hnil => (hg.drained .source).edges_eq_nil_iff.1 hnil hc
    have hnames : ∀ u, u ∈ ((g.drain .source).2.drain .sink).2.stages.filter
        ((g.drain .source).2.drain .sink).2.hasOutput ↔ Core g.edges u := by
      intro u
      rw [List.mem_filter, ← hg.mem_stages_core]
      exact and_iff_left_of_imp hg.hasOutput_core
    have hfirst := head?_ordered_eq_some_iff (s := s) hd
      fun u hu => hseen u (Core.mem_stages hg.toBooks ((hnames u).1 hu))
    unfold cycleStart?
    dsimp only
    rw [if_neg hrest, hfirst]
    simp only [TieBreak.First, hnames]
  · rw [(cycleStart?_eq_none_iff hg).2 hc]
    exact iff_of_false (by simp) fun h => hc h.1.cyclic

theorem mem_cycleReport (hs : g.cycleStart? = some s) :
    v ∈ g.cycleReport ↔ ReflTransGen (Leads g.edges) s v := by
  unfold cycleReport
  rw [hs]
  dsimp only
  rw [sortedNames, List.mem_mergeSort, mem_reach_nil]

/-- The check of a graph with a cycle fails with the report, whichever of its tests comes first. -/
theorem Sound.validate_of_cyclic (hg : g.Sound) (hc : Cyclic g.edges) :
    ∃ e, g.validate = .error e ∧ (e.kind = .cycle ∨ e.kind = .noSource ∨ e.kind = .noSink) ∧
      e.stages? = some g.cycleReport := by
  obtain ⟨-, hv⟩ | ⟨-, ⟨-, hv⟩ | ⟨-, ⟨-, hv⟩ | ⟨ha, -⟩⟩⟩ := validate_cases hg
  · exact ⟨_, hv, .inr (.inl rfl), rfl⟩
  · exact ⟨_, hv, .inr (.inr rfl), rfl⟩
  · exact ⟨_, hv, .inl rfl, rfl⟩
  · exact absurd hc ha

theorem Sound.valid_of_validate (hg : g.Sound) (hv : g.validate = .ok ()) : g.Valid := by
  refine ⟨hg, fun hc => ?_⟩
  obtain ⟨e, he, -⟩ := hg.validate_of_cyclic hc
  rw [he] at hv
  cases hv

theorem Drawn.core (h : Drawn cs g) : Core g.edges = Core cs := by
  funext s
  simp only [Core, h.leads]

theorem ne_nil_of_cyclic (hc : Cyclic cs) : cs ≠ [] := by
  rintro rfl
  obtain ⟨s, hs⟩ := hc
  obtain ⟨u, hsu, -⟩ := TransGen.head'_iff.1 hs
  exact List.not_mem_nil hsu

theorem ofItems_of_cyclic (t : TieBreak) (hitems : List.Forall₂ Denotes items cs)
    (hc : Cyclic cs) :
    ∃ e, ofItems t items = .error e ∧
      (e.kind = .cycle ∨ e.kind = .noSource ∨ e.kind = .noSink) ∧
      e.stages? = some (draw t cs).cycleReport := by
  obtain ⟨e, hval, hfound⟩ :=
    (sound_draw t cs).validate_of_cyclic ((drawn_draw t cs).cyclic_iff.2 hc)
  refine ⟨e, ?_, hfound⟩
  rw [ofItems_eq t hitems, ofConnections_eq (ne_nil_of_cyclic hc), hval]
  rfl

/-- The report on a drawn graph is what the first stage of its core reaches. -/
theorem exists_first_core (t : TieBreak) (hc : Cyclic cs) :
    ∃ first, t.First (endpoints cs) (Core cs) first ∧
      ∀ v, v ∈ (draw t cs).cycleReport ↔ ReflTransGen (Leads cs) first v := by
  have hd := drawn_draw t cs
  have hg := sound_draw t cs
  have hsome := mt (cycleStart?_eq_none_iff hg).1 (not_not.2 (hd.cyclic_iff.2 hc))
  obtain ⟨first, hstart⟩ := Option.ne_none_iff_exists'.1 hsome
  refine ⟨first, ?_, fun v => ?_⟩
  · have hseen : ∀ u ∈ (draw t cs).stages, u ∈ endpoints cs := fun u => (hd.mem_stages u).1
    have hcore := (cycleStart?_eq_some_iff hg (dated_draw t cs) hseen).1 hstart
    rwa [tieBreak_draw, hd.core] at hcore
  · rw [mem_cycleReport hstart, hd.leads]

/-- Connections that turn in a circle are refused with all that the first stage of the core
reaches. So the report holds a whole cycle, and nothing that does not lie on or behind one. -/
theorem refused_with_core (t : TieBreak) (hitems : List.Forall₂ Denotes items cs)
    (hc : Cyclic cs) :
    ∃ e names first, ofItems t items = .error e ∧
      (e.kind = .cycle ∨ e.kind = .noSource ∨ e.kind = .noSink) ∧ e.stages? = some names ∧
      t.First (endpoints cs) (Core cs) first ∧
      (∀ v, v ∈ names ↔ ReflTransGen (Leads cs) first v) ∧
      (∃ s, TransGen (Leads cs) s s ∧ ∀ v, TransGen (Leads cs) s v → v ∈ names) ∧
      ∀ v ∈ names, ∃ s, TransGen (Leads cs) s s ∧ ReflTransGen (Leads cs) s v := by
  obtain ⟨e, he, hkind, hstages⟩ := ofItems_of_cyclic t hitems hc
  obtain ⟨first, hfirst, hreport⟩ := exists_first_core t hc
  obtain ⟨⟨a, ha, haf⟩, b, hb, hfb⟩ := hfirst.1
  refine ⟨e, _, first, he, hkind, hstages, hfirst, hreport, ⟨b, hb, fun v hv => ?_⟩,
    fun v hv => ?_⟩
  · exact (hreport v).2 (hfb.trans hv.to_reflTransGen)
  · exact ⟨a, ha, haf.trans ((hreport v).1 hv)⟩

/-- The first stage of the core lies on no cycle itself, so that of two cycles one is left out. -/
theorem refused_with_core_between :
    let items := [.tuple [.text "m", .text "x"], .list [.text "d", .text "m"],
      .connection (.text "c") (.text "d"), .tuple [.text "d", .text "c"],
      .tuple [.text "x", .text "x"], .tuple [.text "x", .text "z"], .tuple [.text "s", .text "c"]]
    let cs := [⟨"m", "x"⟩, ⟨"d", "m"⟩, ⟨"c", "d"⟩, ⟨"d", "c"⟩, ⟨"x", "x"⟩, ⟨"x", "z"⟩, ⟨"s", "c"⟩]
    List.Forall₂ Denotes items cs ∧ Cyclic cs ∧
      ofItems .insertion items = .error (.cycle ["m", "x", "z"]) ∧
      ∃ first, TieBreak.insertion.First (endpoints cs) (Core cs) first ∧
        ∀ v, v ∈ ["m", "x", "z"] ↔ ReflTransGen (Leads cs) first v := by
  have hitems : List.Forall₂ Denotes [.tuple [.text "m", .text "x"],
      .list [.text "d", .text "m"], .connection (.text "c") (.text "d"),
      .tuple [.text "d", .text "c"], .tuple [.text "x", .text "x"],
      .tuple [.text "x", .text "z"], .tuple [.text "s", .text "c"]]
      [⟨"m", "x"⟩, ⟨"d", "m"⟩, ⟨"c", "d"⟩, ⟨"d", "c"⟩, ⟨"x", "x"⟩, ⟨"x", "z"⟩, ⟨"s", "c"⟩] := by
    simp [Denotes, parts?, Value.items?]
  have hc : Cyclic [⟨"m", "x"⟩, ⟨"d", "m"⟩, ⟨"c", "d"⟩, ⟨"d", "c"⟩, ⟨"x", "x"⟩, ⟨"x", "z"⟩,
      ⟨"s", "c"⟩] :=
    ⟨"x", .single (by simp [Leads])⟩
  have hrefused : ofItems .insertion [.tuple [.text "m", .text "x"],
      .list [.text "d", .text "m"], .connection (.text "c") (.text "d"),
      .tuple [.text "d", .text "c"], .tuple [.text "x", .text "x"],
      .tuple [.text "x", .text "z"], .tuple [.text "s", .text "c"]] =
        .error (.cycle ["m", "x", "z"]) := by
    cbv
  obtain ⟨e, names, first, he, -, hnames, hfirst, hreach, -⟩ :=
    refused_with_core .insertion hitems hc
  rw [hrefused, Except.error.injEq] at he
  subst he
  obtain rfl : ["m", "x", "z"] = names := by simpa [GraphError.stages?] using hnames
  exact ⟨hitems, hc, hrefused, first, hfirst, hreach⟩

/-- The report on connections that turn in a circle is all that some stage on a cycle reaches
exactly when the first stage of the core lies on a cycle itself. So it is where no stage lies
between two cycles, and not always elsewhere. -/
theorem refused_from_cycle_iff (t : TieBreak) (hitems : List.Forall₂ Denotes items cs)
    (hc : Cyclic cs) :
    ∃ e names first, ofItems t items = .error e ∧
      (e.kind = .cycle ∨ e.kind = .noSource ∨ e.kind = .noSink) ∧ e.stages? = some names ∧
      t.First (endpoints cs) (Core cs) first ∧
      ((∃ s, TransGen (Leads cs) s s ∧ ∀ v, v ∈ names ↔ ReflTransGen (Leads cs) s v) ↔
        TransGen (Leads cs) first first) ∧
      ((∀ s, Core cs s → TransGen (Leads cs) s s) →
        ∃ s, TransGen (Leads cs) s s ∧ ∀ v, v ∈ names ↔ ReflTransGen (Leads cs) s v) := by
  obtain ⟨e, he, hkind, hstages⟩ := ofItems_of_cyclic t hitems hc
  obtain ⟨first, hfirst, hreport⟩ := exists_first_core t hc
  refine ⟨e, _, first, he, hkind, hstages, hfirst, ⟨?_, ?_⟩, fun hall => ?_⟩
  · rintro ⟨s, hs, hnames⟩
    exact transGen_self_of_reaches_iff hs fun v => (hreport v).symm.trans (hnames v)
  · exact fun h => ⟨first, h, hreport⟩
  · exact ⟨first, hall first hfirst.1, hreport⟩

theorem refused_from_cycle_iff_series :
    let items := [.tuple [.text "x", .text "y"], .list [.text "y", .text "x"],
      .tuple [.text "src", .text "a"], .connection (.text "a") (.text "b"),
      .tuple [.text "b", .text "a"], .tuple [.text "b", .text "x"]]
    let cs := [⟨"x", "y"⟩, ⟨"y", "x"⟩, ⟨"src", "a"⟩, ⟨"a", "b"⟩, ⟨"b", "a"⟩, ⟨"b", "x"⟩]
    List.Forall₂ Denotes items cs ∧ Cyclic cs ∧
      ofItems .insertion items = .error (.noSink ["x", "y"]) ∧
      ∃ s, TransGen (Leads cs) s s ∧ ∀ v, v ∈ ["x", "y"] ↔ ReflTransGen (Leads cs) s v := by
  have hitems : List.Forall₂ Denotes [.tuple [.text "x", .text "y"],
      .list [.text "y", .text "x"], .tuple [.text "src", .text "a"],
      .connection (.text "a") (.text "b"), .tuple [.text "b", .text "a"],
      .tuple [.text "b", .text "x"]]
      [⟨"x", "y"⟩, ⟨"y", "x"⟩, ⟨"src", "a"⟩, ⟨"a", "b"⟩, ⟨"b", "a"⟩, ⟨"b", "x"⟩] := by
    simp [Denotes, parts?, Value.items?]
  have hcycle : TransGen (Leads [⟨"x", "y"⟩, ⟨"y", "x"⟩, ⟨"src", "a"⟩, ⟨"a", "b"⟩, ⟨"b", "a"⟩,
      ⟨"b", "x"⟩]) "x" "x" :=
    .tail (b := "y") (.single (by simp [Leads])) (by simp [Leads])
  have hrefused : ofItems .insertion [.tuple [.text "x", .text "y"],
      .list [.text "y", .text "x"], .tuple [.text "src", .text "a"],
      .connection (.text "a") (.text "b"), .tuple [.text "b", .text "a"],
      .tuple [.text "b", .text "x"]] = .error (.noSink ["x", "y"]) := by
    cbv
  obtain ⟨e, names, first, he, -, hnames, hfirst, hiff, -⟩ :=
    refused_from_cycle_iff .insertion hitems ⟨"x", hcycle⟩
  rw [hrefused, Except.error.injEq] at he
  subst he
  obtain rfl : ["x", "y"] = names := by simpa [GraphError.stages?] using hnames
  -- The name that came first of all is ahead of every stage of the core.
  have hx : TieBreak.insertion.First (endpoints [⟨"x", "y"⟩, ⟨"y", "x"⟩, ⟨"src", "a"⟩,
      ⟨"a", "b"⟩, ⟨"b", "a"⟩, ⟨"b", "x"⟩]) (Core _) "x" :=
    ⟨⟨⟨"x", hcycle, .refl⟩, "x", hcycle, .refl⟩, fun u _ => by simp [TieBreak.Ahead, endpoints]⟩
  have hfx : first = "x" := hfirst.unique hx fun u hu => Core.mem_endpoints hu
  exact ⟨hitems, ⟨"x", hcycle⟩, hrefused, hiff.2 (hfx ▸ hcycle)⟩

/-- Between two cycles lies the stage that comes first by name. What it reaches is not what any
stage on a cycle reaches. -/
theorem refused_from_cycle_iff_between :
    let items := [.tuple [.text "b", .text "b"], .tuple [.text "b", .text "a"],
      .tuple [.text "a", .text "c"], .tuple [.text "c", .text "c"]]
    let cs := [⟨"b", "b"⟩, ⟨"b", "a"⟩, ⟨"a", "c"⟩, ⟨"c", "c"⟩]
    List.Forall₂ Denotes items cs ∧ Cyclic cs ∧
      ofItems .lexicographic items = .error (.noSource ["a", "c"]) ∧
      ¬∃ s, TransGen (Leads cs) s s ∧ ∀ v, v ∈ ["a", "c"] ↔ ReflTransGen (Leads cs) s v := by
  refine ⟨by simp [Denotes, parts?, Value.items?], ⟨"b", .single (by simp [Leads])⟩, by cbv, ?_⟩
  rintro ⟨s, hs, hnames⟩
  have hend : ∀ u v, u = "a" ∨ u = "c" →
      TransGen (Leads [⟨"b", "b"⟩, ⟨"b", "a"⟩, ⟨"a", "c"⟩, ⟨"c", "c"⟩]) u v → v = "c" := by
    intro u v hu huv
    induction huv with
    | single h => obtain rfl | rfl := hu <;> simpa [Leads] using h
    | tail _ h ih =>
      subst ih
      simpa [Leads] using h
  have hsac : s = "a" ∨ s = "c" := by simpa using (hnames s).2 .refl
  obtain rfl := hend s s hsac hs
  obtain h | h := reflTransGen_iff_eq_or_transGen.1 ((hnames "a").1 (by simp))
  · exact absurd h (by decide)
  · exact absurd (hend "c" "a" hsac h) (by decide)

end Pipeline.Graph
