import Pipeline.Proofs.History

namespace Pipeline

namespace Graph

open Pipeline.Path Relation

variable {g sub : Graph} {r s : String} {stops names : List String} {cs : List Connection}
  {c : Connection}

theorem exists_last_stop (stops : List String) (h : ReflTransGen (Leads cs) r s) :
    ∃ x, (x = r ∨ x ∈ stops) ∧ ReflTransGen (Passes cs x stops) x s ∧ (s = x ∨ s ∉ stops) := by
  induction h with
  | refl => exact ⟨r, .inl rfl, .refl, .inl rfl⟩
  | @tail u v _ huv ih =>
    by_cases hv : v ∈ stops
    · exact ⟨v, .inr hv, .refl, .inl rfl⟩
    · obtain ⟨x, hx, hxu, hu⟩ := ih
      exact ⟨x, hx, hxu.tail ⟨huv, hu⟩, .inr hv⟩

/-- A stage at which a phase begins. -/
def Opens (g : Graph) (stops : List String) (x : String) : Prop :=
  x ∈ g.sources.members ∨ x ∈ g.stages ∧ x ∈ stops

theorem Valid.exists_opens (hv : g.Valid) (stops : List String) (hs : s ∈ g.stages) :
    ∃ x, g.Opens stops x ∧ s ∈ g.reach x stops ∧ (s = x ∨ s ∉ stops) := by
  obtain ⟨r, hr, hrs⟩ := exists_source hv.toSound hv.acyclic hs
  obtain ⟨x, hx, hxs, hpass⟩ := exists_last_stop stops hrs
  refine ⟨x, ?_, mem_reach_iff.2 hxs, hpass⟩
  obtain rfl | hx := hx
  · exact .inl hr
  · have hway : ReflTransGen (Way g.edges .source) x s :=
      ReflTransGen.mono (fun _ _ h => h.1) _ _ hxs
    exact .inr ⟨(mem_of_reflTransGen_way hv.joined hway).2 hs, hx⟩

theorem Opens.mem_stages (hv : g.Valid) (h : g.Opens stops s) : s ∈ g.stages :=
  h.elim (fun hs => ((hv.members .source s).1 hs).1) And.left

theorem Books.mem_induced (hb : g.Books) :
    c ∈ g.induced names ↔ c ∈ g.edges ∧ c.tail ∈ names ∧ c.head ∈ names := by
  simp [induced, hb.mem_connections_iff]

theorem Books.connected_induced (hb : g.Books) (s : String) (stops : List String) :
    Connected (endpoints (g.induced (g.reach s stops))) (g.induced (g.reach s stops)) := by
  have hstep : ∀ a b, a ∈ g.reach s stops → Passes g.edges s stops a b →
      b ∈ g.reach s stops ∧ Leads (g.induced (g.reach s stops)) a b := by
    intro a b ha hab
    have hb' : b ∈ g.reach s stops := mem_reach_iff.2 ((mem_reach_iff.1 ha).tail hab)
    exact ⟨hb', hb.mem_induced.2 ⟨hab.1, ha, hb'⟩⟩
  have hall : ∀ u ∈ endpoints (g.induced (g.reach s stops)),
      EqvGen (Leads (g.induced (g.reach s stops))) s u := by
    intro u hu
    have hmem : u ∈ g.reach s stops := by
      obtain ⟨c, hc, rfl | rfl⟩ := mem_endpoints.1 hu
      · exact (hb.mem_induced.1 hc).2.1
      · exact (hb.mem_induced.1 hc).2.2
    have hway := reflTransGen_within hstep (mem_reach_iff.1 hmem) (mem_reach_iff.2 .refl)
    exact eqvGen_of_reflTransGen hway.1
  intro u hu v hv
  exact .trans _ _ _ (.symm _ _ (hall u hu)) (hall v hv)

theorem Valid.subset_eq_ok (hv : g.Valid) (hne : g.induced (g.reach s stops) ≠ []) :
    g.subset s stops = .ok (draw g.tieBreak (g.induced (g.reach s stops))) := by
  have hsub : g.induced (g.reach s stops) ⊆ g.edges :=
    fun _ hc => (hv.toBooks.mem_induced.1 hc).1
  exact (ofConnections_eq_ok_iff g.tieBreak hne).2
    ⟨rfl, mt (Cyclic.mono hsub) hv.acyclic, hv.toBooks.connected_induced s stops⟩

theorem mem_connections_draw (t : TieBreak) : c ∈ (draw t cs).connections ↔ c ∈ cs := by
  rw [(sound_draw t cs).toBooks.mem_connections_iff, (drawn_draw t cs).mem_edges]

theorem eq_draw_of_ofConnections {t : TieBreak} (h : ofConnections t cs = .ok sub) :
    sub = draw t cs := by
  by_cases hne : cs = []
  · subst hne
    cases h
  · exact ((ofConnections_eq_ok_iff t hne).1 h).1

end Graph

namespace Planner

open Pipeline.Path Pipeline.Graph Connection

variable {α β : Type} {c : Log.Config} {time : String} {g sub : Graph} {t : TieBreak}
  {items : List Value} {stage stops : Value} {made : Except GraphError Graph}

/-- A call comes to a result, unless what is bound to the context spoils its records. -/
def Yields (c : Log.Config) (r : Except Failure α) (x : α) : Prop :=
  r = .ok x ∨ c.context ≠ [] ∧ ∃ f, r = .error (.log f)

theorem Yields.andThen {a : Answer α} {next : α → Answer β} {x : α} {y : β}
    (ha : Yields c a.result x) (hnext : Yields c (next x).result y) :
    Yields c (a.andThen next).result y := by
  unfold Answer.andThen
  obtain hr | ⟨hctx, f, hr⟩ := ha
  · rw [hr]
    exact hnext
  · rw [hr]
    exact .inr ⟨hctx, f, rfl⟩

theorem yields_note {event : String} {fields : Fields}
    (h : c.context = [] →
      ∃ line, c.log ⟨loggerName, .debug, "debug", event, [], [], fields⟩ time = .ok line) :
    Yields c (note c time event fields).result () := by
  unfold note
  cases hl : c.log ⟨loggerName, .debug, "debug", event, [], [], fields⟩ time with
  | ok line => exact .inl rfl
  | error f =>
    refine .inr ⟨fun hctx => ?_, f, rfl⟩
    obtain ⟨line, hline⟩ := h hctx
    rw [hl] at hline
    cases hline

theorem yields_passed (c : Log.Config) (time : String) (g : Graph) :
    Yields c (passed c time g).result () := by
  apply yields_note
  intro hctx
  cases c
  subst hctx
  exact ⟨_, rfl⟩

theorem yields_extracted (c : Log.Config) (time s : String) (n : Nat) :
    Yields c (note c time "Extracted stage sub-graph"
      [("start", .text s), ("stages", count n)]).result () := by
  apply yields_note
  intro hctx
  cases c
  subst hctx
  exact ⟨_, rfl⟩

theorem stopNames_map_text (names : List String) : stopNames (names.map .text) = names := by
  induction names with
  | nil => rfl
  | cons s names ih => exact congrArg (s :: ·) ih

theorem unhashableIn?_map_text (names : List String) :
    Value.unhashableIn? (names.map .text) = none := by
  induction names with
  | nil => rfl
  | cons s names ih => exact ih

theorem hashedItems_map_text (names : List String) :
    (Value.set (names.map .text)).hashedItems = .ok (names.map .text) := by
  simp [Value.hashedItems, Value.items?, unhashableIn?_map_text]

theorem reachable_of_hashed {s : String} {vs : List Value} (hs : s ∈ g.stages)
    (hstops : stops.hashedItems = .ok vs) :
    reachable g (.text s) stops = .ok (g.reach s (stopNames vs)) := by
  simp [reachable, stage?, hs, hstops]

theorem reachable_eq {s : String} (hs : s ∈ g.stages) (names : List String) :
    reachable g (.text s) (.set (names.map .text)) = .ok (g.reach s names) := by
  rw [reachable_of_hashed hs (hashedItems_map_text names), stopNames_map_text]

theorem yields_subset {s : String} (hs : s ∈ g.stages) (names : List String)
    (h : g.subset s names = .ok sub) :
    Yields c (subset c time g (.text s) (.set (names.map .text))).result sub := by
  have hannounced : Yields c (announced c time (.ok sub)).result sub :=
    (yields_passed c time sub).andThen (.inl rfl)
  unfold subset
  rw [reachable_eq hs]
  dsimp only
  rw [← Graph.subset, h]
  exact hannounced.andThen ((yields_extracted c time s _).andThen (.inl rfl))

theorem andThen_eq_ok {a : Answer α} {next : α → Answer β} {y : β}
    (h : (a.andThen next).result = .ok y) : ∃ x, a.result = .ok x ∧ (next x).result = .ok y := by
  unfold Answer.andThen at h
  cases hr : a.result with
  | error f => simp [hr] at h
  | ok x => exact ⟨x, rfl, by simpa [hr] using h⟩

theorem announced_eq_ok (h : (announced c time made).result = .ok g) : made = .ok g := by
  unfold announced at h
  cases made with
  | error e => cases h
  | ok k =>
    obtain ⟨-, -, hk⟩ := andThen_eq_ok h
    cases hk
    rfl

theorem subset_eq_ok (h : (subset c time g stage stops).result = .ok sub) :
    ∃ names, reachable g stage stops = .ok names ∧
      ofConnections g.tieBreak (g.induced names) = .ok sub := by
  unfold subset at h
  cases hr : reachable g stage stops with
  | error f => simp [hr, Answer.failed] at h
  | ok names =>
    rw [hr] at h
    obtain ⟨k, hk, h⟩ := andThen_eq_ok h
    obtain ⟨-, -, h⟩ := andThen_eq_ok h
    cases h
    exact ⟨names, rfl, announced_eq_ok hk⟩

/-- After any calls and for any stops, the phases that begin at a source or at a stop reach every
stage and hold every connection, and no phase holds a connection that the graph does not. -/
theorem phases_cover {g₀ : Graph} (hg : ofItems t items = .ok g₀) (es : List Edit)
    (stops : List String) :
    let g := g₀.run es
    (∀ s ∈ g.stages, ∃ x, g.Opens stops x ∧
      ∃ names, reachable g (.text x) (.set (stops.map .text)) = .ok names ∧ s ∈ names) ∧
    (∀ d ∈ g.connections, ∃ x, g.Opens stops x ∧
      ∃ sub, g.subset x stops = .ok sub ∧ d ∈ sub.connections ∧
        ∀ c time, Yields c (subset c time g (.text x) (.set (stops.map .text))).result sub) ∧
    ∀ c time stage cut sub, (subset c time g stage cut).result = .ok sub →
      ∀ d ∈ sub.connections, d ∈ g.connections := by
  obtain ⟨cs, -, -, hvalid⟩ := valid_of_ofItems hg
  have hv := hvalid.run es
  generalize g₀.run es = g at hv
  refine ⟨fun s hs => ?_, fun d hd => ?_, fun c time stage cut sub hsub d hd => ?_⟩
  · obtain ⟨x, hx, hxs, -⟩ := hv.exists_opens stops hs
    exact ⟨x, hx, _, reachable_eq (hx.mem_stages hv) stops, hxs⟩
  · have hedge := hv.toBooks.mem_connections_iff.1 hd
    obtain ⟨x, hx, htail, hpass⟩ := hv.exists_opens stops (hv.joined d hedge).1
    have hhead : d.head ∈ g.reach x stops :=
      mem_reach_iff.2 ((mem_reach_iff.1 htail).tail ⟨hedge, hpass⟩)
    have hmem : d ∈ g.induced (g.reach x stops) :=
      hv.toBooks.mem_induced.2 ⟨hedge, htail, hhead⟩
    have hmade := hv.subset_eq_ok (List.ne_nil_of_mem hmem)
    exact ⟨x, hx, _, hmade, (mem_connections_draw _).2 hmem,
      fun c time => yields_subset (hx.mem_stages hv) stops hmade⟩
  · obtain ⟨names, -, hmade⟩ := subset_eq_ok hsub
    rw [eq_draw_of_ofConnections hmade, mem_connections_draw, hv.toBooks.mem_induced] at hd
    exact hv.toBooks.mem_connections_iff.2 hd.1

theorem phases_cover_adjacent :
    let g₀ := draw .insertion [⟨"a", "b"⟩, ⟨"b", "c"⟩, ⟨"a", "c"⟩]
    let g := g₀.run [.insert (.text "x") (.text "c")]
    let stops := ["b", "x", "c"]
    ofItems .insertion [.tuple [.text "a", .text "b"], .list [.text "b", .text "c"],
        .tuple [.text "a", .text "c"]] = .ok g₀ ∧
      ⟨"b", "x"⟩ ∈ g.connections ∧
      ∃ x, g.Opens stops x ∧
        ∃ sub, g.subset x stops = .ok sub ∧ ⟨"b", "x"⟩ ∈ sub.connections ∧
          ∀ c time, Yields c (subset c time g (.text x) (.set (stops.map .text))).result sub := by
  have hg : ofItems .insertion [.tuple [.text "a", .text "b"], .list [.text "b", .text "c"],
      .tuple [.text "a", .text "c"]] =
        .ok (draw .insertion [⟨"a", "b"⟩, ⟨"b", "c"⟩, ⟨"a", "c"⟩]) := by cbv
  have hd : ⟨"b", "x"⟩ ∈ ((draw .insertion [⟨"a", "b"⟩, ⟨"b", "c"⟩, ⟨"a", "c"⟩]).run
      [.insert (.text "x") (.text "c")]).connections := by
    decide +kernel
  exact ⟨hg, hd, (phases_cover hg _ ["b", "x", "c"]).2.1 _ hd⟩

end Planner

end Pipeline
