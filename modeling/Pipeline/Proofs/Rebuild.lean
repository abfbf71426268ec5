import Pipeline.Proofs.Alike
import Pipeline.Proofs.ValidateAfterEdits

namespace Pipeline.Path

open Relation

variable {cs : List Connection} {stages : List String} {s t : String}

theorem mem_endpoints_of_eqvGen (h : EqvGen (Leads cs) s t) :
    s = t ∨ s ∈ endpoints cs ∧ t ∈ endpoints cs := by
  induction h with
  | rel a b hab => exact .inr (mem_endpoints_of_way (e := .source) hab)
  | refl a => exact .inl rfl
  | symm a b _ ih => exact ih.imp Eq.symm And.symm
  | trans a b c _ _ ihab ihbc =>
    obtain rfl | ⟨ha, hb⟩ := ihab
    · exact ihbc
    · obtain rfl | ⟨-, hc⟩ := ihbc
      · exact .inr ⟨ha, hb⟩
      · exact .inr ⟨ha, hc⟩

theorem connected_iff_endpoints (hne : cs ≠ [])
    (hj : ∀ c ∈ cs, c.tail ∈ stages ∧ c.head ∈ stages) :
    Connected stages cs ↔
      Connected (endpoints cs) cs ∧ ∀ s, s ∈ endpoints cs ↔ s ∈ stages := by
  have hsub : ∀ s ∈ endpoints cs, s ∈ stages := by
    intro s hs
    obtain ⟨c, hc, rfl | rfl⟩ := mem_endpoints.1 hs
    · exact (hj c hc).1
    · exact (hj c hc).2
  constructor
  · intro h
    refine ⟨fun a ha b hb => h a (hsub a ha) b (hsub b hb), fun s => ⟨hsub s, fun hs => ?_⟩⟩
    obtain ⟨c, hc⟩ := List.exists_mem_of_ne_nil cs hne
    obtain rfl | ⟨hs, -⟩ := mem_endpoints_of_eqvGen (h s hs c.tail (hj c hc).1)
    · exact mem_endpoints.2 ⟨c, hc, .inl rfl⟩
    · exact hs
  · rintro ⟨h, hends⟩ a ha b hb
    exact h a ((hends a).2 ha) b ((hends b).2 hb)

end Pipeline.Path

namespace Pipeline.Graph

open Pipeline.Path Relation Connection

variable {g h : Graph} {t u : TieBreak} {items : List Value} {cs : List Connection}

/-- What graphs are compared by. -/
structure Views where
  stages : Finset String
  sources : Finset String
  sinks : Finset String
  edges : Finset Connection
deriving DecidableEq

def views (g : Graph) : Views :=
  ⟨g.stages.toFinset, g.sources.members.toFinset, g.sinks.members.toFinset, g.edges.toFinset⟩

/-- The hash of a graph is mixed of what graphs are compared by. -/
def hash (mix : Views → Int) (g : Graph) : Int := mix g.views

theorem same_iff_views : g.same h = true ↔ g.views = h.views := by
  simp only [same, Bool.and_eq_true, sameMembers_iff, views, Views.mk.injEq, Finset.ext_iff,
    List.mem_toFinset, and_assoc]

def Named (g : Graph) : Prop := ∀ s ∈ g.stages, s ≠ ""

theorem named_draw (t : TieBreak) (hitems : List.Forall₂ Denotes items cs) :
    (draw t cs).Named := by
  have hall : ∀ c ∈ cs, c.tail ≠ "" ∧ c.head ≠ "" := by
    induction hitems with
    | nil => simp
    | cons hd _ ih => exact List.forall_mem_cons.2 ⟨hd.2, ih⟩
  intro s hs
  obtain ⟨c, hc, rfl | rfl⟩ := mem_endpoints.1 (((drawn_draw t cs).mem_stages s).1 hs)
  · exact (hall c hc).1
  · exact (hall c hc).2

theorem Named.run (hg : g.Named) (es : List Edit) : (g.run es).Named := by
  induction es generalizing g with
  | nil => exact hg
  | cons call es ih =>
    show ((g.edit call).run es).Named
    apply ih
    obtain ⟨hedit, -⟩ | ⟨n, s, hne, -, -, hedit, -⟩ | ⟨e, hedit, -⟩ := edit_cases g call
    · rwa [hedit]
    · rw [hedit]
      intro x hx
      obtain hx | hx := List.mem_append.1 hx
      · exact hg x hx
      · exact List.mem_singleton.1 hx ▸ hne
    · rw [hedit]
      exact fun x hx => hg x ((remove_subset g e).1 hx)

theorem Named.ofItems_connections (hg : g.Named) (hb : g.Books) (u : TieBreak) :
    ofItems u (g.connections.map toValue) = ofConnections u g.connections := by
  refine ofItems_eq u (List.forall₂_map_left_iff.2 (List.forall₂_same.2 fun c hc => ?_))
  have hends := hb.joined c (hb.mem_connections_iff.1 hc)
  exact ⟨rfl, hg _ hends.1, hg _ hends.2⟩

theorem Valid.rebuilt_same_iff (hv : g.Valid) (hg : g.Seated) (u : TieBreak) :
    (∃ h, ofConnections u g.connections = .ok h ∧ h.same g = true) ↔
      g.connections ≠ [] ∧ g.validate = .ok () := by
  have hb := hv.toBooks
  by_cases hne : g.connections = []
  · refine iff_of_false ?_ fun h => h.1 hne
    rintro ⟨h, hok, -⟩
    rw [hne] at hok
    cases hok
  have hleads : Leads g.connections = Leads g.edges := by
    funext a b
    exact propext hb.mem_connections_iff
  have hacyclic : ¬Cyclic g.connections := by
    rw [Cyclic, hleads]
    exact hv.acyclic
  have hstages : g.stages ≠ [] := by
    obtain ⟨c, hc⟩ := List.exists_mem_of_ne_nil _ hne
    exact List.ne_nil_of_mem (mem_connections.1 hc).2
  -- The rebuilt graph has the connections, so the stages decide whether it is the same.
  have hsame : (draw u g.connections).same g = true ↔
      ∀ s, s ∈ endpoints g.connections ↔ s ∈ g.stages := by
    have hd := drawn_draw u g.connections
    rw [(sound_draw u g.connections).toBooks.same_iff hb]
    simp only [hd.mem_stages, hd.mem_edges, hb.mem_connections_iff, implies_true, and_true]
  have hconnected : Connected g.stages g.edges ↔ Connected g.stages g.connections := by
    simp only [Connected, hleads]
  rw [hv.validate_eq_ok_iff hg, hconnected, connected_iff_endpoints hne
    fun c hc => hb.joined c (hb.mem_connections_iff.1 hc)]
  simp only [ofConnections_eq_ok_iff u hne]
  constructor
  · rintro ⟨h, ⟨rfl, -, hc⟩, hs⟩
    exact ⟨hne, hstages, hc, hsame.1 hs⟩
  · rintro ⟨-, -, hc, hs⟩
    exact ⟨_, ⟨rfl, hacyclic, hc⟩, hsame.2 hs⟩

end Pipeline.Graph

namespace Pipeline.Planner

open Pipeline.Graph Connection

variable {c : Log.Config} {time : String} {t : TieBreak} {items : List Value}

theorem rebuild_eq_build {g : Graph} (hg : g.Named) (hb : g.Books) (c : Log.Config)
    (time : String) (u : TieBreak) :
    rebuild c time g (some (.text u.text)) =
      build c time (.list (g.connections.map toValue)) (some (.text u.text)) := by
  have hu : tieBreakOf (some (.text u.text)) = .ok u := by
    simp [tieBreakOf, TieBreak.ofValue, TieBreak.ofText?_text, Except.mapError]
  unfold rebuild build
  rw [hu]
  show announced c time _ = announced c time _
  rw [hg.ofItems_connections hb]

/-- After any calls and under either rule, building a graph anew of its own connections makes the
same graph, of the same hash, exactly when the graph has a connection and passes its check. In all
other cases it fails or makes another graph. -/
theorem rebuild_round_trip {g₀ : Graph} (hg : ofItems t items = .ok g₀) (es : List Edit)
    (u : TieBreak)
    (hlog : ∀ h, ofItems u ((g₀.run es).connections.map toValue) = .ok h →
      (passed c time h).result = .ok ()) :
    let g := g₀.run es
    let r := (build c time (.list (g.connections.map toValue)) (some (.text u.text))).result
    (rebuild c time g (some (.text u.text))).result = r ∧
      ((∃ h, r = .ok h ∧ h.same g = true ∧ ∀ mix, h.hash mix = g.hash mix) ↔
        g.connections ≠ [] ∧ g.validate = .ok ()) ∧
      (¬(g.connections ≠ [] ∧ g.validate = .ok ()) →
        (∃ f, r = .error f) ∨ ∃ h, r = .ok h ∧ h.same g = false) := by
  obtain ⟨cs, hitems, hdraw, hvalid⟩ := valid_of_ofItems hg
  have hv := hvalid.run es
  have hseated := seated_run hvalid (hdraw ▸ seated_draw t cs) es
  have hnamed : (g₀.run es).Named := (hdraw ▸ named_draw t hitems : g₀.Named).run es
  dsimp only
  generalize g₀.run es = g at *
  have hrebuilt := hv.rebuilt_same_iff hseated u
  rw [rebuild_eq_build hnamed hv.toBooks, build_eq hlog, hnamed.ofItems_connections hv.toBooks]
  cases hmade : ofConnections u g.connections with
  | error e =>
    rw [hmade] at hrebuilt
    rw [← hrebuilt]
    exact ⟨rfl, by simp [Except.mapError], fun _ => .inl ⟨_, rfl⟩⟩
  | ok h =>
    simp only [hmade, Except.ok.injEq, exists_eq_left'] at hrebuilt
    rw [← hrebuilt]
    refine ⟨rfl, ⟨?_, fun hs => ⟨h, rfl, hs, fun mix => ?_⟩⟩, fun hs => .inr ⟨h, rfl, ?_⟩⟩
    · rintro ⟨k, hk, hs, -⟩
      cases hk
      exact hs
    · exact congrArg mix (same_iff_views.1 hs)
    · exact Bool.not_eq_true _ ▸ hs

theorem rebuild_round_trip_edited :
    let g₀ := draw .insertion [⟨"a", "c"⟩, ⟨"b", "c"⟩, ⟨"c", "d"⟩, ⟨"c", "e"⟩]
    let g := g₀.run [.insert (.text "x") (.text "c"), .remove .sink]
    let r := (build ⟨.json, 10, 1, []⟩ "" (.list (g.connections.map toValue))
      (some (.text TieBreak.lexicographic.text))).result
    ofItems .insertion [.tuple [.text "a", .text "c"], .list [.text "b", .text "c"],
        .tuple [.text "c", .text "d"], .tuple [.text "c", .text "e"]] = .ok g₀ ∧
      (∀ h, ofItems .lexicographic (g.connections.map toValue) = .ok h →
        (passed ⟨.json, 10, 1, []⟩ "" h).result = .ok ()) ∧
      ∃ h, r = .ok h ∧ h.same g = true ∧ ∀ mix, h.hash mix = g.hash mix := by
  have hg : ofItems .insertion [.tuple [.text "a", .text "c"], .list [.text "b", .text "c"],
      .tuple [.text "c", .text "d"], .tuple [.text "c", .text "e"]] =
        .ok (draw .insertion [⟨"a", "c"⟩, ⟨"b", "c"⟩, ⟨"c", "d"⟩, ⟨"c", "e"⟩]) := by cbv
  have hlog : ∀ h, ofItems .lexicographic
      (((draw .insertion [⟨"a", "c"⟩, ⟨"b", "c"⟩, ⟨"c", "d"⟩, ⟨"c", "e"⟩]).run
        [.insert (.text "x") (.text "c"), .remove .sink]).connections.map toValue) = .ok h →
          (passed ⟨.json, 10, 1, []⟩ "" h).result = .ok () := fun _ _ => rfl
  have h := rebuild_round_trip hg _ .lexicographic hlog
  exact ⟨hg, hlog, h.2.1.2 ⟨by decide +kernel, by cbv⟩⟩

end Pipeline.Planner
