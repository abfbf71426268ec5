import Pipeline.Proofs.FailedInsert
import Pipeline.Proofs.Twin

namespace Pipeline.Graph

open Connection

variable {g : Graph} {t : TieBreak} {items : List Value} {p : String × String}
  {ps qs before after : List (String × String)} {c : Connection} {s : String}

/-- The call that splices the first name in, in front of the second. -/
def placing (p : String × String) : Edit := .insert (.text p.1) (.text p.2)

def placed (ps : List (String × String)) : List (String × String) := ps.filter (·.1 ≠ "")

/-- New names that differ, each with an old stage of its own. -/
structure Apart (g : Graph) (ps : List (String × String)) : Prop where
  names : (ps.map Prod.fst).Nodup
  targets : (ps.map Prod.snd).Nodup
  new : ∀ p ∈ ps, p.1 ∉ g.stages
  old : ∀ p ∈ ps, p.2 ∈ g.stages

instance (g : Graph) (ps : List (String × String)) : Decidable (g.Apart ps) :=
  decidable_of_iff (((ps.map Prod.fst).Nodup ∧ (ps.map Prod.snd).Nodup) ∧
    (∀ p ∈ ps, p.1 ∉ g.stages) ∧ ∀ p ∈ ps, p.2 ∈ g.stages)
    ⟨fun ⟨⟨names, targets⟩, new, old⟩ => ⟨names, targets, new, old⟩,
      fun ⟨names, targets, new, old⟩ => ⟨⟨names, targets⟩, new, old⟩⟩

theorem Apart.perm (ha : g.Apart ps) (hqs : qs.Perm ps) : g.Apart qs where
  names := (hqs.map Prod.fst).nodup_iff.2 ha.names
  targets := (hqs.map Prod.snd).nodup_iff.2 ha.targets
  new p hp := ha.new p (hqs.mem_iff.1 hp)
  old p hp := ha.old p (hqs.mem_iff.1 hp)

theorem insert_empty (hn : "" ∉ g.stages) (hs : s ∈ g.stages) :
    g.insert (.text "") (.text s) = .error (.badName (.text "")) := by
  have hstage : g.stage? (.text s) = some s := stage?_eq_some_iff.2 ⟨rfl, hs⟩
  have hhas := has_text_eq_false hn
  simp [insert, hstage, hhas, Value.stageName?, throw, throwThe, MonadExceptOf.throw]

theorem insert_new (hne : p.1 ≠ "") (hn : p.1 ∉ g.stages) (hs : p.2 ∈ g.stages) :
    g.insert (.text p.1) (.text p.2) = .ok (g.splice p.1 p.2) :=
  insert_eq_ok_iff.2 ⟨p.1, p.2, rfl, rfl, hne, hn, hs, rfl⟩

theorem Apart.edit_cases (ha : g.Apart (p :: ps)) :
    (placed (p :: ps) = placed ps ∧ g.edit (placing p) = g) ∨
      placed (p :: ps) = p :: placed ps ∧ g.edit (placing p) = g.splice p.1 p.2 := by
  have hn := ha.new p List.mem_cons_self
  have hs := ha.old p List.mem_cons_self
  by_cases hne : p.1 = ""
  · left
    rw [hne] at hn
    simp [placed, placing, edit, hne, insert_empty hn hs]
  · right
    simp [placed, placing, edit, hne, insert_new hne hn hs]

theorem Apart.edit (ha : g.Apart (p :: ps)) : (g.edit (placing p)).Apart ps := by
  have hnames := List.nodup_cons.1 ha.names
  have htargets := List.nodup_cons.1 ha.targets
  have hnew : ∀ q ∈ ps, q.1 ∉ g.stages := fun q hq => ha.new q (List.mem_cons_of_mem _ hq)
  have hold : ∀ q ∈ ps, q.2 ∈ g.stages := fun q hq => ha.old q (List.mem_cons_of_mem _ hq)
  obtain ⟨-, hedit⟩ | ⟨-, hedit⟩ := ha.edit_cases
  · rw [hedit]
    exact ⟨hnames.2, htargets.2, hnew, hold⟩
  · rw [hedit]
    refine ⟨hnames.2, htargets.2, fun q hq hmem => ?_, fun q hq => ?_⟩
    · obtain hmem | heq := mem_stages_splice.1 hmem
      · exact hnew q hq hmem
      · exact hnames.1 (heq ▸ List.mem_map_of_mem hq)
    · exact mem_stages_splice.2 (.inl (hold q hq))

theorem Apart.run (ha : g.Apart (before ++ after)) :
    (g.run (before.map placing)).Apart after := by
  induction before generalizing g with
  | nil => exact ha
  | cons p before ih => exact ih ha.edit

theorem Apart.mem_stages_run (ha : g.Apart ps) :
    s ∈ (g.run (ps.map placing)).stages ↔ s ∈ g.stages ∨ ∃ p ∈ placed ps, s = p.1 := by
  induction ps generalizing g with
  | nil => simp [placed, Graph.run]
  | cons p ps ih =>
    refine (ih ha.edit).trans ?_
    obtain ⟨hplaced, hedit⟩ | ⟨hplaced, hedit⟩ := ha.edit_cases
    · rw [hedit, hplaced]
    · rw [hedit, hplaced, mem_stages_splice]
      simp [or_assoc]

theorem mem_splicedEdges_of_ne {n s : String} (hn : c.head ≠ n) (hs : c.head ≠ s) :
    c ∈ g.splicedEdges n s ↔ c ∈ g.edges := by
  have hnew : c ≠ ⟨n, s⟩ := fun he => hs (he ▸ rfl)
  simp [mem_splicedEdges, hn, hs, hnew]

theorem mem_splicedEdges_and {n s : String} {l : List (String × String)} (hn : ∀ q ∈ l, n ≠ q.2)
    (hs : ∀ q ∈ l, s ≠ q.2) : (c ∈ g.splicedEdges n s ∧ ∀ q ∈ l, c.head ≠ q.2) ↔
      (c ∈ g.edges ∧ c.head ≠ s ∧ ∀ q ∈ l, c.head ≠ q.2) ∨
        (c.head = n ∧ ⟨c.tail, s⟩ ∈ g.edges) ∨ c = ⟨n, s⟩ := by
  rw [mem_splicedEdges]
  -- What was led to the new stage or leads on from it leads to none of the other places.
  constructor
  · rintro ⟨⟨hc, hh⟩ | ⟨hc, hh⟩ | rfl, hall⟩
    · exact .inl ⟨hc, hh, hall⟩
    · exact .inr (.inl ⟨hh, hc⟩)
    · exact .inr (.inr rfl)
  · rintro (⟨hc, hh, hall⟩ | ⟨hh, hc⟩ | rfl)
    · exact ⟨.inl ⟨hc, hh⟩, hall⟩
    · exact ⟨.inr (.inl ⟨hc, hh⟩), fun q hq => hh ▸ hn q hq⟩
    · exact ⟨.inr (.inr rfl), hs⟩

/-- The connections that connectors lead to, with no order among the connectors: those into a
place lead to its connector, which leads on to it alone. -/
theorem Apart.mem_edges_run (ha : g.Apart ps) :
    c ∈ (g.run (ps.map placing)).edges ↔
      (c ∈ g.edges ∧ ∀ p ∈ placed ps, c.head ≠ p.2) ∨
        (∃ p ∈ placed ps, c.head = p.1 ∧ ⟨c.tail, p.2⟩ ∈ g.edges) ∨
          ∃ p ∈ placed ps, c = ⟨p.1, p.2⟩ := by
  induction ps generalizing g with
  | nil => simp [placed, Graph.run]
  | cons p ps ih =>
    -- The first goes in, and the others follow into the graph that it leaves.
    refine (ih ha.edit).trans ?_
    obtain ⟨hplaced, hedit⟩ | ⟨hplaced, hedit⟩ := ha.edit_cases
    · rw [hedit, hplaced]
    · have hsub : ∀ q ∈ placed ps, q ∈ ps := fun q hq => (List.mem_filter.1 hq).1
      -- Neither the connector at hand nor its place is the place of another.
      have hname : ∀ q ∈ placed ps, p.1 ≠ q.2 := fun q hq he =>
        ha.new p List.mem_cons_self (he ▸ ha.old q (List.mem_cons_of_mem _ (hsub q hq)))
      have hplace : ∀ q ∈ placed ps, p.2 ≠ q.2 := fun q hq he =>
        (List.nodup_cons.1 ha.targets).1 (he ▸ List.mem_map_of_mem (hsub q hq))
      have hmoved : (∃ q ∈ placed ps, c.head = q.1 ∧ ⟨c.tail, q.2⟩ ∈ g.splicedEdges p.1 p.2) ↔
          ∃ q ∈ placed ps, c.head = q.1 ∧ ⟨c.tail, q.2⟩ ∈ g.edges := by
        refine exists_congr fun q => and_congr_right fun hq => and_congr_right fun _ => ?_
        exact mem_splicedEdges_of_ne (hname q hq).symm (hplace q hq).symm
      have hedges : (g.splice p.1 p.2).edges = g.splicedEdges p.1 p.2 := rfl
      rw [hedit, hplaced, hedges, mem_splicedEdges_and hname hplace, hmoved]
      simp only [List.forall_mem_cons, List.exists_mem_cons_iff, or_assoc, or_left_comm]

theorem Apart.alike (ha : g.Apart ps) (hqs : qs.Perm ps) :
    Alike (g.run (qs.map placing)) (g.run (ps.map placing)) := by
  have hplaced : ∀ p, p ∈ placed qs ↔ p ∈ placed ps := fun p => (hqs.filter _).mem_iff
  refine ⟨?_, fun s => ?_, fun c => ?_⟩
  · rw [tieBreak_run, tieBreak_run]
  · rw [(ha.perm hqs).mem_stages_run, ha.mem_stages_run]
    simp only [hplaced]
  · rw [(ha.perm hqs).mem_edges_run, ha.mem_edges_run]
    simp only [hplaced]

/-- Connectors that are apart go into a graph of any history in any order, but for one without a
name, which is refused and changes nothing. The graphs they lead to are the same, and by name so
are the orders found. -/
theorem connectors_commute {g₀ : Graph} (hg : ofItems t items = .ok g₀) (es : List Edit)
    (hps : (g₀.run es).Apart ps) (hqs : qs.Perm ps) :
    let g := g₀.run es
    let h := g.run (qs.map placing)
    (∀ before p after, qs = before ++ p :: after →
      let now := g.run (before.map placing)
      (p.1 = "" → ∀ c time, Planner.insert c time now (.text p.1) (.text p.2) =
          (now, .failed (.graph (.badName (.text p.1))))) ∧
        (p.1 ≠ "" → ∃ next, now.insert (.text p.1) (.text p.2) = .ok next ∧
          ∀ c time, (Planner.insert c time now (.text p.1) (.text p.2)).1 = next ∧
            (Planner.Unspoilt c.context →
              (Planner.insert c time now (.text p.1) (.text p.2)).2.result = .ok ()))) ∧
      (∀ s, s ∈ h.stages ↔ s ∈ g.stages ∨ ∃ p ∈ placed ps, s = p.1) ∧
      (∀ c, c ∈ h.connections ↔ (c ∈ g.connections ∧ ∀ p ∈ placed ps, c.head ≠ p.2) ∨
        (∃ p ∈ placed ps, c.head = p.1 ∧ ⟨c.tail, p.2⟩ ∈ g.connections) ∨
          ∃ p ∈ placed ps, c = ⟨p.1, p.2⟩) ∧
      h.same (g.run (ps.map placing)) = true ∧
      (t = .lexicographic → ∃ order, h.linearize = .ok order ∧
        (g.run (ps.map placing)).linearize = .ok order) := by
  obtain ⟨hkept₀, ht₀⟩ := kept_of_ofItems hg
  have ht := (tieBreak_run g₀ es).trans ht₀
  have hkept := hkept₀.run es
  dsimp only
  generalize g₀.run es = g at hps ht hkept
  have ha := hps.alike hqs
  have hh : (g.run (qs.map placing)).Kept := hkept.run _
  have hk : (g.run (ps.map placing)).Kept := hkept.run _
  refine ⟨fun before p after hsplit => ?_, fun s => (ha.stages s).trans hps.mem_stages_run,
    fun c => ?_, ha.same hh.toBooks hk.toBooks, fun hname => ?_⟩
  · have hnow : (g.run (before.map placing)).Apart (p :: after) := (hsplit ▸ hps.perm hqs).run
    have hn := hnow.new p List.mem_cons_self
    have hs := hnow.old p List.mem_cons_self
    refine ⟨fun hempty c time => ?_, fun hne => ?_⟩
    · rw [hempty] at hn ⊢
      rw [Planner.insert, insert_empty hn hs]
    · have hi := insert_new hne hn hs
      refine ⟨_, hi, fun c time => ?_⟩
      obtain ⟨hnext, hresult⟩ := Planner.insert_of_ok c time hi
      exact ⟨hnext, hresult.2⟩
  · simp only [hh.mem_connections_iff, hkept.mem_connections_iff]
    exact (ha.edges c).trans hps.mem_edges_run
  · have htwins : Twins (g.run (qs.map placing)) (g.run (ps.map placing)) :=
      ⟨ha, (tieBreak_run g _).trans (ht.trans hname), hh, hk⟩
    have horder := linearize_eq_ok hh.toSound hh.acyclic
    exact ⟨_, horder, htwins.linearize_eq ▸ horder⟩

theorem connectors_commute_chained :
    let g₀ := draw .lexicographic [⟨"a", "b"⟩, ⟨"b", "c"⟩, ⟨"d", "c"⟩]
    let g := g₀.run [.remove .sink]
    let ps := [("x", "b"), ("y", "a"), ("z", "d")]
    ofItems .lexicographic [.tuple [.text "a", .text "b"], .list [.text "b", .text "c"],
        .connection (.text "d") (.text "c")] = .ok g₀ ∧
      g.Apart ps ∧ "a" ∈ g.sources.members ∧ "b" ∈ g.outputs "a" ∧ "d" ∈ g.sources.members ∧
      "d" ∈ g.sinks.members ∧
      (∃ next, (g.run ([("z", "d"), ("y", "a")].map placing)).insert (.text "x") (.text "b") =
        .ok next) ∧
      ∀ qs : List (String × String), qs.Perm ps →
        (g.run (qs.map placing)).same (g.run (ps.map placing)) = true ∧
        (g.run (qs.map placing)).linearize = .ok ["y", "a", "x", "b", "z", "d"] := by
  have hg : ofItems .lexicographic [.tuple [.text "a", .text "b"], .list [.text "b", .text "c"],
      .connection (.text "d") (.text "c")] =
        .ok (draw .lexicographic [⟨"a", "b"⟩, ⟨"b", "c"⟩, ⟨"d", "c"⟩]) := by cbv
  have hps : ((draw .lexicographic [⟨"a", "b"⟩, ⟨"b", "c"⟩, ⟨"d", "c"⟩]).run
      [.remove .sink]).Apart [("x", "b"), ("y", "a"), ("z", "d")] := by
    decide +kernel
  have hlast : [("z", "d"), ("y", "a"), ("x", "b")].Perm
      [("x", "b"), ("y", "a"), ("z", "d")] := by
    decide +kernel
  have horder : (((draw .lexicographic [⟨"a", "b"⟩, ⟨"b", "c"⟩, ⟨"d", "c"⟩]).run
      [.remove .sink]).run ([("x", "b"), ("y", "a"), ("z", "d")].map placing)).linearize =
        .ok ["y", "a", "x", "b", "z", "d"] := by
    cbv
  refine ⟨hg, hps, by decide +kernel, by decide +kernel, by decide +kernel, by decide +kernel, ?_,
    fun qs hqs => ?_⟩
  · obtain ⟨next, hnext, -⟩ := ((connectors_commute hg _ hps hlast).1
      [("z", "d"), ("y", "a")] ("x", "b") [] rfl).2 (by decide)
    exact ⟨next, hnext⟩
  · obtain ⟨-, -, -, hsame, hfound⟩ := connectors_commute hg _ hps hqs
    obtain ⟨order, hleft, hright⟩ := hfound rfl
    refine ⟨hsame, hleft.trans ?_⟩
    rw [← hright, horder]

/-- The empty name is no stage of the graph, and it does not go in. -/
theorem connectors_commute_nameless :
    let g := draw .lexicographic [⟨"a", "b"⟩]
    let c : Log.Config := ⟨.json, 30, 1, []⟩
    ofItems .lexicographic [.tuple [.text "a", .text "b"]] = .ok g ∧ g.Apart [("", "b")] ∧
      g.insert (.text "") (.text "b") = .error (.badName (.text "")) ∧
      (Planner.insert c "" g (.text "") (.text "b")).2.result =
        .error (.graph (.badName (.text ""))) ∧
      (Planner.insert c "" g (.text "") (.text "b")).1.stages = ["a", "b"] := by
  refine ⟨by cbv, by decide +kernel, by cbv, by cbv, by decide +kernel⟩

end Pipeline.Graph
