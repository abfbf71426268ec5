import Pipeline.Proofs.Splice

namespace Pipeline.Graph

open Pipeline.Path

variable {g : Graph} {e : End} {s t : String} {cs ds : List Connection} {c : Connection}

theorem mem_stages_addStage : s ∈ (g.addStage t).stages ↔ s ∈ g.stages ∨ s = t := by
  unfold addStage
  split
  · rename_i ht
    exact ⟨.inl, fun h => h.elim id (· ▸ ht)⟩
  · simp

theorem nodup_addStage (h : g.stages.Nodup) (t : String) : (g.addStage t).stages.Nodup := by
  unfold addStage
  split
  · exact h
  · rename_i ht
    refine List.nodup_append.2 ⟨h, by simp, fun s hs u hu hsu => ?_⟩
    exact ht (List.mem_singleton.1 hu ▸ hsu ▸ hs)

theorem edges_addStage (g : Graph) (t : String) : (g.addStage t).edges = g.edges := by
  unfold addStage
  split <;> rfl

theorem stages_connect (g : Graph) (c : Connection) :
    (g.connect c).stages = ((g.addStage c.tail).addStage c.head).stages := by
  unfold connect
  dsimp only
  split <;> rfl

theorem edges_connect (g : Graph) (c : Connection) :
    (g.connect c).edges = if c ∈ g.edges then g.edges else g.edges ++ [c] := by
  unfold connect
  simp only [edges_addStage]
  split
  · rw [edges_addStage, edges_addStage]
  · rfl

/-- Connections drawn so far: each once, between the stages they name. -/
structure Drawn (cs : List Connection) (g : Graph) : Prop where
  stages_nodup : g.stages.Nodup
  edges_nodup : g.edges.Nodup
  mem_stages : ∀ s, s ∈ g.stages ↔ s ∈ endpoints cs
  mem_edges : ∀ c, c ∈ g.edges ↔ c ∈ cs

theorem Drawn.connect (h : Drawn cs g) (c : Connection) : Drawn (cs ++ [c]) (g.connect c) where
  stages_nodup := by
    rw [stages_connect]
    exact nodup_addStage (nodup_addStage h.stages_nodup _) _
  edges_nodup := by
    rw [edges_connect]
    split
    · exact h.edges_nodup
    · rename_i hc
      refine List.nodup_append.2 ⟨h.edges_nodup, by simp, fun d hd b hb hdb => ?_⟩
      exact hc (List.mem_singleton.1 hb ▸ hdb ▸ hd)
  mem_stages s := by
    rw [stages_connect, mem_stages_addStage, mem_stages_addStage, h.mem_stages]
    simp [endpoints, or_assoc]
  mem_edges d := by
    rw [edges_connect, List.mem_append, List.mem_singleton]
    split
    · rename_i hc
      rw [h.mem_edges]
      exact ⟨.inl, fun hd => hd.elim id fun hd => hd ▸ (h.mem_edges c).1 hc⟩
    · rw [List.mem_append, List.mem_singleton, h.mem_edges]

theorem Drawn.foldl_connect (h : Drawn cs g) (ds : List Connection) :
    Drawn (cs ++ ds) (ds.foldl Graph.connect g) := by
  induction ds generalizing cs g with
  | nil => simpa using h
  | cons c ds ih => simpa using ih (h.connect c)

theorem drawn_empty (t : TieBreak) : Drawn [] (empty t) :=
  ⟨.nil, .nil, by simp [empty, endpoints], by simp [empty]⟩

theorem foldl_refresh_eq (l : List String) (g : Graph) :
    ∃ sources sinks, l.foldl refresh g = { g with sources, sinks } := by
  induction l generalizing g with
  | nil => exact ⟨g.sources, g.sinks, rfl⟩
  | cons s l ih =>
    obtain ⟨sources, sinks, h⟩ := ih (g.refresh s)
    exact ⟨sources, sinks, h⟩

theorem mem_members_foldl_refresh (l : List String) :
    s ∈ ((l.foldl refresh g).frontier e).members ↔
      if s ∈ l then g.stands e s = true else s ∈ (g.frontier e).members := by
  induction l generalizing g with
  | nil => simp
  | cons t l ih =>
    have hstands : (g.refresh t).stands e s = g.stands e s := by cases e <;> rfl
    rw [List.foldl_cons, ih, mem_members_refresh, hstands]
    by_cases hl : s ∈ l
    · simp [hl]
    · by_cases hst : s = t <;> simp [hl, hst]

theorem inOrder_foldl_refresh (h : (g.frontier e).InOrder g.entry) (l : List String) :
    ((l.foldl refresh g).frontier e).InOrder (l.foldl refresh g).entry := by
  induction l generalizing g with
  | nil => exact h
  | cons s l ih => exact ih (inOrder_refresh h s)

/-- Stages enter one by one behind the others. What lasts when one enters and does not look at
connections lasts until all connections are drawn. -/
theorem foldl_connect_keeps {P : Graph → Prop}
    (henter : ∀ {g h : Graph} {n : String}, n ∉ g.stages → h.stages = g.stages ++ [n] →
      h.ranks = (n, g.nextRank) :: g.ranks → h.nextRank = g.nextRank + 1 → P g → P h)
    (hedges : ∀ {g : Graph} (cs : List Connection), P g → P { g with edges := cs })
    (cs : List Connection) (hg : P g) : P (cs.foldl connect g) := by
  have hadd : ∀ {g : Graph} (s : String), P g → P (g.addStage s) := by
    intro g s hg
    unfold addStage
    split
    · exact hg
    · rename_i hs
      exact henter hs rfl rfl rfl hg
  induction cs generalizing g with
  | nil => exact hg
  | cons c cs ih =>
    apply ih
    have hadded := hadd c.head (hadd c.tail hg)
    unfold connect
    dsimp only
    split
    · exact hadded
    · exact hedges _ hadded

theorem tieBreak_connect (g : Graph) (c : Connection) : (g.connect c).tieBreak = g.tieBreak := by
  unfold connect addStage
  dsimp only
  split <;> split <;> split <;> rfl

theorem tieBreak_foldl_connect (g : Graph) (cs : List Connection) :
    (cs.foldl connect g).tieBreak = g.tieBreak := by
  induction cs generalizing g with
  | nil => rfl
  | cons c cs ih => rw [List.foldl_cons, ih, tieBreak_connect]

theorem draw_eq (t : TieBreak) (cs : List Connection) :
    ∃ sources sinks, draw t cs = { cs.foldl connect (empty t) with sources, sinks } :=
  foldl_refresh_eq _ _

theorem tieBreak_draw (t : TieBreak) (cs : List Connection) : (draw t cs).tieBreak = t := by
  obtain ⟨sources, sinks, h⟩ := draw_eq t cs
  rw [h]
  exact tieBreak_foldl_connect _ _

theorem drawn_draw (t : TieBreak) (cs : List Connection) : Drawn cs (draw t cs) := by
  obtain ⟨sources, sinks, h⟩ := draw_eq t cs
  obtain ⟨hs, he, hms, hme⟩ := (drawn_empty t).foldl_connect cs
  rw [h]
  exact ⟨hs, he, hms, hme⟩

theorem Drawn.joined (h : Drawn cs g) (hc : c ∈ g.edges) :
    c.tail ∈ g.stages ∧ c.head ∈ g.stages := by
  have hcs := (h.mem_edges c).1 hc
  exact ⟨(h.mem_stages _).2 (mem_endpoints.2 ⟨c, hcs, .inl rfl⟩),
    (h.mem_stages _).2 (mem_endpoints.2 ⟨c, hcs, .inr rfl⟩)⟩

theorem draw_eq_foldl_refresh (t : TieBreak) (cs : List Connection) :
    ∃ g : Graph, draw t cs = g.stages.foldl refresh g ∧ (draw t cs).stages = g.stages ∧
      (draw t cs).edges = g.edges ∧ (draw t cs).entry = g.entry ∧ ∀ e, g.frontier e = .empty := by
  obtain ⟨sources, sinks, h⟩ := draw_eq t cs
  refine ⟨{ cs.foldl connect (empty t) with sources := .empty, sinks := .empty }, rfl,
    ?_, ?_, ?_, ?_⟩
  · rw [h]
  · rw [h]
  · rw [h]
    rfl
  · intro e
    cases e <;> rfl

theorem sound_draw (t : TieBreak) (cs : List Connection) : (draw t cs).Sound where
  stages_nodup := (drawn_draw t cs).stages_nodup
  edges_nodup := (drawn_draw t cs).edges_nodup
  joined _ := (drawn_draw t cs).joined
  members e s := by
    have hd := drawn_draw t cs
    obtain ⟨g, hdraw, hstages, hedges, -, hempty⟩ := draw_eq_foldl_refresh t cs
    have hmem : s ∈ ((draw t cs).frontier e).members ↔ s ∈ g.stages ∧ g.stands e s = true := by
      rw [hdraw, mem_members_foldl_refresh, hempty]
      by_cases hs : s ∈ g.stages <;> simp [hs, Frontier.empty]
    rw [hmem, hstages, hedges]
    apply and_congr_right
    intro hs
    obtain ⟨c, hc, hsc⟩ := mem_endpoints.1 ((hd.mem_stages s).1 (hstages ▸ hs))
    have hce : c ∈ g.edges := hedges ▸ (hd.mem_edges c).2 hc
    exact stands_iff_free hce (hsc.imp Eq.symm Eq.symm)
  inOrder e := by
    obtain ⟨g, hdraw, -, -, -, hempty⟩ := draw_eq_foldl_refresh t cs
    rw [hdraw]
    apply inOrder_foldl_refresh
    rw [hempty]
    exact .empty

end Pipeline.Graph
