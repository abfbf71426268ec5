import Pipeline.Graph.Edit
import Pipeline.Proofs.Path
import Pipeline.Proofs.Queue

namespace Pipeline.Graph

open Pipeline.Path

variable {g h rest : Graph} {e : End} {s t name target : String}

/-- Stages and connections are listed once, connections join stages, and the members of an end
are the stages that are free there. -/
structure Books (g : Graph) : Prop where
  stages_nodup : g.stages.Nodup
  edges_nodup : g.edges.Nodup
  joined : ∀ c ∈ g.edges, c.tail ∈ g.stages ∧ c.head ∈ g.stages
  members : ∀ e s, s ∈ (g.frontier e).members ↔ s ∈ g.stages ∧ Free g.edges e s

/-- The books are kept and the queues of both ends are in order. -/
structure Sound (g : Graph) : Prop extends Books g where
  inOrder : ∀ e, (g.frontier e).InOrder g.entry

theorem entry_name (g : Graph) (s : String) : (g.entry s).name = s := by
  unfold entry
  split <;> rfl

theorem entry_congr (ht : g.tieBreak = h.tieBreak) (hr : g.rank s = h.rank s) :
    g.entry s = h.entry s := by
  simp only [entry, ht, hr]

theorem mem_edgesWithout {c : Connection} :
    c ∈ g.edgesWithout s ↔ c ∈ g.edges ∧ c.tail ≠ s ∧ c.head ≠ s := by
  simp [edgesWithout]

theorem touches_iff (e : End) (c : Connection) (s : String) :
    c.tail = s ∨ c.head = s ↔ e.bars c = s ∨ e.other.bars c = s := by
  cases e with
  | source => exact or_comm
  | sink => exact Iff.rfl

def freed (g : Graph) (s : String) : End → List String
  | .source => (g.outputs s).filter fun t => !(g.edgesWithout s).any (·.head = t)
  | .sink => (g.inputs s).filter fun t => !(g.edgesWithout s).any (·.tail = t)

theorem frontier_takeAway (g : Graph) (s : String) (e : End) :
    (g.takeAway s).frontier e =
      ((g.frontier e).addAll ((g.freed s e).map g.entry)).discard s := by
  cases e <;> rfl

theorem mem_freed :
    t ∈ g.freed s e ↔
      (∃ c ∈ g.edges, e.other.bars c = s ∧ e.bars c = t) ∧ Free (g.edgesWithout s) e t := by
  cases e with
  | source =>
    simp only [freed, List.mem_filter, mem_outputs, Bool.not_eq_true', List.any_eq_false,
      decide_eq_true_eq]
    refine and_congr_left fun _ => ⟨fun h => ⟨_, h, rfl, rfl⟩, ?_⟩
    rintro ⟨c, hc, rfl, rfl⟩
    exact hc
  | sink =>
    simp only [freed, List.mem_filter, mem_inputs, Bool.not_eq_true', List.any_eq_false,
      decide_eq_true_eq]
    refine and_congr_left fun _ => ⟨fun h => ⟨_, h, rfl, rfl⟩, ?_⟩
    rintro ⟨c, hc, rfl, rfl⟩
    exact hc

theorem mem_stages_of_bars (hb : g.Books) (e : End) {c : Connection} (hc : c ∈ g.edges) :
    e.bars c ∈ g.stages := by
  cases e with
  | source => exact (hb.joined c hc).2
  | sink => exact (hb.joined c hc).1

theorem Books.freed_subset (hb : g.Books) (s : String) (e : End) : g.freed s e ⊆ g.stages := by
  intro t ht
  obtain ⟨⟨c, hc, -, rfl⟩, -⟩ := mem_freed.1 ht
  exact mem_stages_of_bars hb e hc

theorem Books.nodup_bars (hb : g.Books) (e : End) (s : String) :
    ((g.edges.filter (e.bars · = s)).map e.other.bars).Nodup := by
  apply (hb.edges_nodup.filter _).map_on
  intro c hc d hd hcd
  simp only [List.mem_filter, decide_eq_true_eq] at hc hd
  cases c
  cases d
  cases e <;> simp_all [End.bars, End.other]

theorem Books.nodup_outputs (hb : g.Books) (s : String) : (g.outputs s).Nodup :=
  hb.nodup_bars .sink s

theorem Books.nodup_inputs (hb : g.Books) (s : String) : (g.inputs s).Nodup :=
  hb.nodup_bars .source s

theorem free_edgesWithout_iff (hts : t ≠ s) :
    Free (g.edgesWithout s) e t ↔ Free g.edges e t ∨ t ∈ g.freed s e := by
  constructor
  · intro hf
    by_cases hg : Free g.edges e t
    · exact .inl hg
    · simp only [Free, not_forall, not_not] at hg
      obtain ⟨c, hc, rfl⟩ := hg
      refine .inr (mem_freed.2 ⟨⟨c, hc, ?_, rfl⟩, hf⟩)
      have hgone : c ∉ g.edgesWithout s := fun hw => hf c hw rfl
      have htouch : c.tail = s ∨ c.head = s := by
        by_contra hn
        exact hgone (mem_edgesWithout.2 ⟨hc, not_or.1 hn⟩)
      exact ((touches_iff e c s).1 htouch).resolve_left hts
  · rintro (hf | hf)
    · exact fun c hc => hf c (mem_edgesWithout.1 hc).1
    · exact (mem_freed.1 hf).2

theorem Books.takeAway (hb : g.Books) (s : String) : (g.takeAway s).Books where
  stages_nodup := hb.stages_nodup.filter _
  edges_nodup := hb.edges_nodup.filter _
  joined c hc := by
    obtain ⟨hc, htail, hhead⟩ := mem_edgesWithout.1 hc
    obtain ⟨ht, hh⟩ := hb.joined c hc
    exact ⟨List.mem_filter.2 ⟨ht, by simpa using htail⟩,
      List.mem_filter.2 ⟨hh, by simpa using hhead⟩⟩
  members e t := by
    have hstages : t ∈ (g.takeAway s).stages ↔ t ∈ g.stages ∧ t ≠ s := by simp [Graph.takeAway]
    have hadded : (∃ x ∈ (g.freed s e).map g.entry, x.name = t) ↔ t ∈ g.freed s e := by
      simp [entry_name]
    rw [frontier_takeAway, Frontier.mem_members_discard, Frontier.mem_members_addAll, hadded,
      hb.members, hstages]
    constructor
    · rintro ⟨ht, hts⟩
      refine ⟨⟨?_, hts⟩, (free_edgesWithout_iff hts).2 ?_⟩
      · exact ht.elim (fun h => hb.freed_subset s e h) And.left
      · exact ht.elim .inr fun h => .inl h.2
    · rintro ⟨⟨ht, hts⟩, hf⟩
      exact ⟨((free_edgesWithout_iff hts).1 hf).elim (fun h => .inr ⟨ht, h⟩) .inl, hts⟩

/-- The stage that goes need not be queued any more. -/
theorem Books.sound_takeAway (hb : g.Books)
    (hq : ∀ e, ((g.frontier e).discard s).InOrder g.entry) : (g.takeAway s).Sound where
  toBooks := hb.takeAway s
  inOrder e := by
    rw [frontier_takeAway]
    exact (hq e).addAll_discard g.entry_name _

@[simp] theorem withFrontier_stages (f : Frontier) : (g.withFrontier e f).stages = g.stages := by
  cases e <;> rfl

@[simp] theorem withFrontier_edges (f : Frontier) : (g.withFrontier e f).edges = g.edges := by
  cases e <;> rfl

@[simp] theorem withFrontier_tieBreak (f : Frontier) :
    (g.withFrontier e f).tieBreak = g.tieBreak := by
  cases e <;> rfl

@[simp] theorem withFrontier_ranks (f : Frontier) : (g.withFrontier e f).ranks = g.ranks := by
  cases e <;> rfl

@[simp] theorem withFrontier_nextRank (f : Frontier) :
    (g.withFrontier e f).nextRank = g.nextRank := by
  cases e <;> rfl

@[simp] theorem withFrontier_entry (f : Frontier) : (g.withFrontier e f).entry = g.entry := by
  cases e <;> rfl

@[simp] theorem withFrontier_freed (f : Frontier) (d : End) :
    (g.withFrontier e f).freed s d = g.freed s d := by
  cases e <;> rfl

theorem frontier_withFrontier (g : Graph) (e d : End) (f : Frontier) :
    (g.withFrontier e f).frontier d = if d = e then f else g.frontier d := by
  cases e <;> cases d <;> rfl

theorem Books.withFrontier (hb : g.Books) {f : Frontier}
    (hf : f.members = (g.frontier e).members) : (g.withFrontier e f).Books where
  stages_nodup := by simpa using hb.stages_nodup
  edges_nodup := by simpa using hb.edges_nodup
  joined := by simpa using hb.joined
  members d s := by
    rw [frontier_withFrontier, withFrontier_stages, withFrontier_edges, ← hb.members]
    split
    · rename_i hd
      rw [hf, hd]
    · exact Iff.rfl

/-- What is left of a graph without a stage, its ends aside. -/
structure Without (g : Graph) (s : String) (rest : Graph) : Prop where
  stages : rest.stages = g.stages.filter (· ≠ s)
  edges : rest.edges = g.edgesWithout s
  tieBreak : rest.tieBreak = g.tieBreak
  ranks : rest.ranks = g.ranks
  nextRank : rest.nextRank = g.nextRank

theorem Without.entry (hw : g.Without s rest) : rest.entry = g.entry := by
  funext t
  exact entry_congr hw.tieBreak (by simp only [rank, hw.ranks])

theorem remove_eq (g : Graph) (e : End) :
    g.remove e = match (g.frontier e).pop.1 with
      | none => (none, g.withFrontier e (g.frontier e).pop.2)
      | some s => (some s, (g.withFrontier e (g.frontier e).pop.2).takeAway s) := by
  unfold remove
  obtain ⟨_ | s, f⟩ := (g.frontier e).pop <;> rfl

theorem remove_fst (g : Graph) (e : End) : (g.remove e).1 = (g.frontier e).pop.1 := by
  rw [remove_eq]
  cases (g.frontier e).pop.1 <;> rfl

theorem pop_of_remove {yield : Option String} (hr : g.remove e = (yield, rest)) :
    (g.frontier e).pop.1 = yield := by
  rw [← remove_fst, hr]

theorem frontier_remove (hr : g.remove e = (some s, rest)) (d : End) :
    rest.frontier d = ((if d = e then (g.frontier e).pop.2 else g.frontier d).addAll
      ((g.freed s d).map g.entry)).discard s := by
  have hp := pop_of_remove hr
  rw [remove_eq, hp, Prod.mk.injEq] at hr
  rw [← hr.2, frontier_takeAway, frontier_withFrontier, withFrontier_entry, withFrontier_freed]

theorem remove_frame (g : Graph) (e : End) :
    (g.remove e).2.tieBreak = g.tieBreak ∧ (g.remove e).2.ranks = g.ranks ∧
      (g.remove e).2.nextRank = g.nextRank := by
  rw [remove_eq]
  cases (g.frontier e).pop.1 <;> simp [takeAway]

theorem entry_remove (g : Graph) (e : End) : (g.remove e).2.entry = g.entry := by
  obtain ⟨htieBreak, hranks, -⟩ := remove_frame g e
  funext s
  apply entry_congr htieBreak
  simp only [rank, hranks]

theorem remove_subset (g : Graph) (e : End) :
    (g.remove e).2.stages ⊆ g.stages ∧ (g.remove e).2.edges ⊆ g.edges := by
  rw [remove_eq]
  cases (g.frontier e).pop.1 <;> simp [takeAway, edgesWithout]

theorem Sound.remove_none (hg : g.Sound) (hr : g.remove e = (none, rest)) :
    (g.frontier e).members = [] ∧ rest = g.withFrontier e .empty := by
  have hpop := (hg.inOrder e).pop_eq_none_iff g.entry_name
  rw [remove_eq] at hr
  cases hp : (g.frontier e).pop.1 with
  | none =>
    have hm := hpop.1 hp
    simp only [hp, Prod.mk.injEq, true_and] at hr
    exact ⟨hm, by rw [← hr, Frontier.pop_snd_of_none hp, hm, Frontier.empty]⟩
  | some s => simp [hp] at hr

theorem Sound.remove_some (hg : g.Sound) (hr : g.remove e = (some s, rest)) :
    s ∈ (g.frontier e).members ∧ g.Without s rest ∧ rest.Sound := by
  rw [remove_eq] at hr
  cases hp : (g.frontier e).pop.1 with
  | none => simp [hp] at hr
  | some t =>
    simp only [hp, Prod.mk.injEq, Option.some.injEq] at hr
    obtain ⟨rfl, rfl⟩ := hr
    refine ⟨Frontier.mem_of_next hp, ⟨?_, ?_, ?_, ?_, ?_⟩, ?_⟩
    · simp [takeAway]
    · simp [takeAway, edgesWithout]
    · simp [takeAway]
    · simp [takeAway]
    · simp [takeAway]
    · apply (hg.toBooks.withFrontier (Frontier.members_pop _)).sound_takeAway
      intro d
      rw [frontier_withFrontier, withFrontier_entry]
      split
      · exact (hg.inOrder e).pop_discard g.entry_name hp
      · exact (hg.inOrder d).discard t

theorem Sound.remove_fst_eq_none_iff (hg : g.Sound) :
    (g.remove e).1 = none ↔ (g.frontier e).members = [] := by
  constructor
  · exact fun hn => (hg.remove_none (Prod.ext hn rfl)).1
  · intro hm
    cases hr : (g.remove e).1 with
    | none => rfl
    | some s => simpa [hm] using (hg.remove_some (Prod.ext hr rfl)).1

theorem Sound.remove (hg : g.Sound) (e : End) : (g.remove e).2.Sound := by
  cases hr : g.remove e with
  | mk taken rest =>
    cases taken with
    | some s => exact (hg.remove_some hr).2.2
    | none =>
      obtain ⟨hm, rfl⟩ := hg.remove_none hr
      refine ⟨hg.toBooks.withFrontier hm.symm, fun d => ?_⟩
      show ((g.withFrontier e .empty).frontier d).InOrder _
      rw [frontier_withFrontier, withFrontier_entry]
      split
      · exact .empty
      · exact hg.inOrder d

end Pipeline.Graph
