import Pipeline.Proofs.Books

namespace Pipeline.Graph

open Pipeline.Path Relation

variable {g : Graph} {e : End} {s t name target : String}

def stands (g : Graph) : End → String → Bool
  | .source, s => g.hasOutput s && !g.hasInput s
  | .sink, s => g.hasInput s && !g.hasOutput s

theorem stands_iff :
    g.stands e s = true ↔ ¬Free g.edges e.other s ∧ Free g.edges e s := by
  have hany : ∀ d : End, g.edges.any (fun c => d.bars c = s) = true ↔ ¬Free g.edges d s := by
    intro d
    simp [Free]
  have hin := hany .source
  have hout := hany .sink
  cases e with
  | source =>
    rw [stands, Bool.and_eq_true, Bool.not_eq_true', ← Bool.not_eq_true]
    exact and_congr hout (not_congr hin |>.trans not_not)
  | sink =>
    rw [stands, Bool.and_eq_true, Bool.not_eq_true', ← Bool.not_eq_true]
    exact and_congr hin (not_congr hout |>.trans not_not)

theorem stands_iff_free {c : Connection} (hc : c ∈ g.edges) (hs : c.tail = s ∨ c.head = s) :
    g.stands e s = true ↔ Free g.edges e s := by
  rw [stands_iff, and_iff_right_iff_imp]
  intro hf ho
  obtain hb | hb := (touches_iff e c s).1 hs
  · exact hf c hc hb
  · exact ho c hc hb

theorem frontier_refresh (g : Graph) (s : String) (e : End) :
    (g.refresh s).frontier e =
      if g.stands e s then (g.frontier e).add (g.entry s) else (g.frontier e).discard s := by
  cases e <;> rfl

theorem mem_members_refresh :
    t ∈ ((g.refresh s).frontier e).members ↔
      if t = s then g.stands e s = true else t ∈ (g.frontier e).members := by
  rw [frontier_refresh]
  by_cases hs : g.stands e s = true
  · rw [if_pos hs, Frontier.mem_members_add, entry_name]
    by_cases ht : t = s <;> simp [ht, hs]
  · rw [if_neg hs, Frontier.mem_members_discard]
    by_cases ht : t = s <;> simp [ht, hs]

theorem inOrder_refresh (h : (g.frontier e).InOrder g.entry) (s : String) :
    ((g.refresh s).frontier e).InOrder (g.refresh s).entry := by
  rw [frontier_refresh]
  split
  · exact h.add (g.entry_name s)
  · exact h.discard s

/-- A splice before the ends are looked at. -/
def rewired (g : Graph) (name target : String) : Graph :=
  { g with
    stages := g.stages ++ [name]
    edges := g.splicedEdges name target
    ranks := (name, g.nextRank) :: g.ranks
    nextRank := g.nextRank + 1 }

theorem splice_eq (g : Graph) (name target : String) :
    g.splice name target = ((g.rewired name target).refresh name).refresh target := rfl

@[simp] theorem frontier_rewired (g : Graph) (name target : String) (e : End) :
    (g.rewired name target).frontier e = g.frontier e := by
  cases e <;> rfl

theorem mem_stages_rewired : s ∈ (g.rewired name target).stages ↔ s ∈ g.stages ∨ s = name := by
  simp [rewired]

theorem mem_stages_splice : s ∈ (g.splice name target).stages ↔ s ∈ g.stages ∨ s = name := by
  show s ∈ (g.rewired name target).stages ↔ _
  exact mem_stages_rewired

theorem mem_splicedEdges {c : Connection} :
    c ∈ g.splicedEdges name target ↔
      (c ∈ g.edges ∧ c.head ≠ target) ∨ (⟨c.tail, target⟩ ∈ g.edges ∧ c.head = name) ∨
        c = ⟨name, target⟩ := by
  simp only [splicedEdges, List.mem_append, List.mem_filter, List.mem_map, mem_inputs,
    List.mem_singleton, decide_eq_true_eq, or_assoc]
  refine or_congr_right (or_congr_left ⟨?_, ?_⟩)
  · rintro ⟨s, hs, rfl⟩
    exact ⟨hs, rfl⟩
  · rintro ⟨hs, rfl⟩
    exact ⟨c.tail, hs, rfl⟩

theorem rank_of_ranks_cons {h : Graph} {rank : Nat} (hr : h.ranks = (name, rank) :: g.ranks)
    (s : String) : h.rank s = if s = name then rank else g.rank s := by
  by_cases hs : s = name
  · simp [Graph.rank, hr, hs]
  · have hb : (s == name) = false := by simpa using hs
    simp [Graph.rank, hr, List.lookup_cons, hb, hs]

theorem entry_splice (g : Graph) (name target : String) :
    (g.splice name target).entry = (g.rewired name target).entry := rfl

theorem entry_splice_of_ne (hs : s ≠ name) : (g.splice name target).entry s = g.entry s := by
  rw [entry_splice]
  exact entry_congr rfl (by rw [rank_of_ranks_cons (h := g.rewired name target) rfl, if_neg hs])

theorem Books.not_touched (hb : g.Books) (hn : name ∉ g.stages) {c : Connection}
    (hc : c ∈ g.edges) : c.tail ≠ name ∧ c.head ≠ name :=
  ⟨fun h => hn (h ▸ (hb.joined c hc).1), fun h => hn (h ▸ (hb.joined c hc).2)⟩

theorem free_splicedEdges (hsn : s ≠ name) (hst : e = .source → s ≠ target) :
    Free (g.splicedEdges name target) e s ↔ Free g.edges e s := by
  constructor
  · intro hf c hc hs
    by_cases ht : c.head = target
    · cases e with
      | source => exact hst rfl (hs.symm.trans ht)
      | sink => exact hf ⟨c.tail, name⟩ (mem_splicedEdges.2 (.inr (.inl ⟨ht ▸ hc, rfl⟩))) hs
    · exact hf c (mem_splicedEdges.2 (.inl ⟨hc, ht⟩)) hs
  · intro hf c hc hs
    obtain ⟨hc, -⟩ | ⟨hc, hh⟩ | rfl := mem_splicedEdges.1 hc
    · exact hf c hc hs
    · cases e with
      | source => exact hsn (hs.symm.trans hh)
      | sink => exact hf _ hc hs
    · cases e with
      | source => exact hst rfl hs.symm
      | sink => exact hsn hs.symm

theorem Books.nodup_splicedEdges (hb : g.Books) (hn : name ∉ g.stages) :
    (g.splicedEdges name target).Nodup := by
  have hmoved : ((g.inputs target).map fun s => (⟨s, name⟩ : Connection)).Nodup :=
    (hb.nodup_inputs target).map fun s t hst => congrArg Connection.tail hst
  rw [splicedEdges, List.append_assoc]
  refine List.nodup_append.2 ⟨hb.edges_nodup.filter _,
    List.nodup_append.2 ⟨hmoved, by simp, ?_⟩, ?_⟩
  · intro c hc d hd hcd
    obtain ⟨s, hs, rfl⟩ := List.mem_map.1 hc
    rw [List.mem_singleton.1 hd, Connection.mk.injEq] at hcd
    exact (hb.not_touched hn (mem_inputs.1 hs)).1 hcd.1
  · intro c hc d hd hcd
    have hc := hb.not_touched hn (List.mem_filter.1 hc).1
    subst hcd
    obtain hd | hd := List.mem_append.1 hd
    · obtain ⟨s, -, rfl⟩ := List.mem_map.1 hd
      exact hc.2 rfl
    · exact hc.1 (by rw [List.mem_singleton.1 hd])

theorem Books.splice (hb : g.Books) (hn : name ∉ g.stages) (ht : target ∈ g.stages) :
    (g.splice name target).Books where
  stages_nodup := by
    refine List.nodup_append.2 ⟨hb.stages_nodup, by simp, fun s hs t hnt hst => ?_⟩
    exact hn (List.mem_singleton.1 hnt ▸ hst ▸ hs)
  edges_nodup := hb.nodup_splicedEdges hn
  joined c hc := by
    have hmem : ∀ {s}, s ∈ g.stages → s ∈ (g.splice name target).stages :=
      fun hs => mem_stages_splice.2 (.inl hs)
    have hname : name ∈ (g.splice name target).stages := mem_stages_splice.2 (.inr rfl)
    obtain ⟨hc, -⟩ | ⟨hc, hh⟩ | rfl := mem_splicedEdges.1 hc
    · exact ⟨hmem (hb.joined c hc).1, hmem (hb.joined c hc).2⟩
    · exact ⟨hmem (hb.joined _ hc).1, hh ▸ hname⟩
    · exact ⟨hname, hmem ht⟩
  members e s := by
    have hnew : (⟨name, target⟩ : Connection) ∈ (g.rewired name target).edges :=
      mem_splicedEdges.2 (.inr (.inr rfl))
    rw [splice_eq, mem_members_refresh, mem_members_refresh, ← splice_eq, mem_stages_splice]
    show _ ↔ (s ∈ g.stages ∨ s = name) ∧ Free (g.rewired name target).edges e s
    split
    · rename_i hst
      subst hst
      show (g.rewired name s).stands e s = true ↔ _
      simp [stands_iff_free hnew (.inr rfl), ht]
    · rename_i hst
      split
      · rename_i hsn
        subst hsn
        simp [stands_iff_free hnew (.inl rfl)]
      · rename_i hsn
        show s ∈ (g.frontier e).members ↔ _ ∧ Free (g.splicedEdges name target) e s
        rw [free_splicedEdges hsn fun _ => hst, hb.members]
        simp [hsn]

theorem Sound.splice (hg : g.Sound) (hn : name ∉ g.stages) (ht : target ∈ g.stages) :
    (g.splice name target).Sound where
  toBooks := hg.toBooks.splice hn ht
  inOrder e := by
    -- The new stage has an entry of its own, but no member of an end has its name.
    have hold : ((g.rewired name target).frontier e).InOrder (g.rewired name target).entry := by
      rw [frontier_rewired]
      apply (hg.inOrder e).congr
      intro s hs
      have hsn : s ≠ name := fun h => hn (h ▸ ((hg.members e s).1 hs).1)
      show g.entry s = (g.splice name target).entry s
      exact (entry_splice_of_ne hsn).symm
    exact inOrder_refresh (inOrder_refresh hold name) target

/-- A connection after a splice, seen from before: the new stage stands for the one behind it. -/
theorem leads_of_splice (hb : g.Books) (hn : name ∉ g.stages)
    (h : Leads (g.splicedEdges name target) s t) : (s = name ∧ t = target) ∨
      Leads g.edges (if s = name then target else s) (if t = name then target else t) := by
  obtain ⟨hc, -⟩ | ⟨hc, hh⟩ | hc := mem_splicedEdges.1 h
  · have hne := hb.not_touched hn hc
    exact .inr (by rw [if_neg hne.1, if_neg hne.2]; exact hc)
  · have hne := hb.not_touched hn hc
    exact .inr (by rw [if_neg hne.1, if_pos hh]; exact hc)
  · exact .inl (Connection.mk.inj hc)

theorem transGen_of_splice (hb : g.Books) (hn : name ∉ g.stages) (ht : target ∈ g.stages)
    (h : TransGen (Leads (g.splicedEdges name target)) s t) :
    TransGen (Leads g.edges) (if s = name then target else s) (if t = name then target else t) ∨
      s = name ∧ t = target := by
  have htn : target ≠ name := fun h => hn (h ▸ ht)
  induction h with
  | single hab =>
    obtain hab | hab := leads_of_splice hb hn hab
    · exact .inr hab
    · exact .inl (.single hab)
  | tail _ hbc ih =>
    obtain ⟨rfl, rfl⟩ | hbc := leads_of_splice hb hn hbc
    · obtain ih | ⟨rfl, hne⟩ := ih
      · exact .inl (by simpa [htn] using ih)
      · exact absurd hne.symm htn
    · obtain ih | ⟨rfl, rfl⟩ := ih
      · exact .inl (ih.tail hbc)
      · rw [if_neg htn] at hbc
        exact .inl (by simpa using .single hbc)

theorem acyclic_splice (hb : g.Books) (hn : name ∉ g.stages) (ht : target ∈ g.stages)
    (h : ¬Cyclic g.edges) : ¬Cyclic (g.splice name target).edges := by
  rintro ⟨s, hs⟩
  obtain hs | ⟨rfl, rfl⟩ := transGen_of_splice hb hn ht hs
  · exact h ⟨_, hs⟩
  · exact hn ht

end Pipeline.Graph
