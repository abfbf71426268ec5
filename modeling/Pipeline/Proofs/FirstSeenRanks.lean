import Pipeline.Proofs.History

namespace Pipeline.Graph

open Pipeline.Path

variable {g h : Graph} {n s : String} {seen : List String} {cs : List Connection}
  {c : Connection}

/-- Ranks order the names that have been seen by their first places. -/
structure Dated (seen : List String) (g : Graph) : Prop where
  below : ∀ s ∈ seen, g.rank s < g.nextRank
  agrees : ∀ a ∈ seen, ∀ b ∈ seen, g.rank a < g.rank b ↔ seen.idxOf a < seen.idxOf b

theorem Dated.congr (hd : Dated seen g) (hr : h.ranks = g.ranks)
    (hn : h.nextRank = g.nextRank) : Dated seen h := by
  have hrank : h.rank = g.rank := by
    funext s
    rw [rank, rank, hr]
  exact ⟨by rw [hrank, hn]; exact hd.below, by rw [hrank]; exact hd.agrees⟩

theorem Dated.again (hd : Dated seen g) (hs : s ∈ seen) : Dated (seen ++ [s]) g := by
  have hmem : ∀ {u}, u ∈ seen ++ [s] → u ∈ seen := by
    intro u hu
    obtain hu | hu := List.mem_append.1 hu
    · exact hu
    · exact List.mem_singleton.1 hu ▸ hs
  refine ⟨fun u hu => hd.below u (hmem hu), fun a ha b hb => ?_⟩
  rw [List.idxOf_append_of_mem (hmem ha), List.idxOf_append_of_mem (hmem hb)]
  exact hd.agrees a (hmem ha) b (hmem hb)

theorem Dated.enter (hd : Dated seen g) (hn : n ∉ seen)
    (hr : h.ranks = (n, g.nextRank) :: g.ranks) (hnext : h.nextRank = g.nextRank + 1) :
    Dated (seen ++ [n]) h := by
  have hnew : h.rank n = g.nextRank ∧ (seen ++ [n]).idxOf n = seen.length := by
    rw [rank_of_ranks_cons hr, if_pos rfl, List.idxOf_append_of_notMem hn]
    simp
  have hold : ∀ s ∈ seen, h.rank s = g.rank s ∧ (seen ++ [n]).idxOf s = seen.idxOf s := by
    intro s hs
    have hsn : s ≠ n := fun he => hn (he ▸ hs)
    rw [rank_of_ranks_cons hr, if_neg hsn, List.idxOf_append_of_mem hs]
    exact ⟨rfl, rfl⟩
  have hlen : ∀ s ∈ seen, seen.idxOf s < seen.length := fun s hs => List.idxOf_lt_length_of_mem hs
  have hcases : ∀ {s}, s ∈ seen ++ [n] → s ∈ seen ∨ s = n := by simp
  refine ⟨fun s hs => ?_, fun a ha b hb => ?_⟩
  · rw [hnext]
    obtain hs | rfl := hcases hs
    · have hlt := hd.below s hs
      rw [(hold s hs).1]
      omega
    · rw [hnew.1]
      omega
  · -- The new name has the highest rank and the last place, the others have kept both.
    obtain ha | rfl := hcases ha
    · have halt := hd.below a ha
      have halen := hlen a ha
      rw [(hold a ha).1, (hold a ha).2]
      obtain hb | rfl := hcases hb
      · rw [(hold b hb).1, (hold b hb).2]
        exact hd.agrees a ha b hb
      · rw [hnew.1, hnew.2]
        omega
    · rw [hnew.1, hnew.2]
      obtain hb | rfl := hcases hb
      · have hblt := hd.below b hb
        have hblen := hlen b hb
        rw [(hold b hb).1, (hold b hb).2]
        omega
      · rw [hnew.1, hnew.2]
        omega

theorem Dated.addStage (hd : Dated seen g) (hs : s ∈ g.stages ↔ s ∈ seen) :
    Dated (seen ++ [s]) (g.addStage s) := by
  unfold Graph.addStage
  split
  · rename_i hmem
    exact hd.again (hs.1 hmem)
  · rename_i hmem
    exact hd.enter (mt hs.2 hmem) rfl rfl

theorem ranks_connect (g : Graph) (c : Connection) :
    (g.connect c).ranks = ((g.addStage c.tail).addStage c.head).ranks ∧
      (g.connect c).nextRank = ((g.addStage c.tail).addStage c.head).nextRank := by
  unfold Graph.connect
  dsimp only
  split <;> exact ⟨rfl, rfl⟩

theorem Dated.connect (hd : Dated (endpoints cs) g) (hdrawn : Drawn cs g) (c : Connection) :
    Dated (endpoints (cs ++ [c])) (g.connect c) := by
  have htail := hd.addStage (hdrawn.mem_stages c.tail)
  have hhead := htail.addStage (s := c.head) (by
    rw [mem_stages_addStage, hdrawn.mem_stages, List.mem_append, List.mem_singleton])
  have hends : endpoints (cs ++ [c]) = endpoints cs ++ [c.tail] ++ [c.head] := by
    simp [endpoints]
  rw [hends]
  exact hhead.congr (ranks_connect g c).1 (ranks_connect g c).2

theorem Dated.foldl_connect (hd : Dated (endpoints cs) g) (hdrawn : Drawn cs g)
    (ds : List Connection) : Dated (endpoints (cs ++ ds)) (ds.foldl Graph.connect g) := by
  induction ds generalizing cs g with
  | nil => simpa using hd
  | cons c ds ih => simpa using ih (hd.connect hdrawn c) (hdrawn.connect c)

theorem dated_draw (t : TieBreak) (cs : List Connection) :
    Dated (endpoints cs) (draw t cs) := by
  obtain ⟨sources, sinks, h⟩ := draw_eq t cs
  have hempty : Dated (endpoints []) (empty t) := ⟨by simp [endpoints], by simp [endpoints]⟩
  rw [h]
  exact (hempty.foldl_connect (drawn_empty t) cs).congr rfl rfl

theorem Dated.splice (hd : Dated seen g) (hn : n ∉ seen) :
    Dated (seen ++ [n]) (g.splice n s) :=
  hd.enter hn rfl rfl

end Pipeline.Graph
