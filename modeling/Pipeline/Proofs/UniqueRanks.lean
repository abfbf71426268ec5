import Pipeline.Proofs.Precedence

namespace Pipeline.Graph

open Pipeline.Path

variable {g h : Graph} {e : End} {t : TieBreak} {s n : String} {x y : Entry}

/-- The rank of an entry was given to its name, now or before. -/
def Issued (g : Graph) (x : Entry) : Prop := (x.name, x.rank) ∈ g.ranks

/-- No rank is given twice, and every stage has one. -/
structure Enrolled (g : Graph) : Prop where
  once : (g.ranks.map Prod.snd).Nodup
  below : ∀ p ∈ g.ranks, p.2 < g.nextRank
  ranked : ∀ s ∈ g.stages, ∃ k, (s, k) ∈ g.ranks

theorem Enrolled.mem_ranks (hg : g.Enrolled) (hs : s ∈ g.stages) : (s, g.rank s) ∈ g.ranks := by
  obtain ⟨k, hk⟩ := hg.ranked s hs
  unfold rank
  cases hl : g.ranks.lookup s with
  | none =>
    have hne := List.lookup_eq_none_iff.1 hl _ hk
    simp at hne
  | some j =>
    obtain ⟨l, m, hlm, -⟩ := List.lookup_eq_some_iff.1 hl
    rw [hlm]
    exact List.mem_append_right _ List.mem_cons_self

theorem Enrolled.issued_entry (hg : g.Enrolled) (ht : g.tieBreak = .insertion)
    (hs : s ∈ g.stages) : g.Issued (g.entry s) := by
  simpa only [Issued, entry, ht] using hg.mem_ranks hs

theorem Enrolled.name_eq (hg : g.Enrolled) (hx : g.Issued x) (hy : g.Issued y)
    (hxy : x.rank = y.rank) : x.name = y.name :=
  congrArg Prod.fst (List.inj_on_of_nodup_map hg.once hx hy hxy)

theorem Enrolled.congr (hg : g.Enrolled) (hs : h.stages ⊆ g.stages) (hr : h.ranks = g.ranks)
    (hn : h.nextRank = g.nextRank) : h.Enrolled where
  once := hr ▸ hg.once
  below := hr ▸ hn ▸ hg.below
  ranked s hsh := hr ▸ hg.ranked s (hs hsh)

theorem Enrolled.enter (hg : g.Enrolled) (hs : h.stages = g.stages ++ [n])
    (hr : h.ranks = (n, g.nextRank) :: g.ranks) (hnext : h.nextRank = g.nextRank + 1) :
    h.Enrolled where
  once := by
    rw [hr, List.map_cons, List.nodup_cons]
    refine ⟨fun hmem => ?_, hg.once⟩
    obtain ⟨p, hp, hpn⟩ := List.mem_map.1 hmem
    have hlt := hg.below p hp
    omega
  below p hp := by
    rw [hr] at hp
    obtain rfl | hp := List.mem_cons.1 hp
    · simp [hnext]
    · have hlt := hg.below p hp
      omega
  ranked u hu := by
    rw [hs, List.mem_append, List.mem_singleton] at hu
    rw [hr]
    obtain hu | rfl := hu
    · obtain ⟨k, hk⟩ := hg.ranked u hu
      exact ⟨k, List.mem_cons_of_mem _ hk⟩
    · exact ⟨_, List.mem_cons_self⟩

theorem enrolled_empty (t : TieBreak) : (empty t).Enrolled :=
  ⟨.nil, by simp [empty], by simp [empty]⟩

/-- By order of entry what is queued waits under a rank that was given to it. -/
structure Rolled (g : Graph) : Prop extends Enrolled g where
  queued : g.tieBreak = .insertion → ∀ e, ∀ x ∈ (g.frontier e).queue, g.Issued x

theorem Rolled.refresh (hg : g.Rolled) (hs : s ∈ g.stages) : (g.refresh s).Rolled where
  toEnrolled := hg.congr (List.Subset.refl _) rfl rfl
  queued ht e x hx := by
    obtain hx | rfl := mem_queue_refresh hx
    · exact hg.queued ht e x hx
    · exact hg.issued_entry ht hs

theorem Rolled.foldl_refresh (hg : g.Rolled) {l : List String} (hl : l ⊆ g.stages) :
    (l.foldl Graph.refresh g).Rolled := by
  induction l generalizing g with
  | nil => exact hg
  | cons s l ih =>
    obtain ⟨hs, hl⟩ := List.cons_subset.1 hl
    exact ih (hg.refresh hs) hl

theorem rolled_undecided (t : TieBreak) (cs : List Connection) :
    Rolled { cs.foldl connect (empty t) with sources := .empty, sinks := .empty } where
  toEnrolled := by
    have hfold := foldl_connect_keeps (P := Enrolled)
      (fun _ hs hr hnext hg => hg.enter hs hr hnext)
      (fun _ hg => hg.congr (List.Subset.refl _) rfl rfl) cs (enrolled_empty t)
    exact hfold.congr (List.Subset.refl _) rfl rfl
  queued _ e x hx := by
    cases e <;> exact absurd hx List.not_mem_nil

theorem rolled_draw (t : TieBreak) (cs : List Connection) : (draw t cs).Rolled :=
  (rolled_undecided t cs).foldl_refresh (List.Subset.refl _)

theorem Rolled.rewired (hg : g.Rolled) (n s : String) : (g.rewired n s).Rolled where
  toEnrolled := hg.enter rfl rfl rfl
  queued ht e x hx := by
    rw [frontier_rewired] at hx
    exact List.mem_cons_of_mem _ (hg.queued ht e x hx)

theorem Rolled.splice (hg : g.Rolled) (n : String) (hs : s ∈ g.stages) :
    (g.splice n s).Rolled := by
  have hnew : n ∈ (g.rewired n s).stages := mem_stages_rewired.2 (.inr rfl)
  have hold : s ∈ (g.rewired n s).stages := mem_stages_rewired.2 (.inl hs)
  exact ((hg.rewired n s).refresh hnew).refresh hold

theorem Rolled.remove (hg : g.Rolled) (hb : g.Books) (d : End) : (g.remove d).2.Rolled where
  toEnrolled := hg.congr (remove_subset g d).1 (remove_frame g d).2.1 (remove_frame g d).2.2
  queued ht e x hx := by
    obtain ⟨htieBreak, hranks, -⟩ := remove_frame g d
    rw [htieBreak] at ht
    rw [Issued, hranks]
    obtain hx | ⟨u, hu, rfl⟩ := mem_queue_remove hb hx
    · exact hg.queued ht e x hx
    · exact hg.issued_entry ht hu

theorem Rolled.run (hg : g.Rolled) (hv : g.Valid) (es : List Edit) : (g.run es).Rolled :=
  (hv.run_keeps (fun {_ n _} _ _ hs hg => hg.splice n hs) (fun e hv hg => hg.remove hv.toBooks e)
    es hg).1

end Pipeline.Graph
