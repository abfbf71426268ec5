import Pipeline.Proofs.History

namespace Pipeline.Graph

open Pipeline.Path Connection

variable {g : Graph} {e d : End} {t : TieBreak} {s n : String} {x : Entry} {seen : List String}
  {cs : List Connection} {items : List Value}

theorem mem_queue_takeAway (hb : g.Books) (hx : x ∈ ((g.takeAway s).frontier e).queue) :
    x ∈ (g.frontier e).queue ∨ ∃ u ∈ g.stages, x = g.entry u := by
  rw [frontier_takeAway] at hx
  obtain hx | hx := Frontier.mem_queue_addAll hx
  · obtain ⟨u, hu, rfl⟩ := List.mem_map.1 hx
    exact .inr ⟨u, hb.freed_subset s e hu, rfl⟩
  · exact .inl hx

theorem mem_queue_pop (hx : x ∈ ((g.withFrontier d (g.frontier d).pop.2).frontier e).queue) :
    x ∈ (g.frontier e).queue := by
  rw [frontier_withFrontier] at hx
  split at hx
  · rename_i he
    subst he
    exact (Frontier.queue_pop_sublist (g.frontier e)).subset hx
  · exact hx

theorem mem_queue_remove (hb : g.Books) (hx : x ∈ ((g.remove d).2.frontier e).queue) :
    x ∈ (g.frontier e).queue ∨ ∃ u ∈ g.stages, x = g.entry u := by
  rw [remove_eq] at hx
  cases hp : (g.frontier d).pop.1 with
  | none =>
    rw [hp] at hx
    exact .inl (mem_queue_pop hx)
  | some s =>
    rw [hp] at hx
    have hb := hb.withFrontier (Frontier.members_pop (g.frontier d))
    obtain hx | ⟨u, hu, hx⟩ := mem_queue_takeAway hb hx
    · exact .inl (mem_queue_pop hx)
    · rw [withFrontier_stages] at hu
      rw [withFrontier_entry] at hx
      exact .inr ⟨u, hu, hx⟩

theorem mem_queue_refresh (hx : x ∈ ((g.refresh s).frontier e).queue) :
    x ∈ (g.frontier e).queue ∨ x = g.entry s := by
  rw [frontier_refresh] at hx
  split at hx
  · exact (Frontier.mem_queue_add hx).symm
  · exact .inl hx

theorem mem_queue_foldl_refresh {l : List String}
    (hx : x ∈ ((l.foldl refresh g).frontier e).queue) :
    x ∈ (g.frontier e).queue ∨ ∃ u ∈ l, x = g.entry u := by
  induction l generalizing g with
  | nil => exact .inl hx
  | cons s l ih =>
    obtain hx | ⟨u, hu, hx⟩ := ih hx
    · obtain hx | hx := mem_queue_refresh hx
      · exact .inl hx
      · exact .inr ⟨s, List.mem_cons_self, hx⟩
    · exact .inr ⟨u, List.mem_cons_of_mem _ hu, hx⟩

theorem mem_queue_splice (hx : x ∈ ((g.splice n s).frontier e).queue) :
    x ∈ (g.frontier e).queue ∨ ∃ u, (u = n ∨ u = s) ∧ x = (g.splice n s).entry u := by
  rw [splice_eq] at hx
  obtain hx | hx := mem_queue_refresh hx
  · obtain hx | hx := mem_queue_refresh hx
    · rw [frontier_rewired] at hx
      exact .inl hx
    · exact .inr ⟨n, .inl rfl, hx⟩
  · exact .inr ⟨s, .inr rfl, hx⟩

/-- Whatever is queued stands there under the present entry of a name that has been seen. -/
structure Settled (seen : List String) (g : Graph) : Prop where
  known : ∀ s ∈ g.stages, s ∈ seen
  present : ∀ e, ∀ x ∈ (g.frontier e).queue, ∃ s ∈ seen, x = g.entry s

theorem settled_draw (t : TieBreak) (cs : List Connection) :
    Settled (endpoints cs) (draw t cs) where
  known s hs := ((drawn_draw t cs).mem_stages s).1 hs
  present e x hx := by
    obtain ⟨g, hdraw, hstages, -, hentry, hempty⟩ := draw_eq_foldl_refresh t cs
    rw [hdraw] at hx
    obtain hx | ⟨u, hu, hx⟩ := mem_queue_foldl_refresh hx
    · rw [hempty] at hx
      exact absurd hx List.not_mem_nil
    · rw [← hstages] at hu
      rw [← hentry] at hx
      exact ⟨u, ((drawn_draw t cs).mem_stages u).1 hu, hx⟩

theorem Settled.remove (h : Settled seen g) (hb : g.Books) (d : End) :
    Settled seen (g.remove d).2 where
  known s hs := h.known s ((remove_subset g d).1 hs)
  present e x hx := by
    rw [entry_remove]
    obtain hx | ⟨u, hu, hx⟩ := mem_queue_remove hb hx
    · exact h.present e x hx
    · exact ⟨u, h.known u hu, hx⟩

theorem entry_splice_of_lexicographic (ht : g.tieBreak = .lexicographic) (u : String) :
    (g.splice n s).entry u = g.entry u := by
  have hs : (g.splice n s).tieBreak = .lexicographic := ht
  simp only [entry, ht, hs]

theorem Settled.splice (h : Settled seen g) (hs : s ∈ g.stages)
    (hn : g.tieBreak = .lexicographic ∨ n ∉ seen) : Settled (seen ++ [n]) (g.splice n s) where
  known u hu := by
    obtain hu | rfl := mem_stages_splice.1 hu
    · exact List.mem_append_left _ (h.known u hu)
    · exact List.mem_append_right _ (List.mem_singleton.2 rfl)
  present e x hx := by
    obtain hx | ⟨u, hu, hx⟩ := mem_queue_splice hx
    · obtain ⟨u, hu, rfl⟩ := h.present e x hx
      refine ⟨u, List.mem_append_left _ hu, ?_⟩
      cases hn with
      | inl ht => exact (entry_splice_of_lexicographic ht u).symm
      | inr hn =>
        have hun : u ≠ n := fun he => hn (he ▸ hu)
        exact (entry_splice_of_ne hun).symm
    · refine ⟨u, ?_, hx⟩
      obtain rfl | rfl := hu
      · simp
      · exact List.mem_append_left _ (h.known u hs)

theorem Sound.remove_le (hg : g.Sound) (hs : (g.remove e).1 = some s) :
    ∃ x ∈ (g.frontier e).queue, x.name = s ∧ s ∈ (g.frontier e).members ∧
      ∀ u ∈ (g.frontier e).members, x.le (g.entry u) := by
  rw [remove_fst] at hs
  exact (hg.inOrder e).pop_le g.entry_name hs

theorem Settled.remove_le (h : Settled seen g) (hg : g.Sound) (hs : (g.remove e).1 = some s) :
    s ∈ (g.frontier e).members ∧
      ∀ u ∈ (g.frontier e).members, (g.entry s).le (g.entry u) := by
  obtain ⟨x, hx, rfl, hm, hle⟩ := hg.remove_le hs
  obtain ⟨u, -, rfl⟩ := h.present e x hx
  rw [entry_name] at hm ⊢
  exact ⟨hm, hle⟩

theorem entry_le_iff_of_lexicographic (ht : g.tieBreak = .lexicographic) {u : String} :
    (g.entry s).le (g.entry u) ↔ s ≤ u := by
  simp [entry, ht, Entry.le]

theorem settled_run_of_lexicographic (hv : g.Valid) (ht : g.tieBreak = .lexicographic)
    (h : Settled seen g) (es : List Edit) : Settled (seen ++ g.entered es) (g.run es) :=
  (hv.run_induction (q := True)
    (P := fun seen g => g.tieBreak = .lexicographic ∧ Settled seen g)
    (fun _ _ hs _ h => ⟨h.1, h.2.splice hs (.inl h.1)⟩)
    (fun e hv h => ⟨(remove_frame _ e).1.trans h.1, h.2.remove hv.toBooks e⟩)
    es (.inl trivial) ⟨ht, h⟩).1.2

/-- By name, whatever calls came before and whatever they left in the queues, a removal takes the
least name of its end. -/
theorem remove_least {g₀ : Graph} (hg : ofItems .lexicographic items = .ok g₀) (es : List Edit)
    (e : End) {s : String} (hs : ((g₀.run es).remove e).1 = some s) :
    s ∈ ((g₀.run es).frontier e).members ∧ ∀ u ∈ ((g₀.run es).frontier e).members, s ≤ u := by
  obtain ⟨cs, -, rfl, hv⟩ := valid_of_ofItems hg
  have ht := tieBreak_draw .lexicographic cs
  have hsettled := settled_run_of_lexicographic hv ht (settled_draw _ cs) es
  obtain ⟨hm, hle⟩ := hsettled.remove_le (hv.run es).toSound hs
  have htrun := (tieBreak_run _ es).trans ht
  exact ⟨hm, fun u hu => (entry_le_iff_of_lexicographic htrun).1 (hle u hu)⟩

theorem remove_least_again :
    let g₀ := draw .lexicographic [⟨"b", "c"⟩, ⟨"d", "c"⟩]
    let es := [.remove .source, .remove .sink, .insert (.text "c") (.text "d"),
      .insert (.text "b") (.text "d"), .remove .source]
    ofItems .lexicographic [.tuple [.text "b", .text "c"], .list [.text "d", .text "c"]] =
        .ok g₀ ∧
      ((g₀.run es).remove .source).1 = some "b" ∧
      ∀ u ∈ ((g₀.run es).frontier .source).members, "b" ≤ u := by
  have hg : ofItems .lexicographic [.tuple [.text "b", .text "c"], .list [.text "d", .text "c"]] =
      .ok (draw .lexicographic [⟨"b", "c"⟩, ⟨"d", "c"⟩]) := by cbv
  have hs : (((draw .lexicographic [⟨"b", "c"⟩, ⟨"d", "c"⟩]).run
      [.remove .source, .remove .sink, .insert (.text "c") (.text "d"),
        .insert (.text "b") (.text "d"), .remove .source]).remove .source).1 = some "b" := by
    decide +kernel
  exact ⟨hg, hs, (remove_least hg _ .source hs).2⟩

end Pipeline.Graph
