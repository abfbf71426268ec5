import Pipeline.Proofs.Strip

namespace Pipeline

namespace Entry

theorem insert_eq_cons {e : Entry} {q : List Entry} (h : ∀ x ∈ q, e.le x) :
    e.insert q = e :: q := by
  cases q with
  | nil => rfl
  | cons x rest => rw [insert, if_pos (h x List.mem_cons_self)]

theorem filter_insert {q : List Entry} (p : Entry → Bool) (e : Entry)
    (h : q.Pairwise fun x y => x.le y) :
    (e.insert q).filter p = if p e then e.insert (q.filter p) else q.filter p := by
  induction q with
  | nil =>
    by_cases hp : p e = true <;> simp [insert, hp]
  | cons x rest ih =>
    obtain ⟨hx, hrest⟩ := List.pairwise_cons.1 h
    rw [insert]
    split
    · rename_i hex
      -- The entry stands in front of all, so also of those that the filter leaves.
      have hall : ∀ y ∈ (x :: rest).filter p, e.le y := by
        intro y hy
        obtain rfl | hy := List.mem_cons.1 (List.mem_of_mem_filter hy)
        · exact hex
        · exact le_trans hex (hx y hy)
      rw [insert_eq_cons hall, List.filter_cons]
    · rename_i hex
      rw [List.filter_cons, List.filter_cons, ih hrest]
      by_cases hpx : p x = true <;> by_cases hpe : p e = true <;> simp [hpx, hpe, insert, hex]

end Entry

namespace Frontier

variable {f : Frontier} {x s : String} {members : List String} {q : List Entry}

def without (f : Frontier) (x : String) : Frontier :=
  ⟨f.members.filter (· ≠ x), f.queue.filter (·.name ≠ x)⟩

theorem without_discard (f : Frontier) (s x : String) :
    (f.discard s).without x = (f.without x).discard s := by
  simp only [discard, without, List.filter_filter, Bool.and_comm]

theorem without_discard_self (f : Frontier) (x : String) :
    (f.discard x).without x = f.without x := by
  simp [discard, without]

theorem without_add {e : Entry} (h : f.queue.Pairwise fun x y => x.le y) :
    (f.add e).without x = if e.name = x then f.without x else (f.without x).add e := by
  by_cases hx : e.name = x
  · subst hx
    by_cases hm : e.name ∈ f.members <;> simp [add, without, hm, Entry.filter_insert _ _ h]
  · by_cases hm : e.name ∈ f.members <;> simp [add, without, hm, hx, Entry.filter_insert _ _ h]

theorem without_addAll {es : List Entry} (h : f.queue.Pairwise fun x y => x.le y) :
    (f.addAll es).without x = (f.without x).addAll (es.filter (·.name ≠ x)) := by
  induction es generalizing f with
  | nil => rfl
  | cons e es ih =>
    have hadd : (f.addAll (e :: es)).without x = ((f.add e).addAll es).without x := rfl
    rw [hadd, ih (ascending_add h), without_add h]
    by_cases hx : e.name = x <;> simp [hx, addAll]

theorem next_filter (hx : x ∉ members) (q : List Entry) :
    next members (q.filter (·.name ≠ x)) =
      ((next members q).1, (next members q).2.filter (·.name ≠ x)) := by
  induction q with
  | nil => rfl
  | cons e q ih =>
    by_cases he : e.name = x
    · simpa [next, he, hx] using ih
    · by_cases hm : e.name ∈ members <;> simp [next, he, hm]
      simpa using ih

theorem next_without (h : (next members q).1 ≠ some x) :
    next (members.filter (· ≠ x)) q = next members q := by
  induction q with
  | nil => rfl
  | cons e q ih =>
    by_cases hm : e.name ∈ members
    · have he : e.name ≠ x := by simpa [next, hm] using h
      simp [next, hm, he]
    · simpa [next, hm] using ih (by simpa [next, hm] using h)

theorem next_without_taken (h : (next members q).1 = some x) :
    next (members.filter (· ≠ x)) q = next (members.filter (· ≠ x)) (next members q).2 := by
  induction q with
  | nil => rfl
  | cons e q ih =>
    by_cases hm : e.name ∈ members
    · obtain rfl : e.name = x := by simpa [next, hm] using h
      simp [next, hm]
    · simpa [next, hm] using ih (by simpa [next, hm] using h)

theorem pop_without_eq (f : Frontier) (x : String) :
    (f.without x).pop = ((next (f.members.filter (· ≠ x)) f.queue).1,
      ⟨f.members.filter (· ≠ x),
        (next (f.members.filter (· ≠ x)) f.queue).2.filter (·.name ≠ x)⟩) := by
  have hx : x ∉ f.members.filter (· ≠ x) := by simp
  show ((next _ _).1, Frontier.mk _ (next _ _).2) = _
  rw [without, next_filter hx]

theorem pop_without (h : f.pop.1 ≠ some x) :
    (f.without x).pop = (f.pop.1, f.pop.2.without x) := by
  rw [pop_without_eq, next_without h]
  rfl

theorem pop_without_taken (h : f.pop.1 = some x) :
    (f.without x).pop = (f.pop.2.without x).pop := by
  rw [pop_without_eq, pop_without_eq, next_without_taken h]
  rfl

end Frontier

namespace Graph

open Pipeline.Path Connection

variable {g h rest : Graph} {t : TieBreak} {e d : End} {s x : String} {ds : List End}
  {items : List Value}

theorem freed_eq_nil (hs : Free g.edges e.other s) : g.freed s e = [] := by
  apply List.eq_nil_iff_forall_not_mem.2
  intro u hu
  obtain ⟨⟨c, hc, hcs, -⟩, -⟩ := mem_freed.1 hu
  exact hs c hc hcs

/-- What is left of a graph when a stage without outputs has gone. Without that stage a pop from
the sources of either takes the same stage and leaves the same behind. -/
structure Lacks (x : String) (g h : Graph) : Prop where
  last : Free g.edges .sink x
  gone : x ∉ h.stages
  edges : h.edges = g.edgesWithout x
  entry : h.entry = g.entry
  pop : (h.sources.without x).pop = (g.sources.without x).pop

theorem Lacks.of_remove_sink (hg : g.Sound) (hr : g.remove .sink = (some x, h)) : Lacks x g h := by
  obtain ⟨hx, hw, -⟩ := hg.remove_some hr
  have hlast := ((hg.members .sink x).1 hx).2
  have hsources : h.sources = g.sources.discard x := by
    have hf := frontier_remove hr .source
    rw [freed_eq_nil hlast] at hf
    exact hf
  exact ⟨hlast, by simp [hw.stages], hw.edges, hw.entry,
    by rw [hsources, Frontier.without_discard_self]⟩

theorem Lacks.taken (hl : Lacks x g h) (hg : g.Sound) (hr : g.remove .source = (some x, rest)) :
    Lacks x rest h := by
  obtain ⟨-, hw, -⟩ := hg.remove_some hr
  have hsources : rest.sources = g.sources.pop.2.discard x := by
    have hf := frontier_remove hr .source
    rw [freed_eq_nil hl.last] at hf
    exact hf
  have hp : g.sources.pop.1 = some x := pop_of_remove hr
  refine ⟨fun c hc => ?_, hl.gone, ?_, hl.entry.trans hw.entry.symm, ?_⟩
  · rw [hw.edges] at hc
    exact hl.last c (mem_edgesWithout.1 hc).1
  · rw [hl.edges]
    simp only [edgesWithout, hw.edges, List.filter_filter, Bool.and_self]
  · rw [hl.pop, hsources, Frontier.without_discard_self, Frontier.pop_without_taken hp]

theorem Lacks.pop_eq (hl : Lacks x g h) (hh : h.Sound) :
    (h.sources.pop.1, h.sources.pop.2.without x) = (g.sources.without x).pop := by
  rw [← hl.pop, Frontier.pop_without]
  exact fun he => hl.gone ((hh.members .source x).1 (Frontier.mem_of_next he)).1

theorem Lacks.edgesWithout (hl : Lacks x g h) (s : String) :
    h.edgesWithout s = (g.edgesWithout s).filter fun c => c.tail ≠ x ∧ c.head ≠ x := by
  simp only [Graph.edgesWithout, hl.edges, List.filter_filter, Bool.and_comm]

theorem Lacks.outputs (hl : Lacks x g h) (hsx : s ≠ x) :
    h.outputs s = (g.outputs s).filter (· ≠ x) := by
  simp only [Graph.outputs, hl.edges, Graph.edgesWithout, List.filter_filter, List.filter_map]
  congr 1
  apply List.filter_congr
  intro c _
  by_cases hc : c.tail = s <;> simp [hc, hsx]

theorem Lacks.freed (hl : Lacks x g h) (hsx : s ≠ x) :
    h.freed s .source = (g.freed s .source).filter (· ≠ x) := by
  rw [Graph.freed, Graph.freed, hl.outputs hsx, List.filter_filter, List.filter_filter]
  apply List.filter_congr
  intro u _
  by_cases hu : u = x
  · simp [hu]
  have hany : (h.edgesWithout s).any (·.head = u) = (g.edgesWithout s).any (·.head = u) := by
    rw [hl.edgesWithout, Bool.eq_iff_iff, List.any_eq_true, List.any_eq_true]
    constructor
    · rintro ⟨c, hc, hcu⟩
      exact ⟨c, List.mem_of_mem_filter hc, hcu⟩
    · rintro ⟨c, hc, hcu⟩
      have hhead : c.head = u := by simpa using hcu
      have htail : c.tail ≠ x := hl.last c (mem_edgesWithout.1 hc).1
      exact ⟨c, List.mem_filter.2 ⟨hc, by simpa [htail, hhead] using hu⟩, hcu⟩
  rw [hany]
  simp [hu]

theorem Lacks.step (hl : Lacks x g h) (hg : g.Sound) (hh : h.Sound)
    (hr : g.remove .source = (some s, rest)) (hsx : s ≠ x) :
    ∃ left, h.remove .source = (some s, left) ∧ Lacks x rest left := by
  obtain ⟨-, hw, -⟩ := hg.remove_some hr
  have hp : g.sources.pop.1 = some s := pop_of_remove hr
  have hpop := hl.pop_eq hh
  rw [Frontier.pop_without (by simpa [hp] using hsx), hp, Prod.mk.injEq] at hpop
  obtain ⟨hfst, hsnd⟩ := hpop
  have hleft : h.remove .source = (some s, (h.remove .source).2) :=
    Prod.ext ((remove_fst h .source).trans hfst) rfl
  obtain ⟨-, hwl, -⟩ := hh.remove_some hleft
  refine ⟨_, hleft, fun c hc => ?_, ?_, ?_, ?_, ?_⟩
  · rw [hw.edges] at hc
    exact hl.last c (mem_edgesWithout.1 hc).1
  · exact fun hx => hl.gone ((remove_subset h .source).1 hx)
  · rw [hwl.edges, hl.edgesWithout, ← hw.edges]
    rfl
  · rw [hwl.entry, hl.entry, hw.entry]
  · have hasc : ∀ {k : Graph}, k.Sound → k.sources.pop.2.queue.Pairwise fun y z => y.le z :=
      fun hk => (hk.inOrder .source).ascending.sublist (Frontier.queue_pop_sublist _)
    -- Both discard what they took and queue what it freed, the same but for the one stage.
    have hrest := frontier_remove hr .source
    have hleft := frontier_remove hleft .source
    simp only [frontier, if_true] at hrest hleft
    have hentries : (h.freed s .source).map h.entry =
        ((g.freed s .source).map g.entry).filter (·.name ≠ x) := by
      rw [hl.freed hsx, hl.entry, List.filter_map]
      congr 1
      apply List.filter_congr
      intro u _
      simp [entry_name]
    rw [hrest, hleft, Frontier.without_discard, Frontier.without_discard,
      Frontier.without_addAll (hasc hg), Frontier.without_addAll (hasc hh), hsnd, hentries]
    simp only [List.filter_filter, Bool.and_self]

theorem Lacks.drain (hl : Lacks x g h) (hg : g.Sound) (hh : h.Sound) :
    (h.drain .source).1 = (g.drain .source).1.filter (· ≠ x) := by
  -- The search that has the stage leads; where it takes it, the other stands still.
  induction g using Graph.drain.induct .source generalizing h with
  | case1 g rest hr =>
    have hp : g.sources.pop.1 = none := pop_of_remove hr
    have hpop := congrArg Prod.fst (hl.pop_eq hh)
    rw [Frontier.pop_without (by simp [hp]), hp] at hpop
    have hnone : h.remove .source = (none, (h.remove .source).2) :=
      Prod.ext ((remove_fst h .source).trans hpop) rfl
    rw [drain_of_none hr, drain_of_none hnone]
    rfl
  | case2 g s rest hr ih =>
    have hrest := (hg.remove_some hr).2.2
    rw [drain_of_some hr]
    by_cases hsx : s = x
    · subst hsx
      simpa using ih (hl.taken hg hr) hrest hh
    · obtain ⟨left, hleft, hl⟩ := hl.step hg hh hr hsx
      rw [drain_of_some hleft, List.filter_cons_of_pos (by simpa using hsx)]
      exact congrArg (s :: ·) (ih hl hrest (hh.remove_some hleft).2.2)

theorem Valid.drain_of_stages_eq_nil (hv : g.Valid) (hs : g.stages = []) :
    (g.drain .source).1 = [] := by
  apply List.eq_nil_iff_forall_not_mem.2
  intro u hu
  rw [(isOrder_drain hv).mem_iff, hs] at hu
  exact List.not_mem_nil hu

theorem Valid.drain_remove (hv : g.Valid) (e : End) :
    ((g.remove e).2.drain .source).1 =
      (g.drain .source).1.filter fun u => some u ≠ (g.remove e).1 := by
  have hrest := hv.remove e
  cases hr : g.remove e with
  | mk yield rest =>
    rw [hr] at hrest
    cases yield with
    | none =>
      obtain ⟨hm, rfl⟩ := hv.remove_none hr
      have hs := (hv.members_eq_nil_iff e).1 hm
      rw [hv.drain_of_stages_eq_nil hs, hrest.drain_of_stages_eq_nil (by simpa using hs)]
      rfl
    | some s =>
      simp only [ne_eq, Option.some.injEq]
      cases e with
      | source =>
        have hnodup := (isOrder_drain hv).nodup
        rw [drain_of_some hr] at hnodup ⊢
        have hall : ∀ u ∈ (rest.drain .source).1, u ≠ s :=
          fun u hu he => (List.nodup_cons.1 hnodup).1 (he ▸ hu)
        simpa using (List.filter_eq_self.2 (by simpa using hall)).symm
      | sink => simpa using (Lacks.of_remove_sink hv.toSound hr).drain hv.toSound hrest.toSound

theorem Valid.drain_strip (hv : g.Valid) (ds : List End) :
    ((g.strip ds).drain .source).1 =
      (g.drain .source).1.filter fun u => u ∉ (g.taken ds).map Prod.snd := by
  induction ds generalizing g with
  | nil => simp [strip, Graph.run, Graph.taken]
  | cons d ds ih =>
    rw [strip_cons, ih (hv.remove d), hv.drain_remove d, List.filter_filter]
    apply List.filter_congr
    intro u _
    rw [Bool.eq_iff_iff, Bool.and_eq_true, decide_eq_true_eq, decide_eq_true_eq, decide_eq_true_eq]
    cases hr : (g.remove d).1 <;> simp [Graph.taken, hr, and_comm, eq_comm]

/-- After any calls, stages that are taken away at either end are missing from the order found,
and the others stand in it as they stood before. -/
theorem linearize_strip {g₀ : Graph} (hg : ofItems t items = .ok g₀) (es : List Edit)
    (ds : List End) :
    let g := g₀.run es
    let gone := (g.taken ds).map Prod.snd
    gone.Nodup ∧ (∀ s, s ∈ gone ↔ s ∈ g.stages ∧ s ∉ (g.strip ds).stages) ∧
      ∃ l, g.linearize = .ok l ∧ (∀ s ∈ gone, s ∈ l) ∧
        (g.strip ds).linearize = .ok (l.filter (· ∉ gone)) := by
  obtain ⟨cs, -, -, hvalid⟩ := valid_of_ofItems hg
  have hv := hvalid.run es
  generalize g₀.run es = g at hv
  have hstrip := hv.run (ds.map .remove)
  refine ⟨hv.nodup_taken ds, fun s => hv.mem_taken ds, _, linearize_eq_ok hv.toSound hv.acyclic,
    fun s hs => ?_, ?_⟩
  · exact ((isOrder_drain hv).mem_iff s).2 ((hv.mem_taken ds).1 hs).1
  · rw [← hv.drain_strip ds]
    exact linearize_eq_ok hstrip.toSound hstrip.acyclic

theorem linearize_strip_recalled :
    let g₀ := draw .insertion [⟨"a", "c"⟩, ⟨"b", "c"⟩, ⟨"d", "c"⟩, ⟨"b", "e"⟩]
    let g := g₀.run [.remove .sink, .remove .sink, .insert (.text "a") (.text "b")]
    ofItems .insertion [.tuple [.text "a", .text "c"], .list [.text "b", .text "c"],
        .tuple [.text "d", .text "c"], .tuple [.text "b", .text "e"]] = .ok g₀ ∧
      g.linearize = .ok ["a", "b", "d", "e"] ∧
      g.taken [.sink, .source] = [(.sink, "d"), (.source, "a")] ∧
      (g.strip [.sink, .source]).linearize = .ok ["b", "e"] := by
  have hg : ofItems .insertion [.tuple [.text "a", .text "c"], .list [.text "b", .text "c"],
      .tuple [.text "d", .text "c"], .tuple [.text "b", .text "e"]] =
        .ok (draw .insertion [⟨"a", "c"⟩, ⟨"b", "c"⟩, ⟨"d", "c"⟩, ⟨"b", "e"⟩]) := by cbv
  obtain ⟨-, -, l, hl, -, hrest⟩ := linearize_strip hg
    [.remove .sink, .remove .sink, .insert (.text "a") (.text "b")] [.sink, .source]
  have horder : ((draw .insertion [⟨"a", "c"⟩, ⟨"b", "c"⟩, ⟨"d", "c"⟩, ⟨"b", "e"⟩]).run
      [.remove .sink, .remove .sink, .insert (.text "a") (.text "b")]).linearize =
        .ok ["a", "b", "d", "e"] := by cbv
  have htaken : ((draw .insertion [⟨"a", "c"⟩, ⟨"b", "c"⟩, ⟨"d", "c"⟩, ⟨"b", "e"⟩]).run
      [.remove .sink, .remove .sink, .insert (.text "a") (.text "b")]).taken [.sink, .source] =
        [(.sink, "d"), (.source, "a")] := by
    decide +kernel
  rw [horder, Except.ok.injEq] at hl
  rw [htaken, ← hl] at hrest
  exact ⟨hg, horder, htaken, hrest⟩

end Graph

end Pipeline
