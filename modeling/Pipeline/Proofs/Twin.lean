import Pipeline.Proofs.Alike
import Pipeline.Proofs.Comeback
import Mathlib.Data.Prod.Lex

namespace Pipeline

namespace Connection

variable {c d : Connection}

theorem le_iff : c.le d ↔ toLex (c.tail, c.head) ≤ toLex (d.tail, d.head) := by
  simp [le, Prod.Lex.toLex_le_toLex]

theorem mergeSort_le_congr {cs ds : List Connection} (hc : cs.Nodup) (hd : ds.Nodup)
    (h : ∀ c, c ∈ cs ↔ c ∈ ds) : cs.mergeSort le = ds.mergeSort le := by
  apply mergeSort_congr ?_ ?_ ?_ hc hd h
  · intro a b c
    simp only [le_iff]
    exact le_trans
  · intro a b
    rw [Bool.or_eq_true, le_iff, le_iff]
    exact le_total _ _
  · intro a b hab hba
    have hkey := le_antisymm (le_iff.1 hab) (le_iff.1 hba)
    cases a
    cases b
    simpa using hkey

end Connection

/-- Both fail with one finding, or both come to results that are related. -/
inductive Both {ε α : Type} (r : α → α → Prop) : Except ε α → Except ε α → Prop
  | error (e : ε) : Both r (.error e) (.error e)
  | ok {x y : α} (h : r x y) : Both r (.ok x) (.ok y)

theorem Both.mono {ε α : Type} {r q : α → α → Prop} {a b : Except ε α}
    (hrq : ∀ x y, r x y → q x y) (h : Both r a b) : Both q a b := by
  cases h with
  | error e => exact .error e
  | ok h => exact .ok (hrq _ _ h)

theorem Both.getD {ε α : Type} {r : α → α → Prop} {a b : Except ε α} {x y : α} (h : Both r a b)
    (hxy : r x y) : r (a.toOption.getD x) (b.toOption.getD y) := by
  cases h with
  | error e => exact hxy
  | ok h => exact h

namespace Graph

open Pipeline.Path Connection

variable {g h : Graph} {e : End} {t : TieBreak} {s n : String} {cs ds : List Connection}

theorem nodup_refresh (hg : (g.frontier e).members.Nodup) (s : String) :
    ((g.refresh s).frontier e).members.Nodup := by
  rw [frontier_refresh]
  split
  · exact Frontier.nodup_add hg _
  · exact Frontier.nodup_discard hg s

theorem nodup_foldl_refresh (hg : (g.frontier e).members.Nodup) (l : List String) :
    ((l.foldl refresh g).frontier e).members.Nodup := by
  induction l generalizing g with
  | nil => exact hg
  | cons s l ih => exact ih (nodup_refresh hg s)

structure Kept (g : Graph) : Prop extends g.Valid where
  seated : g.Seated
  once : ∀ e, (g.frontier e).members.Nodup
  settled : g.tieBreak = .lexicographic → ∃ seen, Settled seen g

theorem kept_draw (hv : (draw t cs).Valid) : (draw t cs).Kept where
  toValid := hv
  seated := seated_draw t cs
  once e := by
    obtain ⟨g, hdraw, -, -, -, hempty⟩ := draw_eq_foldl_refresh t cs
    rw [hdraw]
    apply nodup_foldl_refresh
    rw [hempty]
    exact .nil
  settled _ := ⟨_, settled_draw t cs⟩

theorem Kept.splice (hg : g.Kept) (hn : n ∉ g.stages) (hs : s ∈ g.stages) :
    (g.splice n s).Kept where
  toValid := hg.toValid.splice hn hs
  seated := hg.seated.enter hn rfl rfl rfl
  once e := by
    rw [splice_eq]
    apply nodup_refresh
    apply nodup_refresh
    rw [frontier_rewired]
    exact hg.once e
  settled ht := by
    obtain ⟨seen, hseen⟩ := hg.settled ht
    exact ⟨_, hseen.splice hs (.inl ht)⟩

theorem Kept.remove (hg : g.Kept) (e : End) : (g.remove e).2.Kept where
  toValid := hg.toValid.remove e
  seated := hg.seated.remove e
  once d := by
    cases hr : g.remove e with
    | mk yield rest =>
      cases yield with
      | none =>
        obtain ⟨-, rfl⟩ := hg.remove_none hr
        rw [frontier_withFrontier]
        split
        · exact .nil
        · exact hg.once d
      | some s =>
        rw [frontier_remove hr]
        apply Frontier.nodup_discard
        apply Frontier.nodup_addAll
        split
        · exact hg.once e
        · exact hg.once d
  settled ht := by
    obtain ⟨seen, hseen⟩ := hg.settled ((remove_frame g e).1.symm.trans ht)
    exact ⟨seen, hseen.remove hg.toBooks e⟩

theorem Kept.run (hg : g.Kept) (es : List Edit) : (g.run es).Kept :=
  (hg.run_keeps (P := Kept) (fun _ hn hs hk => hk.splice hn hs) (fun e _ hk => hk.remove e) es
    hg).1

theorem kept_of_ofItems {items : List Value} (hg : ofItems t items = .ok g) :
    g.Kept ∧ g.tieBreak = t := by
  obtain ⟨cs, -, rfl, hv⟩ := valid_of_ofItems hg
  exact ⟨kept_draw hv, tieBreak_draw t cs⟩

theorem namesText_congr {l m : List String} (hl : l.Nodup) (hm : m.Nodup)
    (h : ∀ s, s ∈ l ↔ s ∈ m) : namesText l = namesText m := by
  rw [namesText, namesText, sortedNames_congr hl hm h]

theorem Kept.text_eq (hg : g.Kept) (hh : h.Kept) (hs : ∀ s, s ∈ g.stages ↔ s ∈ h.stages)
    (he : ∀ c, c ∈ g.edges ↔ c ∈ h.edges) : g.text = h.text := by
  have hstages : namesText g.stages = namesText h.stages :=
    namesText_congr hg.stages_nodup hh.stages_nodup hs
  have hends : ∀ e, namesText (g.frontier e).members = namesText (h.frontier e).members :=
    fun e => namesText_congr (hg.once e) (hh.once e) fun _ => hg.mem_members_congr hh.toBooks hs he
  have hsources : namesText g.sources.members = namesText h.sources.members := hends .source
  have hsinks : namesText g.sinks.members = namesText h.sinks.members := hends .sink
  have hedges : g.sortedEdges = h.sortedEdges :=
    mergeSort_le_congr hg.edges_nodup hh.edges_nodup he
  unfold text
  rw [hstages, hsources, hsinks, hedges]

/-- Graphs by name with the same stages and connections, each with a history of its own. -/
structure Twins (g h : Graph) : Prop where
  alike : Alike g h
  byName : g.tieBreak = .lexicographic
  left : g.Kept
  right : h.Kept

theorem Twins.same (ht : Twins g h) : g.same h = true :=
  ht.alike.same ht.left.toBooks ht.right.toBooks

theorem Twins.mem_members (ht : Twins g h) :
    s ∈ (g.frontier e).members ↔ s ∈ (h.frontier e).members :=
  ht.alike.mem_members ht.left.toBooks ht.right.toBooks

theorem Twins.splice (ht : Twins g h) (hn : n ∉ g.stages) (hs : s ∈ g.stages) :
    Twins (g.splice n s) (h.splice n s) where
  alike := by
    refine ⟨ht.alike.tieBreak, fun u => ?_, fun c => ?_⟩
    · simp only [mem_stages_splice, ht.alike.stages]
    · show c ∈ g.splicedEdges n s ↔ c ∈ h.splicedEdges n s
      simp only [mem_splicedEdges, ht.alike.edges]
  byName := ht.byName
  left := ht.left.splice hn hs
  right := ht.right.splice (mt (ht.alike.stages n).2 hn) ((ht.alike.stages s).1 hs)

theorem edges_remove (g : Graph) (e : End) :
    (g.remove e).2.edges = g.edges.filter fun c =>
      some c.tail ≠ (g.remove e).1 ∧ some c.head ≠ (g.remove e).1 := by
  rw [remove_eq]
  cases (g.frontier e).pop.1 <;> simp [takeAway, edgesWithout]

theorem Twins.remove_fst (ht : Twins g h) (e : End) : (g.remove e).1 = (h.remove e).1 := by
  obtain ⟨seen, hseen⟩ := ht.left.settled ht.byName
  obtain ⟨known, hknown⟩ := ht.right.settled (ht.alike.tieBreak ▸ ht.byName)
  ext s
  rw [hseen.remove_eq_some_iff ht.left.toValid ht.left.seated,
    hknown.remove_eq_some_iff ht.right.toValid ht.right.seated, ← ht.alike.tieBreak, ht.byName]
  simp only [TieBreak.First, ht.mem_members]
  rfl

theorem Twins.remove (ht : Twins g h) (e : End) : Twins (g.remove e).2 (h.remove e).2 where
  alike := by
    refine ⟨?_, fun u => ?_, fun c => ?_⟩
    · rw [(remove_frame g e).1, (remove_frame h e).1, ht.alike.tieBreak]
    · simp only [stages_remove, List.mem_filter, ht.alike.stages, ht.remove_fst]
    · simp only [edges_remove, List.mem_filter, ht.alike.edges, ht.remove_fst]
  byName := (remove_frame g e).1.trans ht.byName
  left := ht.left.remove e
  right := ht.right.remove e

theorem Twins.linearize_eq (ht : Twins g h) : g.linearize = h.linearize := by
  obtain ⟨_, hseen⟩ := ht.left.settled ht.byName
  obtain ⟨_, hknown⟩ := ht.right.settled (ht.alike.tieBreak ▸ ht.byName)
  exact ht.alike.linearize_eq ht.byName ht.left.toValid ht.right.toValid hseen hknown

theorem Twins.validate_eq (ht : Twins g h) : g.validate = h.validate :=
  ht.alike.validate_eq ht.byName ht.left.toSound ht.right.toSound ht.left.seated ht.right.seated

theorem Twins.mem_reach (ht : Twins g h) {stops : List String} {u : String} :
    u ∈ g.reach s stops ↔ u ∈ h.reach s stops := by
  have hpasses : Passes g.edges s stops = Passes h.edges s stops := by
    funext a b
    simp only [Passes, ht.alike.leads]
  rw [mem_reach_iff, mem_reach_iff, hpasses]

theorem both_ofConnections (hsame : ∀ c, c ∈ cs ↔ c ∈ ds) :
    Both Twins (ofConnections .lexicographic cs) (ofConnections .lexicographic ds) := by
  have hnil : cs = [] ↔ ds = [] := by
    simp only [List.eq_nil_iff_forall_not_mem, hsame]
  by_cases hcs : cs = []
  · rw [hcs, hnil.1 hcs]
    exact .error _
  rw [ofConnections_eq hcs, ofConnections_eq (mt hnil.2 hcs)]
  have ha := alike_draw .lexicographic hsame
  have hg := sound_draw .lexicographic cs
  have hh := sound_draw .lexicographic ds
  have hname := tieBreak_draw .lexicographic cs
  have heq := ha.validate_eq hname hg hh (seated_draw _ cs) (seated_draw _ ds)
  cases hv : (draw .lexicographic cs).validate with
  | error e =>
    rw [← heq, hv]
    exact .error e
  | ok =>
    have hv' : (draw .lexicographic ds).validate = .ok () := heq.symm.trans hv
    rw [hv']
    exact .ok ⟨ha, hname, kept_draw (hg.valid_of_validate hv), kept_draw (hh.valid_of_validate hv')⟩

theorem Alike.stage?_eq (ha : Alike g h) (v : Value) : g.stage? v = h.stage? v := by
  ext s
  rw [stage?_eq_some_iff, stage?_eq_some_iff, ha.stages]

theorem Twins.insert (ht : Twins g h) (name target : Value) :
    Both Twins (g.insert name target) (h.insert name target) := by
  have hstage := ht.alike.stage?_eq
  unfold Graph.insert
  rw [has, has, ← hstage, ← hstage]
  cases htarget : g.stage? target with
  | none => exact .error _
  | some s =>
    cases hname : g.stage? name with
    | some _ => exact .error _
    | none =>
      cases hnew : name.stageName? with
      | none => exact .error _
      | some n =>
        obtain ⟨rfl, -⟩ := Value.stageName?_eq_some_iff.1 hnew
        have hn : n ∉ g.stages := by simpa [stage?] using hname
        exact .ok (ht.splice hn (stage?_eq_some_iff.1 htarget).2)

end Graph

end Pipeline
