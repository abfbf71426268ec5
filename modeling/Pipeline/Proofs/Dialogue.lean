import Pipeline.Proofs.Phase
import Pipeline.Proofs.Twin

namespace Pipeline.Planner

open Pipeline.Graph Connection

variable {α β : Type} {g h : Graph} {t u : TieBreak} {items more : List Value}
  {made other : Except GraphError Graph} (c : Log.Config) (time : String)

inductive Call where
  | insert (name target : Value)
  | remove (e : End)
  | linearize
  | validate
  | reachable (stage stops : Value)
  | subset (stage stops : Value)
  | enter (stage stops : Value)

inductive Reply where
  | inserted (a : Answer Unit)
  | removed (s : Option String)
  | ordered (r : Except GraphError (List String))
  | checked (r : Except GraphError Unit)
  | reached (r : Except Failure (List String))
  | cut (a : Answer Graph)

/-- The reply to a call and the graph that the next one goes to. -/
def ask (g : Graph) : Call → Reply × Graph
  | .insert name target =>
    let (spliced, a) := insert c time g name target
    (.inserted a, spliced)
  | .remove e => (.removed (g.remove e).1, (g.remove e).2)
  | .linearize => (.ordered g.linearize, g)
  | .validate => (.checked g.validate, g)
  | .reachable stage stops => (.reached (reachable g stage stops), g)
  | .subset stage stops => (.cut (subset c time g stage stops), g)
  | .enter stage stops =>
    let a := subset c time g stage stops
    (.cut a, a.result.toOption.getD g)

def trace (g : Graph) : List Call → List (Reply × Graph)
  | [] => []
  | call :: calls =>
    let asked := ask c time g call
    asked :: trace asked.2 calls

/-- The same lines, and results that are related or one finding. -/
structure Agree (r : α → α → Prop) (a b : Answer α) : Prop where
  result : Both r a.result b.result
  lines : a.lines = b.lines

theorem Agree.mono {r q : α → α → Prop} {a b : Answer α} (hrq : ∀ x y, r x y → q x y)
    (h : Agree r a b) : Agree q a b :=
  ⟨h.result.mono hrq, h.lines⟩

theorem Agree.andThen {r : α → α → Prop} {q : β → β → Prop} {a b : Answer α}
    {next cont : α → Answer β} (h : Agree r a b)
    (hnext : ∀ x y, r x y → Agree q (next x) (cont y)) :
    Agree q (a.andThen next) (b.andThen cont) := by
  obtain ⟨ra, la⟩ := a
  obtain ⟨rb, lb⟩ := b
  obtain ⟨hr, rfl⟩ := h
  cases hr with
  | error f => exact ⟨.error f, rfl⟩
  | ok hxy => exact ⟨(hnext _ _ hxy).result, congrArg (la ++ ·) (hnext _ _ hxy).lines⟩

theorem agree_andThen {q : β → β → Prop} (a : Answer α) {next cont : α → Answer β}
    (hnext : ∀ x, Agree q (next x) (cont x)) : Agree q (a.andThen next) (a.andThen cont) := by
  refine Agree.andThen (r := Eq) ⟨?_, rfl⟩ ?_
  · cases a.result with
    | error f => exact .error f
    | ok x => exact .ok rfl
  · rintro x _ rfl
    exact hnext x

theorem names_congr {l m : List String} (hl : l.Nodup) (hm : m.Nodup) (h : ∀ s, s ∈ l ↔ s ∈ m) :
    names l = names m := by
  rw [names, names, sortedNames_congr hl hm h]

theorem length_congr {l m : List α} (hl : l.Nodup) (hm : m.Nodup) (h : ∀ a, a ∈ l ↔ a ∈ m) :
    l.length = m.length :=
  ((List.perm_ext_iff_of_nodup hl hm).2 h).length_eq

theorem length_stages_eq (ht : Twins g h) : g.stages.length = h.stages.length :=
  length_congr ht.left.stages_nodup ht.right.stages_nodup ht.alike.stages

theorem passed_eq (ht : Twins g h) :
    passed c time g = passed c time h := by
  have hedges : g.edges.length = h.edges.length :=
    length_congr ht.left.edges_nodup ht.right.edges_nodup ht.alike.edges
  have hends : ∀ e, names (g.frontier e).members = names (h.frontier e).members :=
    fun e => names_congr (ht.left.once e) (ht.right.once e) fun _ => ht.mem_members
  have hsources : names g.sources.members = names h.sources.members := hends .source
  have hsinks : names g.sinks.members = names h.sinks.members := hends .sink
  unfold passed
  rw [length_stages_eq ht, hedges, hsources, hsinks]

theorem agree_announced (hmade : Both Twins made other) :
    Agree Twins (announced c time made) (announced c time other) := by
  cases hmade with
  | error e => exact ⟨.error _, rfl⟩
  | ok ht =>
    simp only [announced, passed_eq c time ht]
    exact agree_andThen _ fun _ => ⟨.ok ht, rfl⟩

theorem both_reachable (ht : Twins g h) (stage stops : Value) :
    Both (fun l m => ∀ s, s ∈ l ↔ s ∈ m) (reachable g stage stops) (reachable h stage stops) := by
  unfold reachable
  rw [ht.alike.stage?_eq]
  cases h.stage? stage with
  | none => exact .error _
  | some s =>
    cases stops.hashedItems with
    | error m => exact .error _
    | ok stops => exact .ok fun _ => ht.mem_reach

theorem mem_induced_congr (ht : Twins g h) {l m : List String} (hlm : ∀ s, s ∈ l ↔ s ∈ m)
    (d : Connection) : d ∈ g.induced l ↔ d ∈ h.induced m := by
  rw [ht.left.mem_induced, ht.right.mem_induced, ht.alike.edges, hlm, hlm]

theorem agree_subset (ht : Twins g h) (stage stops : Value) :
    Agree Twins (subset c time g stage stops) (subset c time h stage stops) := by
  have hreach := both_reachable ht stage stops
  unfold subset
  generalize reachable g stage stops = r at hreach
  generalize reachable h stage stops = q at hreach
  cases hreach with
  | error f => exact ⟨.error f, rfl⟩
  | ok hlm =>
    -- Drawn anew, both start without a history; only the order of what is drawn differs.
    rw [← ht.alike.tieBreak, ht.byName]
    refine (agree_announced c time (both_ofConnections (mem_induced_congr ht hlm))).andThen
      fun sub cut hsub => ?_
    rw [length_stages_eq hsub]
    exact agree_andThen _ fun _ => ⟨.ok hsub, rfl⟩

theorem names_inputsOf (ht : Twins g h) (v : Value) :
    names (g.inputsOf v) = names (h.inputsOf v) := by
  unfold inputsOf
  rw [ht.alike.stage?_eq]
  cases h.stage? v with
  | none => rfl
  | some s =>
    have hinputs : ∀ u, u ∈ g.inputs s ↔ u ∈ h.inputs s := fun u => by
      rw [mem_inputs, mem_inputs, ht.alike.edges]
    exact names_congr (ht.left.nodup_inputs s) (ht.right.nodup_inputs s) hinputs

theorem insert_eq (ht : Twins g h) (name target : Value) :
    (insert c time g name target).2 = (insert c time h name target).2 ∧
      Twins (insert c time g name target).1 (insert c time h name target).1 := by
  have hi := ht.insert name target
  unfold insert
  generalize g.insert name target = r at hi
  generalize h.insert name target = q at hi
  cases hi with
  | error e => exact ⟨rfl, ht⟩
  | ok hspliced =>
    refine ⟨?_, hspliced⟩
    dsimp only
    rw [names_inputsOf ht]

/-- Replies that a caller cannot tell apart. Sets are told by their members, graphs as they are
compared, all else by what it is. -/
inductive Reply.Same : Reply → Reply → Prop
  | inserted (a : Answer Unit) : Same (.inserted a) (.inserted a)
  | removed (s : Option String) : Same (.removed s) (.removed s)
  | ordered (r : Except GraphError (List String)) : Same (.ordered r) (.ordered r)
  | checked (r : Except GraphError Unit) : Same (.checked r) (.checked r)
  | reached {r q : Except Failure (List String)} (h : Both (fun l m => ∀ s, s ∈ l ↔ s ∈ m) r q) :
    Same (.reached r) (.reached q)
  | cut {a b : Answer Graph} (h : Agree (fun k l => k.same l = true) a b) : Same (.cut a) (.cut b)

theorem same_cut {a b : Answer Graph} (hab : Agree Twins a b) : (Reply.cut a).Same (.cut b) :=
  .cut (hab.mono fun _ _ ht => ht.same)

theorem ask_twins (ht : Twins g h) (call : Call) :
    (ask c time g call).1.Same (ask c time h call).1 ∧
      Twins (ask c time g call).2 (ask c time h call).2 := by
  cases call with
  | insert name target =>
    obtain ⟨ha, hspliced⟩ := insert_eq c time ht name target
    refine ⟨?_, hspliced⟩
    simp only [ask, ha]
    exact .inserted _
  | remove e =>
    refine ⟨?_, ht.remove e⟩
    simp only [ask, ht.remove_fst]
    exact .removed _
  | linearize =>
    refine ⟨?_, ht⟩
    simp only [ask, ht.linearize_eq]
    exact .ordered _
  | validate =>
    refine ⟨?_, ht⟩
    simp only [ask, ht.validate_eq]
    exact .checked _
  | reachable stage stops => exact ⟨.reached (both_reachable ht stage stops), ht⟩
  | subset stage stops => exact ⟨same_cut (agree_subset c time ht stage stops), ht⟩
  | enter stage stops =>
    have hsub := agree_subset c time ht stage stops
    exact ⟨same_cut hsub, hsub.result.getD ht⟩

theorem trace_twins (ht : Twins g h) (calls : List Call) :
    List.Forall₂ (fun a b => a.1.Same b.1 ∧ a.2.same b.2 = true) (trace c time g calls)
      (trace c time h calls) := by
  induction calls generalizing g h with
  | nil => exact .nil
  | cons call calls ih =>
    obtain ⟨hreply, hnext⟩ := ask_twins c time ht call
    exact .cons ⟨hreply, hnext.same⟩ (ih hnext)

/-- Graphs with histories of their own are the same when their stages and connections are, and
then they have one text. By name, calls cannot tell them apart from then on, whatever ranks, queues
and orders they have come by. -/
theorem same_answers {g₀ h₀ : Graph} (hg : ofItems t items = .ok g₀)
    (hh : ofItems u more = .ok h₀) (es fs : List Edit) :
    let g := g₀.run es
    let h := h₀.run fs
    (g.same h = true ↔ (∀ s, s ∈ g.stages ↔ s ∈ h.stages) ∧
      ∀ d, d ∈ g.connections ↔ d ∈ h.connections) ∧
    (g.same h = true → g.text = h.text) ∧
    (t = .lexicographic → u = .lexicographic → g.same h = true →
      ∀ (c : Log.Config) (time : String) (calls : List Call),
        List.Forall₂ (fun a b => a.1.Same b.1 ∧ a.2.same b.2 = true) (trace c time g calls)
          (trace c time h calls)) := by
  obtain ⟨hgk, hgt⟩ := kept_of_ofItems hg
  obtain ⟨hhk, hht⟩ := kept_of_ofItems hh
  have hgrun := (tieBreak_run g₀ es).trans hgt
  have hhrun := (tieBreak_run h₀ fs).trans hht
  replace hgk := hgk.run es
  replace hhk := hhk.run fs
  generalize g₀.run es = g at *
  generalize h₀.run fs = h at *
  refine ⟨?_, fun hsame => ?_, ?_⟩
  · simp only [hgk.mem_connections_iff, hhk.mem_connections_iff]
    exact hgk.same_iff hhk.toBooks
  · obtain ⟨hs, he⟩ := (hgk.same_iff hhk.toBooks).1 hsame
    exact hgk.text_eq hhk hs he
  · rintro rfl rfl hsame c time calls
    obtain ⟨hs, he⟩ := (hgk.same_iff hhk.toBooks).1 hsame
    exact trace_twins c time ⟨⟨hgrun.trans hhrun.symm, hs, he⟩, hgrun, hgk, hhk⟩ calls

/-- What is left of a longer graph is the shorter one, though its names have other ranks. -/
theorem same_answers_stripped :
    let g := draw .lexicographic [⟨"a", "c"⟩, ⟨"b", "c"⟩]
    let h₀ := draw .lexicographic [⟨"A", "b"⟩, ⟨"b", "c"⟩, ⟨"a", "c"⟩, ⟨"c", "d"⟩]
    let h := h₀.run [.remove .source, .remove .sink]
    let calls : List Call := [.insert (.text "x") (.text "c"), .insert (.text "x") (.text "b"),
      .remove .source, .enter (.text "b") (.list []), .remove .sink, .linearize]
    ofItems .lexicographic [.tuple [.text "a", .text "c"], .list [.text "b", .text "c"]] = .ok g ∧
      ofItems .lexicographic [.tuple [.text "A", .text "b"], .tuple [.text "b", .text "c"],
        .tuple [.text "a", .text "c"], .tuple [.text "c", .text "d"]] = .ok h₀ ∧
      g.ranks.lookup "c" ≠ h.ranks.lookup "c" ∧ g.same h = true ∧ g.text = h.text ∧
      ∀ (c : Log.Config) (time : String),
        List.Forall₂ (fun a b => a.1.Same b.1 ∧ a.2.same b.2 = true) (trace c time g calls)
          (trace c time h calls) := by
  have hg : ofItems .lexicographic [.tuple [.text "a", .text "c"], .list [.text "b", .text "c"]] =
      .ok (draw .lexicographic [⟨"a", "c"⟩, ⟨"b", "c"⟩]) := by cbv
  have hh : ofItems .lexicographic [.tuple [.text "A", .text "b"], .tuple [.text "b", .text "c"],
      .tuple [.text "a", .text "c"], .tuple [.text "c", .text "d"]] =
        .ok (draw .lexicographic [⟨"A", "b"⟩, ⟨"b", "c"⟩, ⟨"a", "c"⟩, ⟨"c", "d"⟩]) := by cbv
  have hsame : (draw .lexicographic [⟨"a", "c"⟩, ⟨"b", "c"⟩]).same
      ((draw .lexicographic [⟨"A", "b"⟩, ⟨"b", "c"⟩, ⟨"a", "c"⟩, ⟨"c", "d"⟩]).run
        [.remove .source, .remove .sink]) = true := by
    decide +kernel
  obtain ⟨-, htext, hcalls⟩ := same_answers hg hh [] [.remove .source, .remove .sink]
  exact ⟨hg, hh, by decide +kernel, hsame, htext hsame,
    fun c time => hcalls rfl rfl hsame c time _⟩

end Pipeline.Planner
