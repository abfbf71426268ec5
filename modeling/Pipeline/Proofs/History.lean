import Mathlib
import Pipeline.Proofs.Acceptance

namespace Pipeline.Graph

open Pipeline.Path Relation Connection

variable {g h : Graph} {t : TieBreak} {items : List Value} {cs : List Connection}
  {seen : List String}

inductive Edit where
  | insert (name target : Value)
  | remove (e : End)

/-- The graph after a call. One that fails leaves it as it is. -/
def edit (g : Graph) : Edit → Graph
  | .insert name target => match g.insert name target with
    | .ok spliced => spliced
    | .error _ => g
  | .remove e => (g.remove e).2

def run (g : Graph) (es : List Edit) : Graph := es.foldl edit g

/-- The name that a call brings into the graph. -/
def enters (g : Graph) : Edit → List String
  | .insert name target => match g.insert name target with
    | .ok _ => name.stageName?.toList
    | .error _ => []
  | .remove _ => []

def entered (g : Graph) : List Edit → List String
  | [] => []
  | call :: es => g.enters call ++ (g.edit call).entered es

/-- A record that cannot be made takes nothing back: the graph is the edited one all the same. -/
theorem fst_planner_insert (c : Log.Config) (time : String) (g : Graph) (name target : Value) :
    (Planner.insert c time g name target).1 = g.edit (.insert name target) := by
  cases hi : g.insert name target <;> simp [Planner.insert, edit, hi]

theorem stage?_eq_some_iff {v : Value} {s : String} :
    g.stage? v = some s ↔ v = .text s ∧ s ∈ g.stages := by
  cases v <;> simp [stage?]
  constructor
  · rintro ⟨hs, rfl⟩
    exact ⟨rfl, hs⟩
  · rintro ⟨rfl, hs⟩
    exact ⟨hs, rfl⟩

theorem has_text {s : String} : g.has (.text s) = true ↔ s ∈ g.stages := by
  by_cases hs : s ∈ g.stages <;> simp [has, stage?, hs]

theorem has_text_eq_false {s : String} (hs : s ∉ g.stages) : g.has (.text s) = false :=
  Bool.eq_false_iff.2 (mt has_text.1 hs)

theorem insert_eq_ok_iff {name target : Value} :
    g.insert name target = .ok h ↔ ∃ n s, name = .text n ∧ target = .text s ∧ n ≠ "" ∧
      n ∉ g.stages ∧ s ∈ g.stages ∧ h = g.splice n s := by
  constructor
  · intro hi
    unfold insert at hi
    cases hs : g.stage? target with
    | none => simp [hs, throw, throwThe, MonadExceptOf.throw] at hi
    | some s =>
      obtain ⟨rfl, hmem⟩ := stage?_eq_some_iff.1 hs
      by_cases hn : g.has name = true
      · simp [hs, hn, throw, throwThe, MonadExceptOf.throw, bind, Except.bind] at hi
      cases hname : name.stageName? with
      | none => simp [hs, hn, hname, throw, throwThe, MonadExceptOf.throw] at hi
      | some n =>
        obtain ⟨rfl, hne⟩ := Value.stageName?_eq_some_iff.1 hname
        simp only [hs, hn, hname, pure, Except.pure, Bool.false_eq_true, if_false,
          Except.ok.injEq] at hi
        exact ⟨n, s, rfl, rfl, hne, fun hm => hn (has_text.2 hm), hmem, hi.symm⟩
  · rintro ⟨n, s, rfl, rfl, hne, hn, hs, rfl⟩
    have hstage : g.stage? (.text s) = some s := stage?_eq_some_iff.2 ⟨rfl, hs⟩
    have hhas := has_text_eq_false hn
    simp [insert, hstage, hhas, Value.stageName?, hne, pure, Except.pure]

/-- What a call does: it leaves the graph as it is, splices a new stage in or takes one away. -/
theorem edit_cases (g : Graph) (call : Edit) :
    (g.edit call = g ∧ g.enters call = []) ∨
      (∃ n s, n ≠ "" ∧ n ∉ g.stages ∧ s ∈ g.stages ∧ g.edit call = g.splice n s ∧
        g.enters call = [n]) ∨
      ∃ e, g.edit call = (g.remove e).2 ∧ g.enters call = [] := by
  cases call with
  | remove e => exact .inr (.inr ⟨e, rfl, rfl⟩)
  | insert name target =>
    cases hi : g.insert name target with
    | error e =>
      left
      simp [edit, enters, hi]
    | ok spliced =>
      obtain ⟨n, s, rfl, rfl, hne, hn, hs, rfl⟩ := insert_eq_ok_iff.1 hi
      right
      left
      refine ⟨n, s, hne, hn, hs, ?_, ?_⟩
      · simp [edit, hi]
      · simp [enters, hi, Value.stageName?, hne]

/-- What every graph that callers hold keeps: its books, and freedom from cycles. -/
structure Valid (g : Graph) : Prop extends g.Sound where
  acyclic : ¬Cyclic g.edges

theorem Valid.splice (hg : g.Valid) {n s : String} (hn : n ∉ g.stages) (hs : s ∈ g.stages) :
    (g.splice n s).Valid :=
  ⟨hg.toSound.splice hn hs, acyclic_splice hg.toBooks hn hs hg.acyclic⟩

theorem Valid.remove (hg : g.Valid) (e : End) : (g.remove e).2.Valid :=
  ⟨hg.toSound.remove e, mt (Cyclic.mono (remove_subset g e).2) hg.acyclic⟩

theorem valid_draw (t : TieBreak) (ha : ¬Cyclic cs) : (draw t cs).Valid :=
  ⟨sound_draw t cs, mt (drawn_draw t cs).cyclic_iff.1 ha⟩

theorem valid_of_ofItems (hg : ofItems t items = .ok g) :
    ∃ cs, List.Forall₂ Denotes items cs ∧ g = draw t cs ∧ g.Valid := by
  obtain ⟨cs, hitems, hg⟩ := exists_of_ofItems_eq_ok hg
  have hne : cs ≠ [] := by
    rintro rfl
    cases hg
  obtain ⟨rfl, ha, -⟩ := (ofConnections_eq_ok_iff t hne).1 hg
  exact ⟨cs, hitems, rfl, valid_draw t ha⟩

/-- What splices and removals keep, runs of calls keep, together with the names seen so far. The
names may be asked to be new ones unless something else makes up for it. -/
theorem Valid.run_induction {P : List String → Graph → Prop} {q : Prop}
    (hsplice : ∀ {seen g n s}, g.Valid → n ∉ g.stages → s ∈ g.stages → q ∨ n ∉ seen →
      P seen g → P (seen ++ [n]) (g.splice n s))
    (hremove : ∀ {seen g} e, g.Valid → P seen g → P seen (g.remove e).2)
    (es : List Edit) (hnew : q ∨ (g.entered es).Nodup ∧ seen.Disjoint (g.entered es))
    (hg : g.Valid) (hP : P seen g) : P (seen ++ g.entered es) (g.run es) ∧ (g.run es).Valid := by
  induction es generalizing g seen with
  | nil => exact ⟨by simpa [entered, Graph.run] using hP, hg⟩
  | cons call es ih =>
    have hrun : g.run (call :: es) = (g.edit call).run es := rfl
    have hentered : g.entered (call :: es) = g.enters call ++ (g.edit call).entered es := rfl
    rw [hentered] at hnew
    rw [hrun, hentered]
    obtain ⟨hedit, henters⟩ | ⟨n, s, -, hn, hs, hedit, henters⟩ | ⟨e, hedit, henters⟩ :=
      edit_cases g call
    · rw [hedit, henters] at hnew ⊢
      exact ih hnew hg hP
    · rw [hedit, henters] at hnew ⊢
      have hfresh : q ∨ n ∉ seen := hnew.imp id fun ⟨_, hdis⟩ hns => hdis hns (by simp)
      have hrest : q ∨ ((g.splice n s).entered es).Nodup ∧
          (seen ++ [n]).Disjoint ((g.splice n s).entered es) := by
        refine hnew.imp id fun ⟨hd, hdis⟩ => ⟨(List.nodup_append.1 hd).2.1, ?_⟩
        intro u hu hue
        obtain hu | hu := List.mem_append.1 hu
        · exact hdis hu (List.mem_append_right _ hue)
        · exact (List.nodup_append.1 hd).2.2 u hu u hue rfl
      rw [← List.append_assoc]
      exact ih hrest (hg.splice hn hs) (hsplice hg hn hs hfresh hP)
    · rw [hedit, henters] at hnew ⊢
      exact ih hnew (hg.remove e) (hremove e hg hP)

theorem Valid.run_keeps {P : Graph → Prop}
    (hsplice : ∀ {g n s}, g.Valid → n ∉ g.stages → s ∈ g.stages → P g → P (g.splice n s))
    (hremove : ∀ {g} e, g.Valid → P g → P (g.remove e).2) (es : List Edit) (hg : g.Valid)
    (hP : P g) : P (g.run es) ∧ (g.run es).Valid := by
  have hnew : True ∨ (g.entered es).Nodup ∧ List.Disjoint [] (g.entered es) := .inl trivial
  exact hg.run_induction (P := fun _ g => P g) (fun hv hn hs _ hP => hsplice hv hn hs hP)
    (fun e hv hP => hremove e hv hP) es hnew hP

theorem Valid.run (hg : g.Valid) (es : List Edit) : (g.run es).Valid :=
  (hg.run_keeps (P := fun _ => True) (fun _ _ _ _ => trivial) (fun _ _ _ => trivial) es trivial).2

theorem tieBreak_edit (g : Graph) (call : Edit) : (g.edit call).tieBreak = g.tieBreak := by
  obtain ⟨hedit, -⟩ | ⟨n, s, -, -, -, hedit, -⟩ | ⟨e, hedit, -⟩ := edit_cases g call
  · rw [hedit]
  · rw [hedit]
    rfl
  · rw [hedit]
    exact (remove_frame g e).1

theorem tieBreak_run (g : Graph) (es : List Edit) : (g.run es).tieBreak = g.tieBreak := by
  induction es generalizing g with
  | nil => rfl
  | cons call es ih => exact (ih (g.edit call)).trans (tieBreak_edit g call)

theorem free_source_iff_inputs {s : String} : Free g.edges .source s ↔ g.inputs s = [] := by
  rw [free_source_iff, List.eq_nil_iff_forall_not_mem]
  simp only [mem_inputs, Leads]

theorem free_sink_iff_outputs {s : String} : Free g.edges .sink s ↔ g.outputs s = [] := by
  rw [free_sink_iff, List.eq_nil_iff_forall_not_mem]
  simp only [mem_outputs, Leads]

theorem Valid.members_eq_nil_iff (hg : g.Valid) (e : End) :
    (g.frontier e).members = [] ↔ g.stages = [] := by
  simp only [List.eq_nil_iff_forall_not_mem, hg.members]
  constructor
  · intro hm s hs
    obtain ⟨u, hu⟩ := exists_free e hg.acyclic hg.joined hs
    exact hm u hu
  · exact fun hs u hu => hs u hu.1

theorem Books.mem_connections_iff (hb : g.Books) {c : Connection} :
    c ∈ g.connections ↔ c ∈ g.edges := by
  rw [mem_connections]
  exact and_iff_left_of_imp fun hc => (hb.joined c hc).1

theorem Books.nodup_connections (hb : g.Books) : g.connections.Nodup := by
  refine List.nodup_flatMap.2 ⟨fun s _ => hb.edges_nodup.filter _, ?_⟩
  refine hb.stages_nodup.imp fun {s u} hsu => ?_
  intro c hs hu
  simp only [List.mem_filter, decide_eq_true_eq] at hs hu
  exact hsu (hs.2.symm.trans hu.2)

/-- After any calls, whether they fail or not, the ends of a graph are exact, its connections
join its stages without a circle and stand once in each of the two views, and a removal yields
nothing only when no stage is left. -/
theorem run_books {g₀ : Graph} (hg : ofItems t items = .ok g₀) (es : List Edit) :
    let g := g₀.run es
    (∀ s, s ∈ g.sources.members ↔ s ∈ g.stages ∧ g.inputs s = []) ∧
      (∀ s, s ∈ g.sinks.members ↔ s ∈ g.stages ∧ g.outputs s = []) ∧
      ¬Cyclic g.edges ∧
      (∀ c ∈ g.connections, c.tail ∈ g.stages ∧ c.head ∈ g.stages) ∧
      g.connections.Nodup ∧
      (∀ s u, (g.outputs s).count u = g.connections.count ⟨s, u⟩ ∧
        (g.inputs u).count s = g.connections.count ⟨s, u⟩) ∧
      ∀ e, (g.remove e).1 = none ↔ g.stages = [] := by
  obtain ⟨cs, -, -, hvalid⟩ := valid_of_ofItems hg
  have hv := hvalid.run es
  generalize g₀.run es = g at hv
  have hb := hv.toBooks
  refine ⟨fun s => ?_, fun s => ?_, hv.acyclic, fun c hc => ?_, hb.nodup_connections,
    fun s u => ⟨?_, ?_⟩, fun e => ?_⟩
  · rw [← free_source_iff_inputs]
    exact hb.members .source s
  · rw [← free_sink_iff_outputs]
    exact hb.members .sink s
  · exact hb.joined c (hb.mem_connections_iff.1 hc)
  · simp only [(hb.nodup_outputs s).count, hb.nodup_connections.count, mem_outputs,
      hb.mem_connections_iff]
  · simp only [(hb.nodup_inputs u).count, hb.nodup_connections.count, mem_inputs,
      hb.mem_connections_iff]
  · rw [hv.toSound.remove_fst_eq_none_iff]
    exact hv.members_eq_nil_iff e

theorem run_books_alone :
    let g₀ := draw .insertion [⟨"a", "b"⟩, ⟨"b", "c"⟩]
    let es := [.insert (.text "a") (.text "b"), .remove .sink, .insert (.text "c") (.text "b"),
      .remove .source, .insert (.int 3) (.text "b"), .remove .sink]
    ofItems .insertion [.tuple [.text "a", .text "b"], .list [.text "b", .text "c"]] = .ok g₀ ∧
      "c" ∈ (g₀.run es).sources.members ∧ "c" ∈ (g₀.run es).sinks.members := by
  have hg : ofItems .insertion [.tuple [.text "a", .text "b"], .list [.text "b", .text "c"]] =
      .ok (draw .insertion [⟨"a", "b"⟩, ⟨"b", "c"⟩]) := by cbv
  have h := run_books hg [.insert (.text "a") (.text "b"), .remove .sink,
    .insert (.text "c") (.text "b"), .remove .source, .insert (.int 3) (.text "b"), .remove .sink]
  refine ⟨hg, (h.1 "c").2 ⟨?_, ?_⟩, (h.2.1 "c").2 ⟨?_, ?_⟩⟩ <;> decide +kernel

end Pipeline.Graph
