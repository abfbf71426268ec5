import Pipeline.Proofs.Rename.Answer

namespace Pipeline

namespace Graph

inductive Step where
  | edit (call : Edit)
  | linearize
  | validate
  | reachable (stage : Value) (stops : List Value)

inductive Outcome where
  | inserted (r : Except GraphError Unit)
  | removed (s : Option String)
  | ordered (r : Except GraphError (List String))
  | checked (r : Except GraphError Unit)
  | reached (r : Except Failure (List String))

/-- What a caller learns from a step, records aside. -/
def answer (g : Graph) : Step → Outcome
  | .edit (.insert name target) => .inserted ((g.insert name target).map fun _ => ())
  | .edit (.remove e) => .removed (g.remove e).1
  | .linearize => .ordered g.linearize
  | .validate => .checked g.validate
  | .reachable stage stops => .reached (Planner.reachable g stage (.list stops))

def after (g : Graph) : Step → Graph
  | .edit call => g.edit call
  | .linearize | .validate | .reachable _ _ => g

def script (g : Graph) : List Step → List (Outcome × Graph)
  | [] => []
  | step :: steps => (g.answer step, g.after step) :: (g.after step).script steps

end Graph

namespace Renaming

open Pipeline.Graph

variable (r : Renaming)

def edit : Edit → Edit
  | .insert name target => .insert (r.value name) (r.value target)
  | .remove e => .remove e

def step : Step → Step
  | .edit call => .edit (r.edit call)
  | .linearize => .linearize
  | .validate => .validate
  | .reachable stage stops => .reachable (r.value stage) (stops.map r.value)

def failure : Failure → Failure
  | .graph e => .graph (r.error e)
  | .misuse m => .misuse m
  | .log f => .log f

def outcome : Outcome → Outcome
  | .inserted x => .inserted (r.result id x)
  | .removed s => .removed (s.map r.text)
  | .ordered x => .ordered (r.result (List.map r.text) x)
  | .checked x => .checked (r.result id x)
  | .reached x => .reached ((x.map (List.map r.text)).mapError r.failure)

end Renaming

open Renaming

variable {r : Renaming}

theorem unhashable?_rename (v : Value) : (r.value v).unhashable? = v.unhashable? := by
  cases v <;> rfl

theorem unhashableIn?_rename (vs : List Value) :
    Value.unhashableIn? (vs.map r.value) = Value.unhashableIn? vs := by
  induction vs with
  | nil => rfl
  | cons v vs ih =>
    rw [List.map_cons, Value.unhashableIn?, Value.unhashableIn?, unhashable?_rename, ih]

theorem stageName?_rename (v : Value) : (r.value v).stageName? = v.stageName?.map r.text := by
  cases v
  case text s =>
    by_cases hs : s = ""
    · simp [Renaming.value, Value.stageName?, text_eq_empty_iff, hs]
    · simp [Renaming.value, Value.stageName?, text_eq_empty_iff, hs]
  all_goals rfl

namespace Graph

open Connection

variable {g : Graph} {items more : List Value} {cs : List Connection}

theorem stage?_rename (g : Graph) (v : Value) :
    (r.graph g).stage? (r.value v) = (g.stage? v).map r.text := by
  cases v
  case text s =>
    have hs : r.text s ∈ (r.graph g).stages ↔ s ∈ g.stages := text_mem_map
    simp only [Renaming.value, stage?]
    rw [if_congr hs rfl rfl]
    split <;> rfl
  all_goals rfl

theorem has_rename (g : Graph) (v : Value) : (r.graph g).has (r.value v) = g.has v := by
  rw [has, has, stage?_rename, Option.isSome_map]

theorem stopNames_rename (vs : List Value) :
    stopNames (vs.map r.value) = (stopNames vs).map r.text := by
  induction vs with
  | nil => rfl
  | cons v vs ih => cases v <;> simp_all [stopNames, Renaming.value]

theorem insert_rename (hg : g.Rolled) (ht : g.tieBreak = .insertion) (name target : Value) :
    (r.graph g).insert (r.value name) (r.value target) =
      r.result r.graph (g.insert name target) := by
  unfold insert
  rw [stage?_rename, has_rename, stageName?_rename]
  cases htarget : g.stage? target with
  | none => rfl
  | some s =>
    cases g.has name with
    | true => rfl
    | false =>
      cases name.stageName? with
      | none => rfl
      | some n => exact congrArg _ (splice_rename hg ht n (stage?_eq_some_iff.1 htarget).2)

theorem reachable_rename (g : Graph) (stage : Value) (stops : List Value) :
    Planner.reachable (r.graph g) (r.value stage) (.list (stops.map r.value)) =
      ((Planner.reachable g stage (.list stops)).map (List.map r.text)).mapError r.failure := by
  unfold Planner.reachable
  rw [stage?_rename]
  cases g.stage? stage with
  | none => rfl
  | some s =>
    simp only [Option.map_some, Value.hashedItems, Value.items?, unhashableIn?_rename]
    cases Value.unhashableIn? stops with
    | some k => rfl
    | none =>
      simp only [stopNames_rename, reach_rename]
      rfl

theorem step_rename (hg : g.Rolled) (hs : g.Sound) (ht : g.tieBreak = .insertion)
    (step : Step) :
    (r.graph g).answer (r.step step) = r.outcome (g.answer step) ∧
      (r.graph g).after (r.step step) = r.graph (g.after step) := by
  cases step with
  | edit call =>
    cases call with
    | insert name target =>
      simp only [Renaming.step, Renaming.edit, answer, after, edit, insert_rename hg ht]
      cases g.insert name target <;> exact ⟨rfl, rfl⟩
    | remove e =>
      have hr := remove_rename (r := r) hg hs.toBooks ht e
      exact ⟨congrArg (fun p : _ × Graph => Outcome.removed p.1) hr, congrArg Prod.snd hr⟩
  | linearize => exact ⟨congrArg Outcome.ordered (linearize_rename hg hs ht), rfl⟩
  | validate => exact ⟨congrArg Outcome.checked (validate_rename hg hs ht), rfl⟩
  | reachable stage stops => exact ⟨congrArg Outcome.reached (reachable_rename g stage stops), rfl⟩

theorem after_eq_run (g : Graph) (step : Step) : ∃ es, g.after step = g.run es := by
  cases step with
  | edit call => exact ⟨[call], rfl⟩
  | linearize | validate | reachable stage stops => exact ⟨[], rfl⟩

theorem script_rename (hg : g.Rolled) (hv : g.Valid) (ht : g.tieBreak = .insertion)
    (steps : List Step) :
    (r.graph g).script (steps.map r.step) =
      (g.script steps).map (Prod.map r.outcome r.graph) := by
  induction steps generalizing g with
  | nil => rfl
  | cons step steps ih =>
    obtain ⟨hanswer, hafter⟩ := step_rename (r := r) hg hv.toSound ht step
    obtain ⟨es, hes⟩ := after_eq_run g step
    have hrest := ih (g := g.after step) (hes ▸ hg.run hv es) (hes ▸ hv.run es)
      (hes ▸ (tieBreak_run g es).trans ht)
    rw [List.map_cons, script, script, hanswer, hafter, hrest, List.map_cons]
    rfl

theorem ofConnections_rename (r : Renaming) (cs : List Connection) :
    ofConnections .insertion (cs.map r.connection) =
      r.result r.graph (ofConnections .insertion cs) := by
  by_cases hnil : cs = []
  · subst hnil
    rfl
  · have hvalidate := validate_rename (r := r) (rolled_draw .insertion cs)
      (sound_draw .insertion cs) (tieBreak_draw .insertion cs)
    rw [ofConnections_eq (mt List.map_eq_nil_iff.1 hnil), ofConnections_eq hnil, draw_rename,
      hvalidate]
    cases (draw .insertion cs).validate <;> rfl

/-- By order of entry names do not count. Built of the same connections under other names a graph
is the same one under other names, or fails for the same reason about the same stages, and whatever
steps follow, each of them gets the same answer and leaves the same graph, under other names. -/
theorem insertion_ignores_names (r : Renaming) (hitems : List.Forall₂ Denotes items cs)
    (hmore : List.Forall₂ Denotes more (cs.map r.connection)) :
    ofItems .insertion more = r.result r.graph (ofItems .insertion items) ∧
      ∀ g, ofItems .insertion items = .ok g → ∀ steps,
        (r.graph g).script (steps.map r.step) =
          (g.script steps).map (Prod.map r.outcome r.graph) := by
  constructor
  · rw [ofItems_eq .insertion hmore, ofItems_eq .insertion hitems]
    exact ofConnections_rename r cs
  · intro g hg steps
    obtain ⟨ds, -, rfl, hv⟩ := valid_of_ofItems hg
    exact script_rename (rolled_draw .insertion ds) hv (tieBreak_draw .insertion ds) steps

/-- Two names change places, and the one that leaves first comes back behind the other. -/
theorem insertion_ignores_names_swapped :
    let r : Renaming := (Equiv.swap ⟨"a", by decide⟩ ⟨"d", by decide⟩).toEmbedding
    let g := draw .insertion [⟨"a", "c"⟩, ⟨"d", "c"⟩]
    let steps : List Step := [.edit (.remove .source), .edit (.insert (.text "a") (.text "c")),
      .edit (.insert (.text "x") (.text "d")), .edit (.remove .source), .linearize,
      .reachable (.text "a") [.text "d"], .edit (.insert (.text "y") (.text "d")), .validate]
    ofItems .insertion [.tuple [.text "a", .text "c"], .list [.text "d", .text "c"]] = .ok g ∧
      ofItems .insertion [.tuple [.text "d", .text "c"], .list [.text "a", .text "c"]] =
        .ok (r.graph g) ∧
      (g.remove .source).1 = some "a" ∧ ((r.graph g).remove .source).1 = some "d" ∧
      (r.graph g).script (steps.map r.step) =
        (g.script steps).map (Prod.map r.outcome r.graph) := by
  intro r g steps
  have hg : ofItems .insertion [.tuple [.text "a", .text "c"], .list [.text "d", .text "c"]] =
      .ok (draw .insertion [⟨"a", "c"⟩, ⟨"d", "c"⟩]) := by cbv
  have hitems : List.Forall₂ Denotes [.tuple [.text "a", .text "c"], .list [.text "d", .text "c"]]
      [⟨"a", "c"⟩, ⟨"d", "c"⟩] := by
    simp [Denotes, parts?, Value.items?]
  have hconnections : [⟨"a", "c"⟩, ⟨"d", "c"⟩].map r.connection = [⟨"d", "c"⟩, ⟨"a", "c"⟩] := by
    decide +kernel
  have hmore : List.Forall₂ Denotes [.tuple [.text "d", .text "c"], .list [.text "a", .text "c"]]
      ([⟨"a", "c"⟩, ⟨"d", "c"⟩].map r.connection) := by
    rw [hconnections]
    simp [Denotes, parts?, Value.items?]
  obtain ⟨hbuilt, hscript⟩ := insertion_ignores_names r hitems hmore
  refine ⟨hg, ?_, by decide +kernel, by decide +kernel, hscript g hg steps⟩
  rw [hbuilt, hg]
  rfl

end Graph

end Pipeline
