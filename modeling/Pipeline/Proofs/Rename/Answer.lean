import Pipeline.Proofs.Rename.Edit
import Pipeline.Proofs.Alike

namespace Pipeline

namespace Renaming

variable (r : Renaming)

/-- A finding about the renamed stages. An item that is no connection names no stage. -/
def error : GraphError → GraphError
  | .badItem f => .badItem f
  | .noConnections => .noConnections
  | .noSource l => .noSource (sortedNames (l.map r.text))
  | .noSink l => .noSink (sortedNames (l.map r.text))
  | .cycle l => .cycle (sortedNames (l.map r.text))
  | .island l => .island (sortedNames (l.map r.text))
  | .missing v => .missing (r.value v)
  | .missingTarget v => .missingTarget (r.value v)
  | .duplicate v => .duplicate (r.value v)
  | .badName v => .badName (r.value v)

def result {α : Type} (f : α → α) : Except GraphError α → Except GraphError α
  | .ok x => .ok (f x)
  | .error e => .error (r.error e)

end Renaming

open Renaming

variable {r : Renaming}

theorem sortedNames_eq_nil_iff {l : List String} : sortedNames l = [] ↔ l = [] := by
  rw [sortedNames, ← List.length_eq_zero_iff, List.length_mergeSort, List.length_eq_zero_iff]

theorem sortedNames_nil : sortedNames [] = [] := sortedNames_eq_nil_iff.2 rfl

theorem sortedNames_rename (l : List String) :
    sortedNames ((sortedNames l).map r.text) = sortedNames (l.map r.text) :=
  sortedNames_perm_congr ((List.mergeSort_perm l _).map r.text)

namespace Graph

open Entry

variable {g : Graph} {e : End} {s : String}

theorem filter_not_mem_rename (l m : List String) :
    (l.map r.text).filter (· ∉ m.map r.text) = (l.filter (· ∉ m)).map r.text := by
  simp only [List.filter_map, Function.comp_def, text_mem_map]

theorem search_rename (stops stack seen : List String) :
    (r.graph g).search (stops.map r.text) (stack.map r.text) (seen.map r.text) =
      (g.search stops stack seen).map r.text := by
  induction stack, seen using search.induct g stops with
  | case1 seen => simp only [List.map_nil, search]
  | case2 seen s stack fresh ih =>
    rw [List.map_cons, search, search, outputs_rename, filter_not_mem_rename,
      filter_not_mem_rename, ← List.map_append, ← List.map_append]
    exact ih

theorem reach_rename (g : Graph) (s : String) (stops : List String) :
    (r.graph g).reach (r.text s) (stops.map r.text) = (g.reach s stops).map r.text :=
  search_rename stops [s] [s]

theorem reach_nil_rename (g : Graph) (s : String) :
    (r.graph g).reach (r.text s) [] = (g.reach s []).map r.text :=
  reach_rename g s []

theorem disjoint_rename (l m : List String) :
    disjoint (l.map r.text) (m.map r.text) = disjoint l m := by
  simp only [disjoint, List.any_map, Function.comp_def, text_mem_map]

theorem union_rename (l m : List String) :
    union (l.map r.text) (m.map r.text) = (union l m).map r.text := by
  rw [union, union, filter_not_mem_rename, List.map_append]

theorem absorb_rename (island : List String) (candidates : List (List String)) :
    absorb (island.map r.text) (candidates.map (List.map r.text)) =
      ((absorb island candidates).1.map r.text,
        (absorb island candidates).2.map (List.map r.text)) := by
  induction island, candidates using absorb.induct with
  | case1 island => rfl
  | case2 island c rest hd ih =>
    rw [List.map_cons, absorb, disjoint_rename, if_pos hd, ih, absorb, if_pos hd, List.map_cons]
  | case3 island c rest hd ih =>
    rw [List.map_cons, absorb, disjoint_rename, if_neg hd, union_rename, ih, absorb, if_neg hd]

theorem cutOff?_rename (island : List String) (candidates : List (List String)) :
    cutOff? (island.map r.text) (candidates.map (List.map r.text)) =
      (cutOff? island candidates).map (List.map r.text) := by
  induction island, candidates using cutOff?.induct with
  | case1 island => simp [cutOff?]
  | case2 island candidates hne passed hlen =>
    rw [cutOff?, cutOff?, if_neg (mt List.map_eq_nil_iff.1 hne), if_neg hne, absorb_rename]
    simp only [List.length_map]
    rw [if_pos hlen, if_pos hlen]
    rfl
  | case3 island candidates hne passed hlen ih =>
    rw [cutOff?, cutOff?, if_neg (mt List.map_eq_nil_iff.1 hne), if_neg hne, absorb_rename]
    simp only [List.length_map]
    rw [if_neg hlen, if_neg hlen]
    exact ih

theorem filter_hasOutput_rename (g : Graph) :
    (r.graph g).stages.filter (r.graph g).hasOutput =
      (g.stages.filter g.hasOutput).map r.text := by
  show (g.stages.map r.text).filter (r.graph g).hasOutput = _
  simp only [List.filter_map, Function.comp_def, hasOutput_rename]

theorem ordered_rename (hg : g.Rolled) (ht : g.tieBreak = .insertion) {names : List String}
    (hnames : names ⊆ g.stages) :
    (r.graph g).ordered (names.map r.text) = (g.ordered names).map r.text := by
  have htold := hg.told ht hnames .source
  refine (List.map_mergeSort fun s hs u hu => ?_).symm
  rw [entry_rename, entry_rename, le_rename]
  exact htold _ (List.mem_append_left _ (List.mem_map_of_mem hs)) _
    (List.mem_append_left _ (List.mem_map_of_mem hu))

theorem Rolled.drain (hg : g.Rolled) (hs : g.Sound) (e : End) : (g.drain e).2.Rolled := by
  induction g using Graph.drain.induct e with
  | case1 g rest hr =>
    rw [drain_of_none hr]
    simpa only [hr] using hg.remove hs.toBooks e
  | case2 g s rest hr ih =>
    rw [drain_of_some hr]
    exact ih (by simpa only [hr] using hg.remove hs.toBooks e) (hs.remove_some hr).2.2

theorem drain_rename (hg : g.Rolled) (hs : g.Sound) (ht : g.tieBreak = .insertion) (e : End) :
    (r.graph g).drain e = ((g.drain e).1.map r.text, r.graph (g.drain e).2) := by
  induction g using Graph.drain.induct e with
  | case1 g rest hr =>
    have hr' := remove_rename (r := r) hg hs.toBooks ht e
    rw [hr] at hr'
    rw [drain_of_none hr, drain_of_none hr', List.map_nil]
  | case2 g s rest hr ih =>
    have hr' := remove_rename (r := r) hg hs.toBooks ht e
    rw [hr] at hr'
    obtain ⟨-, hw, hrest⟩ := hs.remove_some hr
    have hrolled : rest.Rolled := by simpa only [hr] using hg.remove hs.toBooks e
    rw [drain_of_some hr, drain_of_some hr', ih hrolled hrest (hw.tieBreak.trans ht),
      List.map_cons]

section ByEntry

variable (hg : g.Rolled) (hs : g.Sound) (ht : g.tieBreak = .insertion)
include hg hs ht

theorem cycleStart?_rename : (r.graph g).cycleStart? = g.cycleStart?.map r.text := by
  have hrest := hs.drained .source
  have hcore := hrest.sound.drained .sink
  have hrolled := hg.drain hs .source
  unfold cycleStart?
  dsimp only
  rw [drain_rename hg hs ht]
  generalize (g.drain .source).2 = rest at hrest hcore hrolled ⊢
  have hnil : (r.graph rest).edges = [] ↔ rest.edges = [] := List.map_eq_nil_iff
  have hsub : (rest.drain .sink).2.stages.filter (rest.drain .sink).2.hasOutput ⊆ g.stages := by
    intro u hu
    have hu := (List.mem_filter.1 hu).1
    exact (hrest.mem_iff u).2 (.inr ((hcore.mem_iff u).2 (.inr hu)))
  rw [if_congr hnil rfl rfl, drain_rename hrolled hrest.sound (hrest.tieBreak.trans ht)]
  split
  · rfl
  · rw [filter_hasOutput_rename, ordered_rename hg ht hsub, List.head?_map]

theorem cycleReport_rename : (r.graph g).cycleReport = sortedNames (g.cycleReport.map r.text) := by
  unfold cycleReport
  rw [cycleStart?_rename hg hs ht]
  cases g.cycleStart? with
  | none => exact sortedNames_nil.symm
  | some s =>
    show sortedNames ((r.graph g).reach (r.text s) []) = _
    rw [reach_nil_rename, sortedNames_rename]

theorem linearize_rename : (r.graph g).linearize = r.result (List.map r.text) g.linearize := by
  have hreport := cycleReport_rename (r := r) hg hs ht
  by_cases hnil : g.cycleReport = []
  · rw [hnil, List.map_nil, sortedNames_nil] at hreport
    rw [linearize_of_nil hreport, linearize_of_nil hnil, drain_rename hg hs ht]
    rfl
  · have hne : (r.graph g).cycleReport ≠ [] := by
      rwa [hreport, Ne, sortedNames_eq_nil_iff, List.map_eq_nil_iff]
    rw [linearize_of_ne_nil hne, linearize_of_ne_nil hnil, hreport]
    rfl

theorem sourceReaches_rename :
    (r.graph g).sourceReaches = g.sourceReaches.map (List.map r.text) := by
  have hsub : g.sources.members ⊆ g.stages := fun s hm => ((hs.members .source s).1 hm).1
  unfold sourceReaches
  show ((r.graph g).ordered (g.sources.members.map r.text)).map _ = _
  rw [ordered_rename hg ht hsub, List.map_map, List.map_map]
  exact List.map_congr_left fun s _ => reach_nil_rename g s

theorem checkIslands_rename : (r.graph g).checkIslands = r.result id g.checkIslands := by
  unfold checkIslands
  rw [sourceReaches_rename hg hs ht]
  cases g.sourceReaches with
  | nil => rfl
  | cons first others =>
    simp only [List.map_cons, cutOff?_rename]
    cases cutOff? first others with
    | none => rfl
    | some island =>
      show Except.error (GraphError.island (sortedNames (island.map r.text))) = _
      rw [← sortedNames_rename]
      rfl

theorem validate_rename : (r.graph g).validate = r.result id g.validate := by
  have hsources : (r.graph g).sources.members = [] ↔ g.sources.members = [] :=
    List.map_eq_nil_iff
  have hsinks : (r.graph g).sinks.members = [] ↔ g.sinks.members = [] := List.map_eq_nil_iff
  rw [validate_eq, validate_eq, if_congr hsources rfl (if_congr hsinks rfl rfl),
    cycleReport_rename hg hs ht, linearize_rename hg hs ht, checkIslands_rename hg hs ht]
  split
  · rfl
  · split
    · rfl
    · cases g.linearize <;> rfl

end ByEntry

end Graph

end Pipeline
