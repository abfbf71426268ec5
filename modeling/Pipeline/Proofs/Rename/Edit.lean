import Pipeline.Proofs.UniqueRanks
import Mathlib.Logic.Embedding.Basic

namespace Pipeline

/-- A renaming of stages. Names are the texts that are not empty, and no two get one name. -/
abbrev Renaming := {s : String // s ≠ ""} ↪ {s : String // s ≠ ""}

namespace Renaming

variable (r : Renaming)

def text (s : String) : String := if h : s = "" then s else r ⟨s, h⟩

def connection (c : Connection) : Connection := ⟨r.text c.tail, r.text c.head⟩

def entry (x : Entry) : Entry := ⟨x.rank, r.text x.name⟩

def frontier (f : Frontier) : Frontier := ⟨f.members.map r.text, f.queue.map r.entry⟩

def graph (g : Graph) : Graph where
  tieBreak := g.tieBreak
  stages := g.stages.map r.text
  edges := g.edges.map r.connection
  ranks := g.ranks.map (Prod.map r.text id)
  nextRank := g.nextRank
  sources := r.frontier g.sources
  sinks := r.frontier g.sinks

/-- A text that is an argument names a stage, whatever else an argument is names none. -/
def value : Value → Value
  | .text s => .text (r.text s)
  | v => v

variable {r} {s t : String} {l : List String} {c : Connection} {cs : List Connection}

theorem text_eq_empty_iff : r.text s = "" ↔ s = "" := by
  unfold text
  split
  · rfl
  · rename_i hs
    exact iff_of_false (r ⟨s, hs⟩).2 hs

theorem text_injective : Function.Injective r.text := by
  intro s t hst
  by_cases hs : s = ""
  · rw [hs, text_eq_empty_iff.1 (hst.symm.trans (text_eq_empty_iff.2 hs))]
  · have ht : t ≠ "" := fun ht => hs (text_eq_empty_iff.1 (hst.trans (text_eq_empty_iff.2 ht)))
    simp only [text, hs, ht, dite_false] at hst
    exact congrArg Subtype.val (r.injective (Subtype.ext hst))

@[simp] theorem text_inj : r.text s = r.text t ↔ s = t := text_injective.eq_iff

@[simp] theorem text_mem_map : r.text s ∈ l.map r.text ↔ s ∈ l :=
  List.mem_map_of_injective text_injective

theorem connection_injective : Function.Injective r.connection := by
  intro c d hcd
  obtain ⟨htail, hhead⟩ := Connection.mk.inj hcd
  exact congrArg₂ Connection.mk (text_inj.1 htail) (text_inj.1 hhead)

@[simp] theorem connection_mem_map : r.connection c ∈ cs.map r.connection ↔ c ∈ cs :=
  List.mem_map_of_injective connection_injective

end Renaming

open Renaming

variable {r : Renaming} {g : Graph} {e : End} {s t : String}

namespace Entry

variable {x y : Entry} {l m : List Entry}

/-- Entries of one rank are entries of one stage. -/
def Told (l : List Entry) : Prop := ∀ x ∈ l, ∀ y ∈ l, x.rank = y.rank → x.name = y.name

theorem Told.mono (hl : Told l) (hml : m ⊆ l) : Told m :=
  fun x hx y hy => hl x (hml hx) y (hml hy)

theorem le_rename (hxy : x.rank = y.rank → x.name = y.name) :
    (r.entry x).le (r.entry y) = x.le y := by
  rw [Bool.eq_iff_iff, le_iff, le_iff]
  refine or_congr_right (and_congr_right fun hr => ?_)
  have hname : (r.entry x).name = (r.entry y).name := congrArg r.text (hxy hr)
  rw [hname, hxy hr]
  exact iff_of_true (String.le_refl _) (String.le_refl _)

theorem insert_rename {q : List Entry} (hq : Told (x :: q)) :
    (r.entry x).insert (q.map r.entry) = (x.insert q).map r.entry := by
  induction q with
  | nil => rfl
  | cons y q ih =>
    have hxy : (r.entry x).le (r.entry y) = x.le y :=
      le_rename (hq x List.mem_cons_self y (List.mem_cons_of_mem _ List.mem_cons_self))
    simp only [List.map_cons, insert, hxy]
    split
    · rfl
    · rw [ih (hq.mono (List.cons_subset_cons x (List.subset_cons_self y q))), List.map_cons]

end Entry

namespace Frontier

open Entry

variable {f : Frontier} {x : Entry} {es : List Entry}

theorem add_rename (hf : Told (x :: f.queue)) :
    (r.frontier f).add (r.entry x) = r.frontier (f.add x) := by
  have hname : (r.entry x).name ∈ (r.frontier f).members ↔ x.name ∈ f.members := text_mem_map
  unfold add
  rw [if_congr hname rfl rfl]
  split
  · rfl
  · exact congrArg (Frontier.mk _) (insert_rename hf)

theorem addAll_rename (hf : Told (es ++ f.queue)) :
    (r.frontier f).addAll (es.map r.entry) = r.frontier (f.addAll es) := by
  induction es generalizing f with
  | nil => rfl
  | cons x es ih =>
    have hx : Told (x :: f.queue) := hf.mono (by simp)
    have hes : Told (es ++ (f.add x).queue) := by
      refine hf.mono fun y hy => ?_
      obtain hy | hy := List.mem_append.1 hy
      · simp [hy]
      · obtain rfl | hy := mem_queue_add hy <;> simp [*]
    show ((r.frontier f).add (r.entry x)).addAll (es.map r.entry) = _
    rw [add_rename hx, ih hes]
    rfl

theorem discard_rename (f : Frontier) (s : String) :
    (r.frontier f).discard (r.text s) = r.frontier (f.discard s) := by
  simp [discard, Renaming.frontier, List.filter_map, Function.comp_def]

theorem next_rename (members : List String) (q : List Entry) :
    next (members.map r.text) (q.map r.entry) =
      ((next members q).1.map r.text, (next members q).2.map r.entry) := by
  induction q with
  | nil => rfl
  | cons x q ih =>
    have hname : (r.entry x).name ∈ members.map r.text ↔ x.name ∈ members := text_mem_map
    simp only [List.map_cons, next, hname]
    split
    · rfl
    · exact ih

theorem pop_rename (f : Frontier) :
    (r.frontier f).pop = (f.pop.1.map r.text, r.frontier f.pop.2) := by
  simp only [pop, Renaming.frontier, next_rename]

end Frontier

namespace Graph

open Entry

@[simp] theorem frontier_rename (g : Graph) (e : End) :
    (r.graph g).frontier e = r.frontier (g.frontier e) := by
  cases e <;> rfl

theorem withFrontier_rename (g : Graph) (e : End) (f : Frontier) :
    (r.graph g).withFrontier e (r.frontier f) = r.graph (g.withFrontier e f) := by
  cases e <;> rfl

theorem outputs_rename (g : Graph) (s : String) :
    (r.graph g).outputs (r.text s) = (g.outputs s).map r.text := by
  simp [outputs, Renaming.graph, List.filter_map, Function.comp_def, Renaming.connection]

theorem inputs_rename (g : Graph) (s : String) :
    (r.graph g).inputs (r.text s) = (g.inputs s).map r.text := by
  simp [inputs, Renaming.graph, List.filter_map, Function.comp_def, Renaming.connection]

theorem hasOutput_rename (g : Graph) (s : String) :
    (r.graph g).hasOutput (r.text s) = g.hasOutput s := by
  simp [hasOutput, Renaming.graph, List.any_map, Function.comp_def, Renaming.connection]

theorem hasInput_rename (g : Graph) (s : String) :
    (r.graph g).hasInput (r.text s) = g.hasInput s := by
  simp [hasInput, Renaming.graph, List.any_map, Function.comp_def, Renaming.connection]

theorem lookup_rename (ranks : List (String × Nat)) (s : String) :
    (ranks.map (Prod.map r.text id)).lookup (r.text s) = ranks.lookup s := by
  induction ranks with
  | nil => rfl
  | cons p ranks ih =>
    have hkey : (r.text s == r.text p.1) = (s == p.1) := by
      rw [Bool.eq_iff_iff, beq_iff_eq, beq_iff_eq, text_inj]
    rw [List.map_cons, Prod.map_apply, List.lookup_cons, List.lookup_cons, hkey, ih, id]

theorem rank_rename (g : Graph) (s : String) : (r.graph g).rank (r.text s) = g.rank s :=
  congrArg (Option.getD · 0) (lookup_rename g.ranks s)

theorem entry_rename (g : Graph) (s : String) :
    (r.graph g).entry (r.text s) = r.entry (g.entry s) := by
  have ht : (r.graph g).tieBreak = g.tieBreak := rfl
  unfold entry
  rw [ht, rank_rename]
  cases g.tieBreak <;> rfl

theorem addStage_rename (g : Graph) (s : String) :
    (r.graph g).addStage (r.text s) = r.graph (g.addStage s) := by
  have hs : r.text s ∈ (r.graph g).stages ↔ s ∈ g.stages := text_mem_map
  unfold addStage
  rw [if_congr hs rfl rfl]
  split
  · rfl
  · simp [Renaming.graph]

theorem connect_rename (g : Graph) (c : Connection) :
    (r.graph g).connect (r.connection c) = r.graph (g.connect c) := by
  have hadded : ((r.graph g).addStage (r.connection c).tail).addStage (r.connection c).head =
      r.graph ((g.addStage c.tail).addStage c.head) := by
    rw [← addStage_rename, ← addStage_rename]
    rfl
  unfold connect
  rw [hadded]
  generalize (g.addStage c.tail).addStage c.head = k
  have hc : r.connection c ∈ (r.graph k).edges ↔ c ∈ k.edges := connection_mem_map
  dsimp only
  rw [if_congr hc rfl rfl]
  split
  · rfl
  · simp [Renaming.graph]

theorem foldl_connect_rename (g : Graph) (cs : List Connection) :
    (cs.map r.connection).foldl connect (r.graph g) = r.graph (cs.foldl connect g) := by
  induction cs generalizing g with
  | nil => rfl
  | cons c cs ih => rw [List.map_cons, List.foldl_cons, connect_rename, ih, List.foldl_cons]

theorem Rolled.told (hg : g.Rolled) (ht : g.tieBreak = .insertion) {l : List String}
    (hl : l ⊆ g.stages) (e : End) : Told (l.map g.entry ++ (g.frontier e).queue) := by
  have hissued : ∀ x ∈ l.map g.entry ++ (g.frontier e).queue, g.Issued x := by
    intro x hx
    obtain hx | hx := List.mem_append.1 hx
    · obtain ⟨s, hs, rfl⟩ := List.mem_map.1 hx
      exact hg.issued_entry ht (hl hs)
    · exact hg.queued ht e x hx
  exact fun x hx y hy => hg.name_eq (hissued x hx) (hissued y hy)

theorem ext_frontier {h : Graph} (ht : g.tieBreak = h.tieBreak) (hs : g.stages = h.stages)
    (he : g.edges = h.edges) (hr : g.ranks = h.ranks) (hn : g.nextRank = h.nextRank)
    (hf : ∀ e, g.frontier e = h.frontier e) : g = h := by
  have hsources : g.sources = h.sources := hf .source
  have hsinks : g.sinks = h.sinks := hf .sink
  cases g
  cases h
  simp_all

theorem stands_rename (g : Graph) (e : End) (s : String) :
    (r.graph g).stands e (r.text s) = g.stands e s := by
  cases e <;> simp only [stands, hasOutput_rename, hasInput_rename]

theorem refresh_rename (hg : g.Rolled) (ht : g.tieBreak = .insertion) (hs : s ∈ g.stages) :
    (r.graph g).refresh (r.text s) = r.graph (g.refresh s) := by
  refine ext_frontier rfl rfl rfl rfl rfl fun e => ?_
  have htold : Told (g.entry s :: (g.frontier e).queue) :=
    hg.told ht (List.cons_subset.2 ⟨hs, List.nil_subset _⟩) e
  rw [frontier_refresh, frontier_rename, frontier_rename, frontier_refresh, stands_rename,
    entry_rename, Frontier.add_rename htold, Frontier.discard_rename]
  split <;> rfl

theorem foldl_refresh_rename (hg : g.Rolled) (ht : g.tieBreak = .insertion) {l : List String}
    (hl : l ⊆ g.stages) :
    (l.map r.text).foldl refresh (r.graph g) = r.graph (l.foldl refresh g) := by
  induction l generalizing g with
  | nil => rfl
  | cons s l ih =>
    obtain ⟨hs, hl⟩ := List.cons_subset.1 hl
    rw [List.map_cons, List.foldl_cons, refresh_rename hg ht hs, ih (hg.refresh hs) ht hl,
      List.foldl_cons]

theorem draw_rename (cs : List Connection) :
    draw .insertion (cs.map r.connection) = r.graph (draw .insertion cs) := by
  have hfold := foldl_connect_rename (r := r) (empty .insertion) cs
  have ht := tieBreak_foldl_connect (empty .insertion) cs
  have hempty : r.graph (empty .insertion) = empty .insertion := rfl
  rw [hempty] at hfold
  unfold draw
  rw [hfold]
  exact foldl_refresh_rename (rolled_undecided .insertion cs) ht (List.Subset.refl _)

theorem splicedEdges_rename (g : Graph) (s t : String) :
    (r.graph g).splicedEdges (r.text s) (r.text t) = (g.splicedEdges s t).map r.connection := by
  unfold splicedEdges
  rw [inputs_rename]
  simp [Renaming.graph, List.filter_map, Function.comp_def, Renaming.connection]

theorem rewired_rename (g : Graph) (s t : String) :
    (r.graph g).rewired (r.text s) (r.text t) = r.graph (g.rewired s t) := by
  refine ext_frontier rfl ?_ (splicedEdges_rename g s t) rfl rfl fun e => ?_
  · show g.stages.map r.text ++ [r.text s] = (g.stages ++ [s]).map r.text
    rw [List.map_append, List.map_singleton]
  · rw [frontier_rewired, frontier_rename, frontier_rename, frontier_rewired]

theorem splice_rename (hg : g.Rolled) (ht : g.tieBreak = .insertion) (s : String)
    (hs : t ∈ g.stages) :
    (r.graph g).splice (r.text s) (r.text t) = r.graph (g.splice s t) := by
  have hnew : s ∈ (g.rewired s t).stages := mem_stages_rewired.2 (.inr rfl)
  have hold : t ∈ (g.rewired s t).stages := mem_stages_rewired.2 (.inl hs)
  have hw := hg.rewired s t
  rw [splice_eq, rewired_rename, refresh_rename hw ht hnew,
    refresh_rename (hw.refresh hnew) ht hold, ← splice_eq]

theorem edgesWithout_rename (g : Graph) (s : String) :
    (r.graph g).edgesWithout (r.text s) = (g.edgesWithout s).map r.connection := by
  simp [edgesWithout, Renaming.graph, List.filter_map, Function.comp_def, Renaming.connection]

theorem freed_rename (g : Graph) (s : String) (e : End) :
    (r.graph g).freed (r.text s) e = (g.freed s e).map r.text := by
  cases e <;>
    simp [freed, edgesWithout_rename, outputs_rename, inputs_rename, List.filter_map,
      List.any_map, Function.comp_def, Renaming.connection]

theorem takeAway_rename (s : String)
    (htold : ∀ e, Told ((g.freed s e).map g.entry ++ (g.frontier e).queue)) :
    (r.graph g).takeAway (r.text s) = r.graph (g.takeAway s) := by
  refine ext_frontier rfl ?_ (edgesWithout_rename g s) rfl rfl fun e => ?_
  · show (g.stages.map r.text).filter (· ≠ r.text s) = (g.stages.filter (· ≠ s)).map r.text
    simp [List.filter_map, Function.comp_def]
  · have hentries : (((g.freed s e).map r.text).map (r.graph g).entry) =
        ((g.freed s e).map g.entry).map r.entry := by
      simp [Function.comp_def, entry_rename]
    rw [frontier_takeAway, frontier_rename, frontier_rename, frontier_takeAway, freed_rename,
      hentries, Frontier.addAll_rename (htold e), Frontier.discard_rename]

theorem remove_rename (hg : g.Rolled) (hb : g.Books) (ht : g.tieBreak = .insertion) (e : End) :
    (r.graph g).remove e = ((g.remove e).1.map r.text, r.graph (g.remove e).2) := by
  rw [remove_eq, remove_eq, frontier_rename, Frontier.pop_rename]
  dsimp only
  rw [withFrontier_rename]
  cases hp : (g.frontier e).pop.1 with
  | none => rfl
  | some s =>
    refine congrArg (some (r.text s), ·) (takeAway_rename s fun d => ?_)
    rw [withFrontier_freed, withFrontier_entry]
    refine (hg.told ht (hb.freed_subset s d) d).mono fun x hx => ?_
    obtain hx | hx := List.mem_append.1 hx
    · exact List.mem_append_left _ hx
    · exact List.mem_append_right _ (mem_queue_pop hx)

end Graph

end Pipeline
