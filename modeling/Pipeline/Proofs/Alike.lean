import Pipeline.Graph.Same
import Pipeline.Proofs.Core
import Pipeline.Proofs.LeastOrder

namespace Pipeline

theorem mergeSort_perm_congr {α : Type} {le : α → α → Bool} {l m : List α}
    (htrans : ∀ a b c, le a b → le b c → le a c) (htotal : ∀ a b, le a b || le b a)
    (hanti : ∀ a b, le a b → le b a → a = b) (h : l.Perm m) : l.mergeSort le = m.mergeSort le := by
  have hperm : (l.mergeSort le).Perm (m.mergeSort le) :=
    ((List.mergeSort_perm l le).trans h).trans (List.mergeSort_perm m le).symm
  exact hperm.eq_of_pairwise (fun a b _ _ => hanti a b) (List.pairwise_mergeSort htrans htotal l)
    (List.pairwise_mergeSort htrans htotal m)

theorem mergeSort_congr {α : Type} {le : α → α → Bool} {l m : List α}
    (htrans : ∀ a b c, le a b → le b c → le a c) (htotal : ∀ a b, le a b || le b a)
    (hanti : ∀ a b, le a b → le b a → a = b) (hl : l.Nodup) (hm : m.Nodup)
    (h : ∀ a, a ∈ l ↔ a ∈ m) : l.mergeSort le = m.mergeSort le :=
  mergeSort_perm_congr htrans htotal hanti ((List.perm_ext_iff_of_nodup hl hm).2 h)

theorem sortedNames_perm_congr {l m : List String} (h : l.Perm m) :
    sortedNames l = sortedNames m := by
  apply mergeSort_perm_congr ?_ ?_ ?_ h
  · simpa using fun a b c => String.le_trans
  · simpa using String.le_total
  · simpa using fun a b => String.le_antisymm

theorem sortedNames_congr {l m : List String} (hl : l.Nodup) (hm : m.Nodup)
    (h : ∀ s, s ∈ l ↔ s ∈ m) : sortedNames l = sortedNames m :=
  sortedNames_perm_congr ((List.perm_ext_iff_of_nodup hl hm).2 h)

namespace Graph

open Pipeline.Path Relation Connection

variable {g h : Graph} {e : End} {t : TieBreak} {s : String} {seen names l : List String}
  {cs ds : List Connection} {c : Connection} {items more : List Value}

/-- The same rule, stages and connections. -/
structure Alike (g h : Graph) : Prop where
  tieBreak : g.tieBreak = h.tieBreak
  stages : ∀ s, s ∈ g.stages ↔ s ∈ h.stages
  edges : ∀ c, c ∈ g.edges ↔ c ∈ h.edges

theorem Alike.symm (ha : Alike g h) : Alike h g :=
  ⟨ha.tieBreak.symm, fun s => (ha.stages s).symm, fun c => (ha.edges c).symm⟩

theorem Alike.leads (ha : Alike g h) : Leads g.edges = Leads h.edges := by
  funext s u
  exact propext (ha.edges ⟨s, u⟩)

theorem Alike.cyclic_iff (ha : Alike g h) : Cyclic g.edges ↔ Cyclic h.edges := by
  rw [Cyclic, Cyclic, ha.leads]

theorem Alike.connected_iff (ha : Alike g h) :
    Connected g.stages g.edges ↔ Connected h.stages h.edges := by
  simp only [Connected, ha.leads, ha.stages]

theorem Books.mem_members_congr (hg : g.Books) (hh : h.Books)
    (hs : ∀ s, s ∈ g.stages ↔ s ∈ h.stages) (he : ∀ c, c ∈ g.edges ↔ c ∈ h.edges) :
    s ∈ (g.frontier e).members ↔ s ∈ (h.frontier e).members := by
  simp only [hg.members, hh.members, hs, Free, he]

/-- The ends never decide whether two graphs are the same. -/
theorem Books.same_iff (hg : g.Books) (hh : h.Books) :
    g.same h = true ↔ (∀ s, s ∈ g.stages ↔ s ∈ h.stages) ∧ ∀ c, c ∈ g.edges ↔ c ∈ h.edges := by
  simp only [Graph.same, Bool.and_eq_true, sameMembers_iff]
  constructor
  · rintro ⟨⟨⟨hs, -⟩, -⟩, he⟩
    exact ⟨hs, he⟩
  · rintro ⟨hs, he⟩
    exact ⟨⟨⟨hs, fun s => hg.mem_members_congr (e := .source) hh hs he⟩,
      fun s => hg.mem_members_congr (e := .sink) hh hs he⟩, he⟩

theorem Alike.mem_members (ha : Alike g h) (hg : g.Books) (hh : h.Books) :
    s ∈ (g.frontier e).members ↔ s ∈ (h.frontier e).members :=
  hg.mem_members_congr hh ha.stages ha.edges

theorem Alike.members_eq_nil_iff (ha : Alike g h) (hg : g.Books) (hh : h.Books) (e : End) :
    (g.frontier e).members = [] ↔ (h.frontier e).members = [] := by
  simp only [List.eq_nil_iff_forall_not_mem, ha.mem_members hg hh]

theorem Alike.same (ha : Alike g h) (hg : g.Books) (hh : h.Books) : g.same h = true :=
  (hg.same_iff hh).2 ⟨ha.stages, ha.edges⟩

theorem Alike.validate (ha : Alike g h) (hg : g.Sound) (hh : h.Sound)
    {R : Except GraphError Unit → Except GraphError Unit → Prop}
    (hreport : ∀ f : List String → GraphError, (f = .noSource ∨ f = .noSink ∨ f = .cycle) →
      R (.error (f g.cycleReport)) (.error (f h.cycleReport)))
    (hislands : ¬Cyclic g.edges → R g.checkIslands h.checkIslands) : R g.validate h.validate := by
  have hcases := validate_cases hh
  have hsource : g.sources.members = [] ↔ h.sources.members = [] :=
    ha.members_eq_nil_iff hg.toBooks hh.toBooks .source
  have hsink : g.sinks.members = [] ↔ h.sinks.members = [] :=
    ha.members_eq_nil_iff hg.toBooks hh.toBooks .sink
  simp only [ne_eq, ← hsource, ← hsink, ← ha.cyclic_iff] at hcases
  obtain ⟨hs, hv⟩ | ⟨hs, ⟨hk, hv⟩ | ⟨hk, ⟨hc, hv⟩ | ⟨hc, hv⟩⟩⟩ := validate_cases hg
  · have hv' : h.validate = .error (.noSource h.cycleReport) := by simpa [hs] using hcases
    rw [hv, hv']
    exact hreport _ (.inl rfl)
  · have hv' : h.validate = .error (.noSink h.cycleReport) := by simpa [hs, hk] using hcases
    rw [hv, hv']
    exact hreport _ (.inr (.inl rfl))
  · have hv' : h.validate = .error (.cycle h.cycleReport) := by simpa [hs, hk, hc] using hcases
    rw [hv, hv']
    exact hreport _ (.inr (.inr rfl))
  · have hv' : h.validate = h.checkIslands := by simpa [hs, hk, hc] using hcases
    rw [hv, hv']
    exact hislands hc

theorem Alike.kind_validate (ha : Alike g h) (hg : g.Sound) (hh : h.Sound) :
    g.validate.mapError GraphError.kind = h.validate.mapError GraphError.kind := by
  refine ha.validate hg hh (R := fun r q => r.mapError GraphError.kind = q.mapError GraphError.kind)
    ?_ fun hc => ?_
  · rintro f (rfl | rfl | rfl) <;> rfl
  · have hc' := mt ha.cyclic_iff.2 hc
    have hcon := ha.connected_iff
    obtain ⟨hl, hi⟩ | ⟨hl, _, _, _, _, _, hi⟩ := checkIslands_cases hg hc <;>
      obtain ⟨hl', hi'⟩ | ⟨hl', _, _, _, _, _, hi'⟩ := checkIslands_cases hh hc'
    · rw [hi, hi']
    · exact absurd (hcon.1 hl) hl'
    · exact absurd (hcon.2 hl') hl
    · rw [hi, hi']
      rfl

theorem Alike.head?_ordered (ha : Alike g h) (ht : g.tieBreak = .lexicographic) (hg : g.Seated)
    (hh : h.Seated) {names : List String} (hnames : ∀ s, s ∈ l ↔ s ∈ names)
    (hl : ∀ s ∈ l, s ∈ g.stages) : (g.ordered l).head? = (h.ordered names).head? := by
  have hsub : ∀ s ∈ names, s ∈ h.stages :=
    fun s hs => (ha.stages s).1 (hl s ((hnames s).2 hs))
  ext s
  rw [head?_ordered_eq_some_iff hg.toDated hl, head?_ordered_eq_some_iff hh.toDated hsub,
    ← ha.tieBreak, ht]
  simp only [TieBreak.First, hnames]
  rfl

theorem Alike.cycleStart?_eq (ha : Alike g h) (ht : g.tieBreak = .lexicographic) (hg : g.Sound)
    (hh : h.Sound) (hgs : g.Seated) (hhs : h.Seated) : g.cycleStart? = h.cycleStart? := by
  have hcore : Core g.edges = Core h.edges := by
    funext s
    simp only [Core, ha.leads]
  ext s
  rw [cycleStart?_eq_some_iff hg hgs.toDated fun _ hu => hu,
    cycleStart?_eq_some_iff hh hhs.toDated fun _ hu => hu, ← ha.tieBreak, ht, hcore]
  rfl

theorem Alike.sortedNames_reach (ha : Alike g h) (hg : g.Books) (hh : h.Books) (s : String) :
    sortedNames (g.reach s []) = sortedNames (h.reach s []) := by
  refine sortedNames_congr (nodup_reach hg.nodup_outputs s) (nodup_reach hh.nodup_outputs s)
    fun u => ?_
  rw [mem_reach_nil, mem_reach_nil, ha.leads]

theorem Alike.cycleReport_eq (ha : Alike g h) (ht : g.tieBreak = .lexicographic) (hg : g.Sound)
    (hh : h.Sound) (hgs : g.Seated) (hhs : h.Seated) : g.cycleReport = h.cycleReport := by
  unfold cycleReport
  rw [ha.cycleStart?_eq ht hg hh hgs hhs]
  cases h.cycleStart? with
  | none => rfl
  | some s => exact ha.sortedNames_reach hg.toBooks hh.toBooks s

theorem Alike.checkIslands_eq (ha : Alike g h) (ht : g.tieBreak = .lexicographic) (hg : g.Sound)
    (hh : h.Sound) (hgs : g.Seated) (hhs : h.Seated) (hc : ¬Cyclic g.edges) :
    g.checkIslands = h.checkIslands := by
  have hcon := ha.connected_iff
  obtain ⟨hl, hi⟩ | ⟨hl, s, island, hs, hmem, hnodup, hi⟩ := checkIslands_cases hg hc <;>
    obtain ⟨hl', hi'⟩ | ⟨hl', u, grown, hu, hmem', hnodup', hi'⟩ :=
      checkIslands_cases hh (mt ha.cyclic_iff.2 hc)
  · rw [hi, hi']
  · exact absurd (hcon.1 hl) hl'
  · exact absurd (hcon.2 hl') hl
  · have hfirst := ha.head?_ordered ht hgs hhs
      (fun x => ha.mem_members (e := .source) hg.toBooks hh.toBooks)
      fun x hx => ((hg.members .source x).1 hx).1
    obtain rfl : s = u := by
      rw [← Option.some_inj, ← hs, ← hu]
      exact hfirst
    rw [hi, hi', sortedNames_congr hnodup hnodup']
    intro x
    rw [hmem, hmem', ha.leads]

theorem Alike.validate_eq (ha : Alike g h) (ht : g.tieBreak = .lexicographic) (hg : g.Sound)
    (hh : h.Sound) (hgs : g.Seated) (hhs : h.Seated) : g.validate = h.validate := by
  refine ha.validate hg hh (fun f _ => ?_) (ha.checkIslands_eq ht hg hh hgs hhs)
  rw [ha.cycleReport_eq ht hg hh hgs hhs]

theorem Alike.isOrder (ha : Alike g h) (hl : IsOrder g l) : IsOrder h l where
  nodup := hl.nodup
  mem_iff s := (hl.mem_iff s).trans (ha.stages s)
  before c hc := hl.before c ((ha.edges c).2 hc)

theorem Alike.linearize_eq (ha : Alike g h) (ht : g.tieBreak = .lexicographic) (hg : g.Valid)
    (hh : h.Valid) (hgs : Settled seen g) (hhs : Settled names h) : g.linearize = h.linearize := by
  rw [linearize_eq_ok hg.toSound hg.acyclic, linearize_eq_ok hh.toSound hh.acyclic, Except.ok.injEq]
  obtain heq | hless := drain_least hg hgs (ha.symm.isOrder (isOrder_drain hh))
  · exact heq
  obtain heq | hmore := drain_least hh hhs (ha.isOrder (isOrder_drain hg))
  · exact heq.symm
  · -- Each of the two orders would come before the other.
    have hgh := lt_of_lex_precedes ht hless
    have hhg := lt_of_lex_precedes (ha.tieBreak ▸ ht) hmore
    exact absurd hgh (lt_asymm hhg)

theorem addStage_of_mem (hs : s ∈ g.stages) : g.addStage s = g := by
  rw [addStage, if_pos hs]

theorem Drawn.connect_of_mem (h : Drawn cs g) (hc : c ∈ cs) : g.connect c = g := by
  have hedge : c ∈ g.edges := (h.mem_edges c).2 hc
  obtain ⟨htail, hhead⟩ := h.joined hedge
  unfold Graph.connect
  rw [addStage_of_mem htail, addStage_of_mem hhead]
  exact if_pos hedge

theorem foldl_connect_eraseDups (t : TieBreak) (cs : List Connection) :
    cs.eraseDups.foldl connect (empty t) = cs.foldl connect (empty t) := by
  induction cs using List.reverseRecOn with
  | nil => rfl
  | append_singleton cs c ih =>
    rw [List.eraseDups_append, List.foldl_append, List.foldl_append, ih]
    by_cases hc : c ∈ cs
    · have hd : Drawn cs (cs.foldl connect (empty t)) := (drawn_empty t).foldl_connect cs
      have hnone : [c].removeAll cs = [] := by simp [List.removeAll, hc]
      rw [hnone]
      exact (hd.connect_of_mem hc).symm
    · have hnew : [c].removeAll cs = [c] := by simp [List.removeAll, hc]
      rw [hnew]
      rfl

theorem draw_eraseDups (t : TieBreak) (cs : List Connection) : draw t cs.eraseDups = draw t cs := by
  unfold draw
  rw [foldl_connect_eraseDups]

theorem ofConnections_eraseDups (t : TieBreak) (cs : List Connection) :
    ofConnections t cs.eraseDups = ofConnections t cs := by
  have hnil : cs.eraseDups = [] ↔ cs = [] := by
    simp only [List.eq_nil_iff_forall_not_mem, List.mem_eraseDups]
  simp only [ofConnections, draw_eraseDups, hnil]

theorem alike_draw (t : TieBreak) (hsame : ∀ c, c ∈ cs ↔ c ∈ ds) :
    Alike (draw t cs) (draw t ds) where
  tieBreak := (tieBreak_draw t cs).trans (tieBreak_draw t ds).symm
  stages s := by
    rw [(drawn_draw t cs).mem_stages, (drawn_draw t ds).mem_stages]
    simp only [mem_endpoints, hsame]
  edges c := by
    rw [(drawn_draw t cs).mem_edges, (drawn_draw t ds).mem_edges, hsame]

/-- Items that stand for the same connections make the same graph or are refused for the same
kind of thing, in whatever order they come. By name the order of the stages and the finding are
the same too, and under either rule a connection may as well be left out after its first time. -/
theorem ofItems_same_pairs (t : TieBreak) (hitems : List.Forall₂ Denotes items cs)
    (hmore : List.Forall₂ Denotes more ds) (hsame : ∀ c, c ∈ cs ↔ c ∈ ds) :
    ((∃ g h, ofItems t items = .ok g ∧ ofItems t more = .ok h ∧ g.same h = true ∧
        (t = .lexicographic → ∃ l, g.linearize = .ok l ∧ h.linearize = .ok l)) ∨
      ∃ e f, ofItems t items = .error e ∧ ofItems t more = .error f ∧ e.kind = f.kind ∧
        (t = .lexicographic → e.stages? = f.stages? ∧ e.message = f.message)) ∧
      (ds = cs.eraseDups → ofItems t more = ofItems t items) := by
  rw [ofItems_eq t hitems, ofItems_eq t hmore]
  refine ⟨?_, fun hdups => by rw [hdups, ofConnections_eraseDups]⟩
  have hnil : cs = [] ↔ ds = [] := by
    simp only [List.eq_nil_iff_forall_not_mem, hsame]
  by_cases hcs : cs = []
  · rw [hcs, hnil.1 hcs]
    exact .inr ⟨.noConnections, .noConnections, rfl, rfl, rfl, fun _ => ⟨rfl, rfl⟩⟩
  rw [ofConnections_eq hcs, ofConnections_eq (mt hnil.2 hcs)]
  have ha := alike_draw t hsame
  have hg := sound_draw t cs
  have hh := sound_draw t ds
  have hkind := ha.kind_validate hg hh
  have hfinding : t = .lexicographic → (draw t cs).validate = (draw t ds).validate :=
    fun ht => ha.validate_eq ((tieBreak_draw t cs).trans ht) hg hh (seated_draw t cs)
      (seated_draw t ds)
  cases hv : (draw t cs).validate with
  | ok =>
    cases hw : (draw t ds).validate with
    | error f => simp [hv, hw, Except.mapError] at hkind
    | ok =>
      have hvalid := hg.valid_of_validate hv
      have hvalid' := hh.valid_of_validate hw
      have horder := linearize_eq_ok hg hvalid.acyclic
      refine .inl ⟨draw t cs, draw t ds, rfl, rfl, ha.same hg.toBooks hh.toBooks,
        fun ht => ⟨_, horder, ?_⟩⟩
      rw [← horder]
      exact (ha.linearize_eq ((tieBreak_draw t cs).trans ht) hvalid hvalid' (settled_draw t cs)
        (settled_draw t ds)).symm
  | error e =>
    cases hw : (draw t ds).validate with
    | ok => simp [hv, hw, Except.mapError] at hkind
    | error f =>
      refine .inr ⟨e, f, rfl, rfl, ?_, fun ht => ?_⟩
      · simpa [hv, hw, Except.mapError] using hkind
      · have hef := hfinding ht
        rw [hv, hw, Except.error.injEq] at hef
        rw [hef]
        exact ⟨rfl, rfl⟩

/-- By name the report of an island does not depend on which of its stages came first. -/
theorem ofItems_same_pairs_island :
    let items := [.tuple [.text "d", .text "e"], .tuple [.text "b", .text "c"],
      .list [.text "d", .text "e"]]
    let more := [.connection (.text "b") (.text "c"), .tuple [.text "d", .text "e"]]
    let cs := [⟨"d", "e"⟩, ⟨"b", "c"⟩, ⟨"d", "e"⟩]
    let ds := [⟨"b", "c"⟩, ⟨"d", "e"⟩]
    List.Forall₂ Denotes items cs ∧ List.Forall₂ Denotes more ds ∧ (∀ c, c ∈ cs ↔ c ∈ ds) ∧
      ∃ e, ofItems .lexicographic items = .error (.island ["b", "c"]) ∧
        ofItems .lexicographic more = .error e ∧ e.kind = .island ∧ e.stages? = some ["b", "c"] ∧
        ∀ room, e.message room = .ok (Kind.island.stagesMessage "b, c") := by
  have hitems : List.Forall₂ Denotes [.tuple [.text "d", .text "e"],
      .tuple [.text "b", .text "c"], .list [.text "d", .text "e"]]
      [⟨"d", "e"⟩, ⟨"b", "c"⟩, ⟨"d", "e"⟩] := by
    simp [Denotes, parts?, Value.items?]
  have hmore : List.Forall₂ Denotes [.connection (.text "b") (.text "c"),
      .tuple [.text "d", .text "e"]] [⟨"b", "c"⟩, ⟨"d", "e"⟩] := by
    simp [Denotes, parts?, Value.items?]
  have hsame : ∀ c, c ∈ [⟨"d", "e"⟩, ⟨"b", "c"⟩, ⟨"d", "e"⟩] ↔
      c ∈ ([⟨"b", "c"⟩, ⟨"d", "e"⟩] : List Connection) := by
    simp [or_comm]
  have hfound : ofItems .lexicographic [.tuple [.text "d", .text "e"],
      .tuple [.text "b", .text "c"], .list [.text "d", .text "e"]] =
        .error (.island ["b", "c"]) := by
    cbv
  refine ⟨hitems, hmore, hsame, ?_⟩
  obtain ⟨⟨g, h, hg, -⟩ | ⟨e, f, he, hf, hkind, hlex⟩, -⟩ :=
    ofItems_same_pairs .lexicographic hitems hmore hsame
  · rw [hfound] at hg
    cases hg
  · rw [hfound, Except.error.injEq] at he
    subst he
    obtain ⟨hstages, hmessage⟩ := hlex rfl
    refine ⟨f, hfound, hf, hkind.symm, hstages.symm, fun room => ?_⟩
    have hnames : ", ".intercalate (sortedNames ["b", "c"]) = "b, c" := by cbv
    rw [← hmessage]
    exact congrArg (fun names => Except.ok (Kind.island.stagesMessage names)) hnames

end Graph

end Pipeline
