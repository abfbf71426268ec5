import Pipeline.Proofs.LeastOrder

namespace Pipeline.Graph

open Pipeline.Path Connection

variable {g rest : Graph} {t : TieBreak} {e d : End} {s : String} {l : List String}
  {ds : List End} {items : List Value}

/-- The graph after a removal at each of the given ends. -/
def strip (g : Graph) (ds : List End) : Graph := g.run (ds.map .remove)

/-- The stages that these removals yield, each with the end at which it went. -/
def taken (g : Graph) : List End → List (End × String)
  | [] => []
  | d :: ds => (g.remove d).1.toList.map (d, ·) ++ (g.remove d).2.taken ds

def takenAt (g : Graph) (e : End) (ds : List End) : List String :=
  ((g.taken ds).filter (·.1 = e)).map Prod.snd

theorem strip_cons (g : Graph) (d : End) (ds : List End) :
    g.strip (d :: ds) = (g.remove d).2.strip ds := rfl

theorem taken_of_none (hr : g.remove d = (none, rest)) : g.taken (d :: ds) = rest.taken ds := by
  simp [taken, hr]

theorem taken_of_some (hr : g.remove d = (some s, rest)) :
    g.taken (d :: ds) = (d, s) :: rest.taken ds := by
  simp [taken, hr]

theorem takenAt_of_none (hr : g.remove d = (none, rest)) :
    g.takenAt e (d :: ds) = rest.takenAt e ds := by
  rw [takenAt, taken_of_none hr, takenAt]

theorem takenAt_of_some (hr : g.remove d = (some s, rest)) :
    g.takenAt e (d :: ds) = if d = e then s :: rest.takenAt e ds else rest.takenAt e ds := by
  rw [takenAt, taken_of_some hr, takenAt]
  split <;> simp_all

theorem Valid.length_stages_remove (hv : g.Valid) (e : End) :
    (g.remove e).2.stages.length = g.stages.length - 1 := by
  cases hr : g.remove e with
  | mk taken rest =>
    cases taken with
    | none =>
      obtain ⟨hm, rfl⟩ := hv.remove_none hr
      simp [(hv.members_eq_nil_iff e).1 hm]
    | some s =>
      obtain ⟨hs, hw, -⟩ := hv.remove_some hr
      have hmem := ((hv.members e s).1 hs).1
      have hlen := List.length_erase_of_mem hmem
      rw [hv.stages_nodup.erase_eq_filter] at hlen
      rw [← hlen]
      simp [hw.stages, bne, Bool.beq_eq_decide_eq]

theorem Valid.length_stages_strip (hv : g.Valid) (ds : List End) :
    (g.strip ds).stages.length = g.stages.length - ds.length := by
  induction ds generalizing g with
  | nil => rfl
  | cons d ds ih =>
    rw [strip_cons, ih (hv.remove d), hv.length_stages_remove d, List.length_cons]
    omega

theorem strip_subset (g : Graph) (ds : List End) : (g.strip ds).stages ⊆ g.stages := by
  induction ds generalizing g with
  | nil => exact List.Subset.refl _
  | cons d ds ih => exact List.Subset.trans (ih (g.remove d).2) (remove_subset g d).1

theorem Valid.mem_taken (hv : g.Valid) (ds : List End) :
    s ∈ (g.taken ds).map Prod.snd ↔ s ∈ g.stages ∧ s ∉ (g.strip ds).stages := by
  induction ds generalizing g with
  | nil => simp [taken, strip, Graph.run]
  | cons d ds ih =>
    have hv' := hv.remove d
    have hsub := strip_subset (g.remove d).2 ds
    rw [strip_cons]
    cases hr : g.remove d with
    | mk yield rest =>
      rw [hr] at hv' hsub
      cases yield with
      | none =>
        obtain ⟨-, rfl⟩ := hv.remove_none hr
        rw [taken_of_none hr, ih hv', withFrontier_stages]
      | some u =>
        obtain ⟨hu, hw, -⟩ := hv.remove_some hr
        have hstage := ((hv.members d u).1 hu).1
        rw [taken_of_some hr, List.map_cons, List.mem_cons, ih hv']
        rw [hw.stages] at hsub ⊢
        by_cases hsu : s = u
        · subst hsu
          exact iff_of_true (.inl rfl) ⟨hstage, fun hs => by simpa using hsub hs⟩
        · simp [hsu]

theorem Valid.nodup_taken (hv : g.Valid) (ds : List End) : ((g.taken ds).map Prod.snd).Nodup := by
  induction ds generalizing g with
  | nil => exact .nil
  | cons d ds ih =>
    have hv' := hv.remove d
    cases hr : g.remove d with
    | mk yield rest =>
      rw [hr] at hv'
      cases yield with
      | none =>
        rw [taken_of_none hr]
        exact ih hv'
      | some u =>
        obtain ⟨-, hw, -⟩ := hv.remove_some hr
        rw [taken_of_some hr]
        refine List.nodup_cons.2 ⟨fun hu => ?_, ih hv'⟩
        have hmem := ((hv'.mem_taken ds).1 hu).1
        rw [hw.stages] at hmem
        simp at hmem

theorem IsOrder.concat (hb : g.Books) (hs : s ∈ g.stages) (hfree : Free g.edges .sink s)
    (hw : g.Without s rest) (h : IsOrder rest l) : IsOrder g (l ++ [s]) where
  nodup := by
    refine List.nodup_append.2 ⟨h.nodup, List.nodup_singleton s, fun u hu v hv huv => ?_⟩
    have hur := (h.mem_iff u).1 hu
    rw [huv, List.mem_singleton.1 hv, hw.stages] at hur
    simp at hur
  mem_iff u := by
    rw [List.mem_append, List.mem_singleton, h.mem_iff, hw.stages, List.mem_filter]
    by_cases hu : u = s <;> simp [hu, hs]
  before c hc := by
    have htail : c.tail ≠ s := hfree c hc
    have hmem : c.tail ∈ l := by
      rw [h.mem_iff, hw.stages]
      exact List.mem_filter.2 ⟨(hb.joined c hc).1, by simpa using htail⟩
    by_cases hhead : c.head = s
    · rw [hhead]
      exact (List.singleton_sublist.2 hmem).append (List.Sublist.refl [s])
    · refine (h.before c ?_).trans (List.sublist_append_left l [s])
      rw [hw.edges]
      exact mem_edgesWithout.2 ⟨hc, htail, hhead⟩

theorem Valid.isOrder_taken (hv : g.Valid) (hnil : (g.strip ds).stages = []) :
    IsOrder g (g.takenAt .source ds ++ (g.takenAt .sink ds).reverse) := by
  induction ds generalizing g with
  | nil => exact isOrder_nil hv.toBooks hnil
  | cons d ds ih =>
    rw [strip_cons] at hnil
    cases hr : g.remove d with
    | mk taken rest =>
      have hrest : rest.Valid := by simpa only [hr] using hv.remove d
      rw [hr] at hnil
      cases taken with
      | none =>
        rw [takenAt_of_none hr, takenAt_of_none hr]
        obtain ⟨-, rfl⟩ := hv.remove_none hr
        have h := ih hrest hnil
        exact ⟨h.nodup, by simpa using h.mem_iff, by simpa using h.before⟩
      | some s =>
        rw [takenAt_of_some hr, takenAt_of_some hr]
        obtain ⟨hs, hw, -⟩ := hv.remove_some hr
        obtain ⟨hstage, hfree⟩ := (hv.members d s).1 hs
        have h := ih hrest hnil
        cases d with
        | source => exact .cons hv.toBooks hstage hfree hw h
        | sink =>
          have hlast := IsOrder.concat hv.toBooks hstage hfree hw h
          simpa using hlast

/-- After any calls, let stages be taken at both ends in turns of any kind. None is left once there
were as many removals as stages, and then those taken as sources, followed by those taken as
sinks from the last one back, stand in an order in which each stage precedes its outputs. -/
theorem strip_order {g₀ : Graph} (hg : ofItems t items = .ok g₀) (es : List Edit)
    (ds : List End) :
    let g := g₀.run es
    ((g.strip ds).stages = [] ↔ g.stages.length ≤ ds.length) ∧
      ((g.strip ds).stages = [] →
        IsOrder g (g.takenAt .source ds ++ (g.takenAt .sink ds).reverse)) := by
  obtain ⟨cs, -, -, hvalid⟩ := valid_of_ofItems hg
  have hv := hvalid.run es
  generalize g₀.run es = g at hv
  refine ⟨?_, hv.isOrder_taken⟩
  rw [← List.length_eq_zero_iff, hv.length_stages_strip]
  omega

theorem strip_order_middle :
    let g₀ := draw .insertion [⟨"b", "c"⟩, ⟨"a", "c"⟩, ⟨"c", "d"⟩, ⟨"c", "e"⟩]
    let g := g₀.run [.insert (.text "x") (.text "c"), .remove .sink]
    let ds := [.sink, .source, .sink, .source, .sink, .source]
    ofItems .insertion [.tuple [.text "b", .text "c"], .list [.text "a", .text "c"],
        .tuple [.text "c", .text "d"], .tuple [.text "c", .text "e"]] = .ok g₀ ∧
      (g.strip ds).stages = [] ∧ g.takenAt .source ds = ["b", "a"] ∧
      g.takenAt .sink ds = ["e", "c", "x"] ∧ IsOrder g ["b", "a", "x", "c", "e"] := by
  have hg : ofItems .insertion [.tuple [.text "b", .text "c"], .list [.text "a", .text "c"],
      .tuple [.text "c", .text "d"], .tuple [.text "c", .text "e"]] =
        .ok (draw .insertion [⟨"b", "c"⟩, ⟨"a", "c"⟩, ⟨"c", "d"⟩, ⟨"c", "e"⟩]) := by cbv
  have h := strip_order hg [.insert (.text "x") (.text "c"), .remove .sink]
    [.sink, .source, .sink, .source, .sink, .source]
  have hnil := h.1.2 (by decide +kernel)
  have horder := h.2 hnil
  dsimp only at horder ⊢
  have hsource : ((draw .insertion [⟨"b", "c"⟩, ⟨"a", "c"⟩, ⟨"c", "d"⟩, ⟨"c", "e"⟩]).run
      [.insert (.text "x") (.text "c"), .remove .sink]).takenAt .source
        [.sink, .source, .sink, .source, .sink, .source] = ["b", "a"] := by
    decide +kernel
  have hsink : ((draw .insertion [⟨"b", "c"⟩, ⟨"a", "c"⟩, ⟨"c", "d"⟩, ⟨"c", "e"⟩]).run
      [.insert (.text "x") (.text "c"), .remove .sink]).takenAt .sink
        [.sink, .source, .sink, .source, .sink, .source] = ["e", "c", "x"] := by
    decide +kernel
  rw [hsource, hsink] at horder
  exact ⟨hg, hnil, hsource, hsink, horder⟩

end Pipeline.Graph
