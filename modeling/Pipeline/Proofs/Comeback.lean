import Pipeline.Proofs.StageRanks

namespace Pipeline.Graph

open Connection

variable {g : Graph} {e : End} {s n : String} {x : Entry} {seen : List String}
  {items : List Value} {es : List Edit}

/-- An entry from an earlier stay of a stage waits at an end. -/
def Recalled (g : Graph) (e : End) (s : String) : Prop :=
  ∃ x ∈ (g.frontier e).queue, x.name = s ∧ x.rank < g.rank s

def Forgotten (g : Graph) (n : String) : Prop := ∀ e, ∀ x ∈ (g.frontier e).queue, x.name ≠ n

/-- Each name that calls bring in is forgotten at that moment. -/
def Unrecalled (g : Graph) : List Edit → Prop
  | [] => True
  | call :: es => (∀ n ∈ g.enters call, g.Forgotten n) ∧ (g.edit call).Unrecalled es

instance (g : Graph) (n : String) : Decidable (g.Forgotten n) :=
  decidable_of_iff ((∀ x ∈ g.sources.queue, x.name ≠ n) ∧ ∀ x ∈ g.sinks.queue, x.name ≠ n)
    ⟨fun h e => match e with
      | .source => h.1
      | .sink => h.2, fun h => ⟨h .source, h .sink⟩⟩

instance decidableUnrecalled : (g : Graph) → (es : List Edit) → Decidable (g.Unrecalled es)
  | _, [] => .isTrue trivial
  | g, call :: es =>
    have := decidableUnrecalled (g.edit call) es
    inferInstanceAs (Decidable ((∀ n ∈ g.enters call, g.Forgotten n) ∧ _))

/-- No entry claims a place behind the seat of its name. -/
def InHand (g : Graph) : Prop := ∀ e, ∀ x ∈ (g.frontier e).queue, x.rank ≤ g.rank x.name

theorem rank_entry_le (g : Graph) (s : String) : (g.entry s).rank ≤ g.rank (g.entry s).name := by
  rw [entry_name]
  unfold entry
  split <;> simp

theorem inHand_draw (t : TieBreak) (cs : List Connection) : (draw t cs).InHand := by
  intro e x hx
  obtain ⟨s, -, rfl⟩ := (settled_draw t cs).present e x hx
  exact rank_entry_le _ s

theorem InHand.remove (h : g.InHand) (hb : g.Books) (d : End) : (g.remove d).2.InHand := by
  intro e x hx
  have hrank : (g.remove d).2.rank = g.rank := by
    funext s
    rw [rank, rank, (remove_frame g d).2.1]
  rw [hrank]
  obtain hx | ⟨s, -, rfl⟩ := mem_queue_remove hb hx
  · exact h e x hx
  · exact rank_entry_le g s

theorem InHand.splice (h : g.InHand) (hg : g.Seated) : (g.splice n s).InHand := by
  intro e x hx
  obtain hx | ⟨u, -, rfl⟩ := mem_queue_splice hx
  · have hold := h e x hx
    have hbound := hg.bounded x.name
    rw [rank_of_ranks_cons (h := g.splice n s) rfl]
    split
    · -- The name that enters sits behind every place that its old entries may claim.
      omega
    · exact hold
  · exact rank_entry_le _ u

theorem inHand_run (hv : g.Valid) (hg : g.Seated) (h : g.InHand) (es : List Edit) :
    (g.run es).InHand :=
  (hv.run_keeps (P := fun g => g.Seated ∧ g.InHand)
    (fun _ hn _ h => ⟨h.1.enter hn rfl rfl rfl, h.2.splice h.1⟩)
    (fun e hv h => ⟨h.1.remove e, h.2.remove hv.toBooks e⟩) es ⟨hg, h⟩).1.2

theorem Settled.forget (h : Settled seen g) (hn : n ∉ g.stages) (hf : g.Forgotten n) :
    Settled (seen.filter (· ≠ n)) g where
  known s hs := by
    have hsn : s ≠ n := fun he => hn (he ▸ hs)
    exact List.mem_filter.2 ⟨h.known s hs, by simpa using hsn⟩
  present e x hx := by
    obtain ⟨s, hs, rfl⟩ := h.present e x hx
    have hsn : s ≠ n := fun he => hf e _ hx (by rw [entry_name, he])
    exact ⟨s, List.mem_filter.2 ⟨hs, by simpa using hsn⟩, rfl⟩

theorem settled_run_of_unrecalled (hv : g.Valid) (h : ∃ seen, Settled seen g)
    (hes : g.Unrecalled es) : ∃ seen, Settled seen (g.run es) := by
  induction es generalizing g with
  | nil => exact h
  | cons call es ih =>
    obtain ⟨seen, h⟩ := h
    obtain ⟨hforgotten, hes⟩ := hes
    show ∃ seen, Settled seen ((g.edit call).run es)
    obtain ⟨hedit, -⟩ | ⟨n, s, -, hn, hs, hedit, henters⟩ | ⟨e, hedit, -⟩ := edit_cases g call
    · rw [hedit] at hes ⊢
      exact ih hv ⟨seen, h⟩ hes
    · rw [henters] at hforgotten
      rw [hedit] at hes ⊢
      have hkept := h.forget hn (hforgotten n (List.mem_singleton.2 rfl))
      exact ih (hv.splice hn hs) ⟨_, hkept.splice hs (.inr (by simp))⟩ hes
    · rw [hedit] at hes ⊢
      exact ih (hv.remove e) ⟨seen, h.remove hv.toBooks e⟩ hes

theorem Valid.first_of_entry_le (hv : g.Valid) (hg : g.Seated)
    (hs : s ∈ (g.frontier e).members)
    (hle : ∀ u ∈ (g.frontier e).members, (g.entry s).le (g.entry u)) :
    g.tieBreak.First g.stages (· ∈ (g.frontier e).members) s := by
  have hmem : ∀ u ∈ (g.frontier e).members, u ∈ g.stages := fun u hu => ((hv.members e u).1 hu).1
  exact ⟨hs, fun u hu => (hg.entry_le_iff (hmem s hs) (hmem u hu)).1 (hle u hu)⟩

theorem Valid.first_of_remove (hv : g.Valid) (hg : g.Seated) (h : g.InHand)
    (ht : g.tieBreak = .insertion) (hs : (g.remove e).1 = some s) (hr : ¬g.Recalled e s) :
    g.tieBreak.First g.stages (· ∈ (g.frontier e).members) s := by
  obtain ⟨x, hx, rfl, hm, hle⟩ := hv.remove_le hs
  have hpresent : x = g.entry x.name := by
    have hrank : x.rank = g.rank x.name := by
      have hnot : ¬x.rank < g.rank x.name := fun hlt => hr ⟨x, hx, rfl, hlt⟩
      have hbelow := h e x hx
      omega
    simp only [entry, ht, ← hrank]
  exact hv.first_of_entry_le hg hm (hpresent ▸ hle)

theorem Settled.remove_eq_some_iff (h : Settled seen g) (hv : g.Valid) (hg : g.Seated) :
    (g.remove e).1 = some s ↔ g.tieBreak.First g.stages (· ∈ (g.frontier e).members) s := by
  have hfirst : ∀ {u}, (g.remove e).1 = some u →
      g.tieBreak.First g.stages (· ∈ (g.frontier e).members) u := by
    intro u hu
    obtain ⟨hm, hle⟩ := h.remove_le hv.toSound hu
    exact hv.first_of_entry_le hg hm hle
  refine ⟨hfirst, fun hs => ?_⟩
  cases hr : (g.remove e).1 with
  | none =>
    have hm := hs.1
    rw [hv.toSound.remove_fst_eq_none_iff.1 hr] at hm
    exact absurd hm List.not_mem_nil
  | some u => rw [(hfirst hr).unique hs fun x hx => ((hv.members e x).1 hx).1]

theorem head?_drain (g : Graph) (e : End) : (g.drain e).1.head? = (g.remove e).1 := by
  cases hr : g.remove e with
  | mk taken rest =>
    cases taken with
    | none => rw [drain_of_none hr, List.head?_nil]
    | some s => rw [drain_of_some hr, List.head?_cons]

/-- By order of entry a removal takes the stage of its end that sits first, unless it takes one
through an entry from an earlier stay. If names come back only when they are forgotten, every
removal takes the first, and the order found begins with the source that the check for islands
begins with. -/
theorem remove_by_seat {g₀ : Graph} (hg : ofItems .insertion items = .ok g₀) (es : List Edit) :
    let g := g₀.run es
    (∀ e s, (g.remove e).1 = some s → ¬g.Recalled e s →
      TieBreak.insertion.First g.stages (· ∈ (g.frontier e).members) s) ∧
    (g₀.Unrecalled es →
      (∀ e s, (g.remove e).1 = some s ↔
        TieBreak.insertion.First g.stages (· ∈ (g.frontier e).members) s) ∧
      ∃ l, g.linearize = .ok l ∧ l.head? = (g.ordered g.sources.members).head?) := by
  obtain ⟨cs, -, hdraw, hvalid⟩ := valid_of_ofItems hg
  have hsettled₀ : Settled (Path.endpoints cs) g₀ := hdraw ▸ settled_draw .insertion cs
  have hseated₀ : g₀.Seated := hdraw ▸ seated_draw .insertion cs
  have hinHand₀ : g₀.InHand := hdraw ▸ inHand_draw .insertion cs
  have ht₀ : g₀.tieBreak = .insertion := hdraw ▸ tieBreak_draw .insertion cs
  have hsettled : g₀.Unrecalled es → ∃ seen, Settled seen (g₀.run es) :=
    settled_run_of_unrecalled hvalid ⟨_, hsettled₀⟩
  have hv := hvalid.run es
  have hseated := seated_run hvalid hseated₀ es
  have hinHand := inHand_run hvalid hseated₀ hinHand₀ es
  have ht := (tieBreak_run g₀ es).trans ht₀
  dsimp only
  generalize g₀.run es = g at *
  rw [← ht]
  refine ⟨fun e s => hv.first_of_remove hseated hinHand ht, fun hes => ?_⟩
  obtain ⟨seen, hsettled⟩ := hsettled hes
  refine ⟨fun e s => hsettled.remove_eq_some_iff hv hseated, _,
    linearize_eq_ok hv.toSound hv.acyclic, ?_⟩
  ext s
  have hsub : ∀ u ∈ g.sources.members, u ∈ g.stages :=
    fun u hu => ((hv.members .source u).1 hu).1
  rw [head?_drain, hsettled.remove_eq_some_iff hv hseated,
    head?_ordered_eq_some_iff hseated.toDated hsub]
  rfl

theorem remove_by_seat_forgotten :
    let g₀ := draw .insertion [⟨"a", "c"⟩, ⟨"b", "c"⟩, ⟨"d", "c"⟩]
    let es := [.remove .source, .insert (.text "a") (.text "b")]
    ofItems .insertion [.tuple [.text "a", .text "c"], .list [.text "b", .text "c"],
        .tuple [.text "d", .text "c"]] = .ok g₀ ∧
      g₀.Unrecalled es ∧ (g₀.run es).sources.members = ["a", "d"] ∧
      ((g₀.run es).remove .source).1 = some "d" ∧
      TieBreak.insertion.First (g₀.run es).stages
        (· ∈ ((g₀.run es).frontier .source).members) "d" := by
  have hg : ofItems .insertion [.tuple [.text "a", .text "c"], .list [.text "b", .text "c"],
      .tuple [.text "d", .text "c"]] =
        .ok (draw .insertion [⟨"a", "c"⟩, ⟨"b", "c"⟩, ⟨"d", "c"⟩]) := by cbv
  have hes : (draw .insertion [⟨"a", "c"⟩, ⟨"b", "c"⟩, ⟨"d", "c"⟩]).Unrecalled
      [.remove .source, .insert (.text "a") (.text "b")] := by
    decide +kernel
  have hs : (((draw .insertion [⟨"a", "c"⟩, ⟨"b", "c"⟩, ⟨"d", "c"⟩]).run
      [.remove .source, .insert (.text "a") (.text "b")]).remove .source).1 = some "d" := by
    decide +kernel
  exact ⟨hg, hes, by decide +kernel, hs,
    (((remove_by_seat hg _).2 hes).1 .source "d").1 hs⟩

/-- A stage that stood at both ends goes as a sink, comes back behind `d` and is taken first, in
a removal as in the order found, while the check for islands begins with `d`. -/
theorem remove_by_seat_recalled :
    let g := (draw .insertion [⟨"a", "c"⟩, ⟨"b", "c"⟩, ⟨"d", "c"⟩]).run
      [.remove .sink, .remove .sink, .insert (.text "a") (.text "b")]
    ofItems .insertion [.tuple [.text "a", .text "c"], .list [.text "b", .text "c"],
        .tuple [.text "d", .text "c"]] =
        .ok (draw .insertion [⟨"a", "c"⟩, ⟨"b", "c"⟩, ⟨"d", "c"⟩]) ∧
      TieBreak.insertion.First g.stages (· ∈ (g.frontier .source).members) "d" ∧
      (g.remove .source).1 = some "a" ∧ g.linearize = .ok ["a", "b", "d"] ∧
      (g.ordered g.sources.members).head? = some "d" := by
  exact ⟨by cbv, by decide +kernel, by decide +kernel, by cbv, by cbv⟩

end Pipeline.Graph
