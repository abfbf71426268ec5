import Pipeline.Graph.Validate
import Pipeline.Proofs.Drain

namespace Pipeline.Graph

open Pipeline.Path Relation

variable {g : Graph} {s t : String} {island grown more : List String}
  {candidates left less : List (List String)}

theorem disjoint_iff {xs ys : List String} : disjoint xs ys = true ↔ xs.Disjoint ys := by
  simp [disjoint, List.Disjoint]

theorem mem_union {xs ys : List String} : s ∈ union xs ys ↔ s ∈ xs ∨ s ∈ ys := by
  by_cases hs : s ∈ xs <;> simp [union, hs]

theorem nodup_union {xs ys : List String} (hx : xs.Nodup) (hy : ys.Nodup) :
    (union xs ys).Nodup := by
  refine List.nodup_append.2 ⟨hx, hy.filter _, fun s hs t ht hst => ?_⟩
  have hnew := (List.mem_filter.1 ht).2
  exact absurd (hst ▸ hs) (by simpa using hnew)

/-- An island and candidates, and what becomes of them: candidates join or are left, and nothing
comes in but by touching what is there. -/
structure Grew (island : List String) (candidates : List (List String)) (grown : List String)
    (left : List (List String)) : Prop where
  subset : island ⊆ grown
  left_subset : left ⊆ candidates
  joined : ∀ c ∈ candidates, c ∈ left ∨ c ⊆ grown
  closed : ∀ P : String → Prop, (∀ x ∈ island, P x) →
    (∀ c ∈ candidates, (∃ x ∈ c, P x) → ∀ x ∈ c, P x) → ∀ x ∈ grown, P x
  nodup : island.Nodup → (∀ c ∈ candidates, c.Nodup) → grown.Nodup

theorem Grew.refl (island : List String) (candidates : List (List String)) :
    Grew island candidates island candidates :=
  ⟨fun _ h => h, fun _ h => h, fun _ h => .inl h, fun _ h _ => h, fun h _ => h⟩

theorem Grew.trans (h : Grew island candidates grown left) (k : Grew grown left more less) :
    Grew island candidates more less where
  subset := List.Subset.trans h.subset k.subset
  left_subset := List.Subset.trans k.left_subset h.left_subset
  joined c hc := by
    obtain hl | hg := h.joined c hc
    · exact k.joined c hl
    · exact .inr (List.Subset.trans hg k.subset)
  closed P hi hc := k.closed P (h.closed P hi hc) fun c hl => hc c (h.left_subset hl)
  nodup hi hc := k.nodup (h.nodup hi hc) fun c hl => hc c (h.left_subset hl)

theorem grew_absorb (island : List String) (candidates : List (List String)) :
    Grew island candidates (absorb island candidates).1 (absorb island candidates).2 := by
  induction island, candidates using absorb.induct with
  | case1 island => exact .refl island []
  | case2 island c rest hd ih =>
    rw [absorb, if_pos hd]
    refine ⟨ih.subset, List.cons_subset_cons c ih.left_subset, fun d hdc => ?_, fun P hi hc => ?_,
      fun hi hc => ?_⟩
    · obtain rfl | hdc := List.mem_cons.1 hdc
      · exact .inl List.mem_cons_self
      · exact (ih.joined d hdc).imp (List.mem_cons_of_mem _) id
    · exact ih.closed P hi fun d hdc => hc d (List.mem_cons_of_mem _ hdc)
    · exact ih.nodup hi fun d hdc => hc d (List.mem_cons_of_mem _ hdc)
  | case3 island c rest hd ih =>
    rw [absorb, if_neg hd]
    refine ⟨fun x hx => ih.subset (mem_union.2 (.inl hx)),
      List.Subset.trans ih.left_subset (List.subset_cons_self _ _), fun d hdc => ?_,
      fun P hi hc => ?_, fun hi hc => ?_⟩
    · obtain rfl | hdc := List.mem_cons.1 hdc
      · exact .inr fun x hx => ih.subset (mem_union.2 (.inr hx))
      · exact ih.joined d hdc
    · refine ih.closed P (fun x hx => ?_) fun d hdc => hc d (List.mem_cons_of_mem _ hdc)
      obtain hx | hx := mem_union.1 hx
      · exact hi x hx
      · -- The candidate touches the island, where the property holds.
        rw [disjoint_iff, List.Disjoint, not_forall] at hd
        obtain ⟨y, hy⟩ := hd
        simp only [imp_false, not_forall, not_not] at hy
        obtain ⟨hyi, hyc⟩ := hy
        exact hc c List.mem_cons_self ⟨y, hyc, hi y hyi⟩ x hx
    · exact ih.nodup (nodup_union hi (hc c List.mem_cons_self)) fun d hdc =>
        hc d (List.mem_cons_of_mem _ hdc)

theorem absorb_of_length_eq
    (h : (absorb island candidates).2.length = candidates.length) :
    absorb island candidates = (island, candidates) ∧ ∀ c ∈ candidates, island.Disjoint c := by
  induction island, candidates using absorb.induct with
  | case1 island => exact ⟨rfl, by simp⟩
  | case2 island c rest hd ih =>
    rw [absorb, if_pos hd] at h ⊢
    obtain ⟨he, hc⟩ := ih (by simpa using h)
    rw [he]
    exact ⟨rfl, by simpa using ⟨disjoint_iff.1 hd, hc⟩⟩
  | case3 island c rest hd ih =>
    rw [absorb, if_neg hd, List.length_cons] at h
    have := length_absorb_le (union island c) rest
    omega

theorem grew_of_cutOff?_eq_none (h : cutOff? island candidates = none) :
    ∃ grown, Grew island candidates grown [] := by
  induction island, candidates using cutOff?.induct with
  | case1 island => exact ⟨island, .refl island []⟩
  | case2 island candidates hne passed hlen =>
    rw [cutOff?, if_neg hne, if_pos hlen] at h
    cases h
  | case3 island candidates hne passed hlen ih =>
    rw [cutOff?, if_neg hne, if_neg hlen] at h
    obtain ⟨grown, hgrown⟩ := ih h
    exact ⟨grown, (grew_absorb island candidates).trans hgrown⟩

theorem grew_of_cutOff?_eq_some (h : cutOff? island candidates = some grown) :
    ∃ left, left ≠ [] ∧ Grew island candidates grown left ∧ ∀ c ∈ left, grown.Disjoint c := by
  induction island, candidates using cutOff?.induct with
  | case1 island => simp [cutOff?] at h
  | case2 island candidates hne passed hlen =>
    rw [cutOff?, if_neg hne, if_pos hlen, Option.some.injEq] at h
    obtain ⟨he, hc⟩ := absorb_of_length_eq hlen
    rw [he] at h
    exact ⟨candidates, hne, h ▸ .refl island candidates, h ▸ hc⟩
  | case3 island candidates hne passed hlen ih =>
    rw [cutOff?, if_neg hne, if_neg hlen] at h
    obtain ⟨left, hleft, hgrown, hc⟩ := ih h
    exact ⟨left, hleft, (grew_absorb island candidates).trans hgrown, hc⟩

theorem eqvGen_of_reflTransGen {r : String → String → Prop} (h : ReflTransGen r s t) :
    EqvGen r s t := by
  induction h with
  | refl => exact .refl _
  | tail _ hbc ih => exact ih.trans _ _ _ (.rel _ _ hbc)

theorem exists_source (hg : g.Sound) (ha : ¬Cyclic g.edges) (hs : s ∈ g.stages) :
    ∃ r ∈ g.sources.members, ReflTransGen (Leads g.edges) r s := by
  obtain ⟨r, hr, hfree⟩ := exists_way_free .source ha s
  have hstage := (mem_of_reflTransGen_way hg.joined hr).2 hs
  exact ⟨r, (hg.members .source r).2 ⟨hstage, hfree⟩, hr⟩

theorem eqvGen_of_mem_reach {r x y : String} (hx : x ∈ g.reach r []) (hy : y ∈ g.reach r []) :
    EqvGen (Leads g.edges) x y :=
  .trans _ _ _ (.symm _ _ (eqvGen_of_reflTransGen (mem_reach_nil.1 hx)))
    (eqvGen_of_reflTransGen (mem_reach_nil.1 hy))

/-- A set that swallows or misses whatever a source reaches is closed under hanging together. -/
theorem mem_iff_of_eqvGen (hg : g.Sound) (ha : ¬Cyclic g.edges)
    (hw : ∀ r ∈ g.sources.members, g.reach r [] ⊆ grown ∨ grown.Disjoint (g.reach r []))
    (h : EqvGen (Leads g.edges) s t) : s ∈ grown ↔ t ∈ grown := by
  induction h with
  | rel a b hab =>
    obtain ⟨r, hr, hra⟩ := exists_source hg ha (hg.joined _ hab).1
    have ha' : a ∈ g.reach r [] := mem_reach_nil.2 hra
    have hb' : b ∈ g.reach r [] := mem_reach_nil.2 (hra.tail hab)
    obtain hsub | hdis := hw r hr
    · exact ⟨fun _ => hsub hb', fun _ => hsub ha'⟩
    · exact ⟨fun h => absurd ha' (hdis h), fun h => absurd hb' (hdis h)⟩
  | refl a => exact Iff.rfl
  | symm a b _ ih => exact ih.symm
  | trans a b c _ _ ihab ihbc => exact ihab.trans ihbc

variable {first : String} {others : List String}

theorem eqvGen_of_touches {r : String} (h : ∃ x ∈ g.reach r [], EqvGen (Leads g.edges) s x)
    (ht : t ∈ g.reach r []) : EqvGen (Leads g.edges) s t := by
  obtain ⟨x, hx, hsx⟩ := h
  exact hsx.trans _ _ _ (eqvGen_of_mem_reach hx ht)

theorem Grew.eqvGen (h : Grew (g.reach first []) (others.map fun s => g.reach s []) grown left)
    (ht : t ∈ grown) : EqvGen (Leads g.edges) first t := by
  apply h.closed _ _ _ t ht
  · exact fun x hx => eqvGen_of_reflTransGen (mem_reach_nil.1 hx)
  · intro c hc htouch x hx
    obtain ⟨r, -, rfl⟩ := List.mem_map.1 hc
    exact eqvGen_of_touches htouch hx

theorem Grew.connected (hg : g.Sound) (ha : ¬Cyclic g.edges)
    (hmem : ∀ r, r ∈ first :: others ↔ r ∈ g.sources.members)
    (h : Grew (g.reach first []) (others.map fun s => g.reach s []) grown []) :
    Connected g.stages g.edges := by
  have hall : ∀ s ∈ g.stages, EqvGen (Leads g.edges) first s := by
    intro s hs
    obtain ⟨r, hr, hrs⟩ := exists_source hg ha hs
    apply h.eqvGen
    obtain rfl | hr := List.mem_cons.1 ((hmem r).2 hr)
    · exact h.subset (mem_reach_nil.2 hrs)
    · have hsub := (h.joined _ (List.mem_map_of_mem hr)).resolve_left List.not_mem_nil
      exact hsub (mem_reach_nil.2 hrs)
  intro s hs t ht
  exact .trans _ _ _ (.symm _ _ (hall s hs)) (hall t ht)

theorem Grew.mem_iff (hg : g.Sound) (ha : ¬Cyclic g.edges)
    (hmem : ∀ r, r ∈ first :: others ↔ r ∈ g.sources.members)
    (h : Grew (g.reach first []) (others.map fun s => g.reach s []) grown left)
    (hdis : ∀ c ∈ left, grown.Disjoint c) : t ∈ grown ↔ EqvGen (Leads g.edges) first t := by
  have hwhole : ∀ r ∈ g.sources.members,
      g.reach r [] ⊆ grown ∨ grown.Disjoint (g.reach r []) := by
    intro r hr
    obtain rfl | hr := List.mem_cons.1 ((hmem r).2 hr)
    · exact .inl h.subset
    · exact (h.joined _ (List.mem_map_of_mem hr)).symm.imp id (hdis _)
  constructor
  · exact h.eqvGen
  · intro ht
    exact (mem_iff_of_eqvGen hg ha hwhole ht).1 (h.subset (mem_reach_nil.2 .refl))

theorem Grew.not_connected (hg : g.Sound) (ha : ¬Cyclic g.edges)
    (hmem : ∀ r, r ∈ first :: others ↔ r ∈ g.sources.members)
    (h : Grew (g.reach first []) (others.map fun s => g.reach s []) grown left)
    (hdis : ∀ c ∈ left, grown.Disjoint c) (hne : left ≠ []) :
    ¬Connected g.stages g.edges := by
  intro hc
  obtain ⟨c, hcl⟩ := List.exists_mem_of_ne_nil left hne
  obtain ⟨r, hr, rfl⟩ := List.mem_map.1 (h.left_subset hcl)
  have hstage : ∀ {u}, u ∈ first :: others → u ∈ g.stages :=
    fun hu => ((hg.members .source _).1 ((hmem _).1 hu)).1
  have hlink := hc first (hstage List.mem_cons_self) r (hstage (List.mem_cons_of_mem _ hr))
  exact hdis _ hcl ((h.mem_iff hg ha hmem hdis).2 hlink) (mem_reach_nil.2 .refl)

/-- The check of a graph without a cycle passes when all stages hang together, and otherwise
names those that hang together with the first source. -/
theorem checkIslands_cases (hg : g.Sound) (ha : ¬Cyclic g.edges) :
    (Connected g.stages g.edges ∧ g.checkIslands = .ok ()) ∨
      ¬Connected g.stages g.edges ∧ ∃ s island, (g.ordered g.sources.members).head? = some s ∧
        (∀ x, x ∈ island ↔ EqvGen (Leads g.edges) s x) ∧ island.Nodup ∧
        g.checkIslands = .error (.island (sortedNames island)) := by
  have hmem : ∀ r, r ∈ g.ordered g.sources.members ↔ r ∈ g.sources.members :=
    fun r => mem_ordered
  unfold checkIslands sourceReaches
  cases hord : g.ordered g.sources.members with
  | nil =>
    refine .inl ⟨fun s hs => ?_, rfl⟩
    obtain ⟨r, hr, -⟩ := exists_source hg ha hs
    rw [← hmem, hord] at hr
    exact absurd hr List.not_mem_nil
  | cons first others =>
    rw [hord] at hmem
    cases hcut : cutOff? (g.reach first []) (others.map fun s => g.reach s []) with
    | none =>
      obtain ⟨grown, hgrown⟩ := grew_of_cutOff?_eq_none hcut
      refine .inl ⟨hgrown.connected hg ha hmem, ?_⟩
      simp only [List.map_cons, hcut]
    | some grown =>
      obtain ⟨left, hne, hgrown, hdis⟩ := grew_of_cutOff?_eq_some hcut
      refine .inr ⟨hgrown.not_connected hg ha hmem hdis hne, first, grown, rfl,
        fun x => hgrown.mem_iff hg ha hmem hdis, hgrown.nodup ?_ ?_, ?_⟩
      · exact nodup_reach hg.nodup_outputs first
      · simpa using fun s _ => nodup_reach hg.nodup_outputs s
      · simp only [List.map_cons, hcut]

end Pipeline.Graph
