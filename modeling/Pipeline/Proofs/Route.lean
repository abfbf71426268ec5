import Pipeline.Proofs.Phase

namespace Pipeline

namespace Graph

open Pipeline.Path Relation

variable {g : Graph} {s t u v : String} {n : Nat}
  {stops stack seen found between rest : List String}

/-- The stages between the ends of a way; no stop is among them, the ends may be stops. -/
def Route (g : Graph) (stops : List String) (s v : String) (between : List String) : Prop :=
  List.IsChain (fun a b => b ∈ g.outputs a) (s :: (between ++ [v])) ∧ ∀ x ∈ between, x ∉ stops

theorem route_nil : g.Route stops s v [] ↔ v ∈ g.outputs s := by
  simp [Route]

theorem route_cons :
    g.Route stops s v (t :: between) ↔ t ∈ g.outputs s ∧ t ∉ stops ∧ g.Route stops t v between := by
  simp only [Route, List.cons_append, List.isChain_cons_cons, List.forall_mem_cons]
  tauto

theorem route_append_cons : g.Route stops s v (between ++ t :: rest) ↔
    g.Route stops s t between ∧ t ∉ stops ∧ g.Route stops t v rest := by
  induction between generalizing s with
  | nil => simp [route_cons, route_nil]
  | cons x between ih => simp only [List.cons_append, route_cons, ih, and_assoc]

theorem passes_iff :
    Passes g.edges s stops u v ↔ v ∈ g.outputs u ∧ (u = s ∨ u ∉ stops) := by
  rw [mem_outputs]
  exact Iff.rfl

theorem Route.reflTransGen (h : g.Route stops u v between) (hu : u = s ∨ u ∉ stops) :
    ReflTransGen (Passes g.edges s stops) u v := by
  induction between generalizing u with
  | nil => exact .single (passes_iff.2 ⟨route_nil.1 h, hu⟩)
  | cons t between ih =>
    obtain ⟨hut, ht, h⟩ := route_cons.1 h
    exact .head (passes_iff.2 ⟨hut, hu⟩) (ih h (.inr ht))

theorem exists_simple_route (h : ReflTransGen (Passes g.edges s stops) s v) (hv : v ≠ s) :
    ∃ between, g.Route stops s v between ∧ (s :: (between ++ [v])).Nodup := by
  induction h with
  | refl => exact absurd rfl hv
  | @tail u v _ huv ih =>
    obtain ⟨hout, hpass⟩ := passes_iff.1 huv
    by_cases hus : u = s
    · exact ⟨[], route_nil.2 (hus ▸ hout), by simpa using hv.symm⟩
    obtain ⟨between, hroute, hnodup⟩ := ih hus
    by_cases hvu : v = u
    · exact ⟨between, hvu ▸ hroute, hvu ▸ hnodup⟩
    by_cases hmem : v ∈ between
    · -- The route has met the stage before and is cut off there.
      obtain ⟨front, back, rfl⟩ := List.append_of_mem hmem
      refine ⟨front, (route_append_cons.1 hroute).1, hnodup.sublist ?_⟩
      simp
    · have hlong := route_append_cons.2 ⟨hroute, hpass.resolve_left hus, route_nil.2 hout⟩
      refine ⟨between ++ [u], hlong, ?_⟩
      have hfresh : v ∉ s :: (between ++ [u]) := by simp [hv, hvu, hmem]
      have hnodup : (s :: (between ++ [u]) ++ [v]).Nodup :=
        (List.nodup_cons.2 ⟨hfresh, hnodup⟩).perm (List.perm_append_singleton v _).symm
      simpa using hnodup

theorem mem_reach_iff_route :
    v ∈ g.reach s stops ↔ v = s ∨ ∃ between, g.Route stops s v between := by
  rw [mem_reach_iff]
  constructor
  · intro h
    by_cases hv : v = s
    · exact .inl hv
    · obtain ⟨between, hroute, -⟩ := exists_simple_route h hv
      exact .inr ⟨between, hroute⟩
  · rintro (rfl | ⟨between, hroute⟩)
    · exact .refl
    · exact hroute.reflTransGen (.inl rfl)

/-- A search turn by turn: so many turns lead from a stack and what has been seen to what is
found. -/
inductive Turns (g : Graph) (stops : List String) :
    Nat → List String → List String → List String → Prop
  | done (seen : List String) : Turns g stops 0 [] seen seen
  | turn {n : Nat} {s : String} {stack seen found fresh : List String}
      (hfresh : fresh = (g.outputs s).filter (· ∉ seen))
      (h : Turns g stops n (fresh.filter (· ∉ stops) ++ stack) (fresh ++ seen) found) :
      Turns g stops (n + 1) (s :: stack) seen found

theorem Turns.length_le (h : Turns g stops n stack seen found) :
    n + seen.length ≤ stack.length + found.length := by
  induction h with
  | done seen => simp
  | @turn n s stack seen found fresh _ _ ih =>
    -- A turn takes one stage from the stack, and none comes there but with being seen first.
    have hpushed := List.length_filter_le (· ∉ stops) fresh
    simp only [List.length_append, List.length_cons] at ih ⊢
    omega

theorem exists_turns (g : Graph) (stops stack seen : List String) :
    ∃ n, Turns g stops n stack seen (g.search stops stack seen) := by
  induction stack, seen using Graph.search.induct g stops with
  | case1 seen => exact ⟨0, by simpa only [search] using .done seen⟩
  | case2 seen s stack fresh ih =>
    obtain ⟨n, hn⟩ := ih
    rw [search]
    exact ⟨n + 1, .turn rfl hn⟩

theorem exists_turns_reach (g : Graph) (s : String) (stops : List String) :
    ∃ n ≤ (g.reach s stops).length, Turns g stops n [s] [s] (g.reach s stops) := by
  obtain ⟨n, hn⟩ : ∃ n, Turns g stops n [s] [s] (g.reach s stops) := exists_turns g stops [s] [s]
  have hlen := hn.length_le
  simp only [List.length_cons, List.length_nil] at hlen
  exact ⟨n, by omega, hn⟩

end Graph

namespace Planner

open Pipeline.Graph

/-- In any graph a search from a stage that is there ends after at most one turn for each stage it
finds. It finds the stage itself and what routes past no stop lead to, be they long or such that
they meet no stage twice; from a stage that is not there it does not start. -/
theorem reachable_by_routes (g : Graph) :
    (∀ stage stops, g.has stage = false →
      reachable g stage stops = .error (.graph (.missing stage))) ∧
      ∀ s ∈ g.stages, ∀ stops vs, stops.hashedItems = .ok vs →
        ∃ names, reachable g (.text s) stops = .ok names ∧
          (∃ n ≤ names.length, Turns g (stopNames vs) n [s] [s] names) ∧
          (∀ v, v ∈ names ↔ v = s ∨ ∃ between, g.Route (stopNames vs) s v between) ∧
          ∀ v ∈ names, v ≠ s →
            ∃ between, g.Route (stopNames vs) s v between ∧ (s :: (between ++ [v])).Nodup := by
  refine ⟨fun stage stops hstage => ?_, fun s hs stops vs hstops => ?_⟩
  · have hnone : g.stage? stage = none := by simpa [has] using hstage
    simp [reachable, hnone]
  · exact ⟨_, reachable_of_hashed hs hstops, exists_turns_reach g s _,
      fun v => mem_reach_iff_route,
      fun v hv hvs => exists_simple_route (mem_reach_iff.1 hv) hvs⟩

theorem reachable_by_routes_cycle :
    let g := draw .lexicographic [⟨"a", "b"⟩, ⟨"b", "a"⟩, ⟨"b", "b"⟩, ⟨"b", "c"⟩, ⟨"c", "c"⟩,
      ⟨"c", "d"⟩]
    g.has (.text "e") = false ∧ "a" ∈ g.stages ∧
      (Value.set [.text "a", .text "c"]).hashedItems = .ok [.text "a", .text "c"] ∧
      reachable g (.text "e") (.list []) = .error (.graph (.missing (.text "e"))) ∧
      ∃ names, reachable g (.text "a") (.set [.text "a", .text "c"]) = .ok names ∧
        (∃ between, g.Route ["a", "c"] "a" "c" between) ∧
        ¬∃ between, g.Route ["a", "c"] "a" "d" between := by
  have habsent : (draw .lexicographic [⟨"a", "b"⟩, ⟨"b", "a"⟩, ⟨"b", "b"⟩, ⟨"b", "c"⟩,
      ⟨"c", "c"⟩, ⟨"c", "d"⟩]).has (.text "e") = false := by decide +kernel
  have hstage : "a" ∈ (draw .lexicographic [⟨"a", "b"⟩, ⟨"b", "a"⟩, ⟨"b", "b"⟩, ⟨"b", "c"⟩,
      ⟨"c", "c"⟩, ⟨"c", "d"⟩]).stages := by decide +kernel
  have hstops : (Value.set [.text "a", .text "c"]).hashedItems = .ok [.text "a", .text "c"] := rfl
  have hfound : reachable (draw .lexicographic [⟨"a", "b"⟩, ⟨"b", "a"⟩, ⟨"b", "b"⟩, ⟨"b", "c"⟩,
      ⟨"c", "c"⟩, ⟨"c", "d"⟩]) (.text "a") (.set [.text "a", .text "c"]) =
        .ok ["c", "b", "a"] := by cbv
  obtain ⟨hmissing, hfinds⟩ := reachable_by_routes (draw .lexicographic [⟨"a", "b"⟩, ⟨"b", "a"⟩,
    ⟨"b", "b"⟩, ⟨"b", "c"⟩, ⟨"c", "c"⟩, ⟨"c", "d"⟩])
  obtain ⟨names, hnames, -, hroutes, -⟩ := hfinds "a" hstage _ _ hstops
  rw [hfound, Except.ok.injEq] at hnames
  subst hnames
  refine ⟨habsent, hstage, hstops, hmissing _ _ habsent, _, hfound, ?_, fun hroute => ?_⟩
  · exact ((hroutes "c").1 (by simp)).resolve_left (by simp)
  · simpa using (hroutes "d").2 (.inr hroute)

end Planner

end Pipeline
