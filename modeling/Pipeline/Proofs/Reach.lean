import Pipeline.Graph.Reach
import Pipeline.Proofs.Path

namespace Pipeline.Graph

open Pipeline.Path Relation

variable {g : Graph} {start s v : String} {stops stack seen : List String}

/-- A connection that a search from a stage follows. -/
def Passes (cs : List Connection) (start : String) (stops : List String) (s t : String) : Prop :=
  Leads cs s t ∧ (s = start ∨ s ∉ stops)

/-- The state of a search: what is seen was reached, and what may be passed is followed or waits
on the stack. -/
structure Searching (g : Graph) (start : String) (stops stack seen : List String) : Prop where
  started : start ∈ seen
  stacked : ∀ s ∈ stack, s ∈ seen ∧ (s = start ∨ s ∉ stops)
  reached : ∀ s ∈ seen, ReflTransGen (Passes g.edges start stops) start s
  followed : ∀ s ∈ seen, s = start ∨ s ∉ stops → s ∈ stack ∨ ∀ t, Leads g.edges s t → t ∈ seen

theorem Searching.step (h : Searching g start stops (s :: stack) seen) :
    Searching g start stops
      (((g.outputs s).filter (· ∉ seen)).filter (· ∉ stops) ++ stack)
      ((g.outputs s).filter (· ∉ seen) ++ seen) := by
  have hfresh : ∀ {t}, t ∈ (g.outputs s).filter (· ∉ seen) ↔ Leads g.edges s t ∧ t ∉ seen := by
    simp [mem_outputs, Leads]
  obtain ⟨hseen, hpass⟩ := h.stacked s List.mem_cons_self
  refine ⟨List.mem_append_right _ h.started, fun t ht => ?_, fun t ht => ?_, fun t ht hts => ?_⟩
  · obtain ht | ht := List.mem_append.1 ht
    · obtain ⟨ht, hstop⟩ := List.mem_filter.1 ht
      exact ⟨List.mem_append_left _ ht, .inr (by simpa using hstop)⟩
    · obtain ⟨ht, htp⟩ := h.stacked t (List.mem_cons_of_mem _ ht)
      exact ⟨List.mem_append_right _ ht, htp⟩
  · obtain ht | ht := List.mem_append.1 ht
    · exact (h.reached s hseen).tail ⟨(hfresh.1 ht).1, hpass⟩
    · exact h.reached t ht
  · obtain ht | ht := List.mem_append.1 ht
    · have hne : t ≠ start := fun he => (hfresh.1 ht).2 (he ▸ h.started)
      have hstop : t ∉ stops := hts.resolve_left hne
      exact .inl (List.mem_append_left _ (List.mem_filter.2 ⟨ht, by simpa using hstop⟩))
    · -- The stage taken from the stack has been followed by now.
      obtain hst | hout := h.followed t ht hts
      · obtain rfl | hst := List.mem_cons.1 hst
        · refine .inr fun u hu => List.mem_append.2 ?_
          by_cases hus : u ∈ seen
          · exact .inr hus
          · exact .inl (hfresh.2 ⟨hu, hus⟩)
        · exact .inl (List.mem_append_right _ hst)
      · exact .inr fun u hu => List.mem_append_right _ (hout u hu)

theorem Searching.search (h : Searching g start stops stack seen) :
    Searching g start stops [] (g.search stops stack seen) := by
  induction stack, seen using Graph.search.induct g stops with
  | case1 seen => simpa only [Graph.search] using h
  | case2 seen s stack fresh ih =>
    rw [Graph.search]
    exact ih h.step

theorem searching_reach (g : Graph) (start : String) (stops : List String) :
    Searching g start stops [] (g.reach start stops) := by
  refine Searching.search ⟨by simp, by simp, ?_, ?_⟩
  · intro s hs
    rw [List.mem_singleton.1 hs]
  · intro s hs _
    exact .inl hs

theorem mem_reach_iff :
    v ∈ g.reach start stops ↔ ReflTransGen (Passes g.edges start stops) start v := by
  have h := searching_reach g start stops
  refine ⟨h.reached v, fun hv => ?_⟩
  induction hv with
  | refl => exact h.started
  | tail _ hst ih => exact ((h.followed _ ih hst.2).resolve_left (by simp)) _ hst.1

theorem mem_reach_nil : v ∈ g.reach start [] ↔ ReflTransGen (Leads g.edges) start v := by
  have hpasses : Passes g.edges start [] = Leads g.edges := by
    funext s t
    simp [Passes]
  rw [mem_reach_iff, hpasses]

theorem nodup_search (hg : ∀ s, (g.outputs s).Nodup) (hs : seen.Nodup) :
    (g.search stops stack seen).Nodup := by
  induction stack, seen using Graph.search.induct g stops with
  | case1 seen => simpa only [search] using hs
  | case2 seen s stack fresh ih =>
    rw [search]
    refine ih (List.nodup_append.2 ⟨(hg s).filter _, hs, fun x hx y hy hxy => ?_⟩)
    have hnew := (List.mem_filter.1 hx).2
    exact absurd (hxy ▸ hy) (by simpa using hnew)

theorem nodup_reach (hg : ∀ s, (g.outputs s).Nodup) (s : String) : (g.reach s stops).Nodup :=
  nodup_search hg (List.nodup_singleton s)

end Pipeline.Graph
