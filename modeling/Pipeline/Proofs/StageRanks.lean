import Pipeline.Proofs.Precedence
import Pipeline.Proofs.FirstSeenRanks

namespace Pipeline

namespace TieBreak

variable {t : TieBreak} {names : List String} {P : String → Prop} {s u : String}

/-- What a tie-break compares: the names themselves, or their places in a list. -/
def Ahead (t : TieBreak) (names : List String) (s u : String) : Prop :=
  match t with
  | .lexicographic => s ≤ u
  | .insertion => names.idxOf s ≤ names.idxOf u

def First (t : TieBreak) (names : List String) (P : String → Prop) (s : String) : Prop :=
  P s ∧ ∀ u, P u → t.Ahead names s u

instance (t : TieBreak) (names : List String) (s u : String) : Decidable (t.Ahead names s u) :=
  match t with
  | .lexicographic => inferInstanceAs (Decidable (s ≤ u))
  | .insertion => inferInstanceAs (Decidable (names.idxOf s ≤ names.idxOf u))

instance (t : TieBreak) (names l : List String) (s : String) :
    Decidable (t.First names (· ∈ l) s) :=
  inferInstanceAs (Decidable (s ∈ l ∧ ∀ u ∈ l, t.Ahead names s u))

theorem First.unique (hs : t.First names P s) (hu : t.First names P u)
    (hmem : ∀ x, P x → x ∈ names) : s = u := by
  have hsu := hs.2 u hu.1
  have hus := hu.2 s hs.1
  cases t with
  | lexicographic => exact String.le_antisymm hsu hus
  | insertion => exact (List.idxOf_inj (hmem s hs.1)).1 (Nat.le_antisymm hsu hus)

end TieBreak

namespace Graph

variable {g h : Graph} {t : TieBreak} {s u n : String} {names seen l : List String}
  {p : String → Bool}

theorem idxOf_filter_lt_iff (hs : s ∈ l.filter p) (hu : u ∈ l.filter p) :
    (l.filter p).idxOf s < (l.filter p).idxOf u ↔ l.idxOf s < l.idxOf u := by
  induction l with
  | nil => simp at hs
  | cons x l ih =>
    have hps := (List.mem_filter.1 hs).2
    have hpu := (List.mem_filter.1 hu).2
    by_cases hx : p x = true
    · rw [List.filter_cons_of_pos hx] at hs hu ⊢
      by_cases hxs : x = s <;> by_cases hxu : x = u
      · simp [← hxs, ← hxu]
      · simp [← hxs, List.idxOf_cons_ne _ hxu]
      · simp [← hxu, List.idxOf_cons_ne _ hxs]
      · have hs := (List.mem_cons.1 hs).resolve_left (Ne.symm hxs)
        have hu := (List.mem_cons.1 hu).resolve_left (Ne.symm hxu)
        simpa [List.idxOf_cons, hxs, hxu] using ih hs hu
    · have hxs : x ≠ s := fun he => hx (he ▸ hps)
      have hxu : x ≠ u := fun he => hx (he ▸ hpu)
      rw [List.filter_cons_of_neg hx] at hs hu ⊢
      simpa [List.idxOf_cons, hxs, hxu] using ih hs hu

theorem Dated.filter (hd : Dated seen g) (p : String → Bool) : Dated (seen.filter p) g where
  below s hs := hd.below s (List.mem_filter.1 hs).1
  agrees a ha b hb := by
    rw [idxOf_filter_lt_iff ha hb]
    exact hd.agrees a (List.mem_filter.1 ha).1 b (List.mem_filter.1 hb).1

theorem Dated.entry_le_iff (hd : Dated seen g) (hs : s ∈ seen) (hu : u ∈ seen) :
    (g.entry s).le (g.entry u) ↔ g.tieBreak.Ahead seen s u := by
  cases ht : g.tieBreak with
  | lexicographic => exact entry_le_iff_of_lexicographic ht
  | insertion =>
    have hsu := hd.agrees s hs u hu
    have hus := hd.agrees u hu s hs
    rw [Entry.le_iff]
    simp only [entry, ht, TieBreak.Ahead]
    constructor
    · rintro (hlt | ⟨heq, -⟩) <;> omega
    · intro hle
      obtain hlt | heq := Nat.lt_or_eq_of_le hle
      · exact .inl (hsu.2 hlt)
      · obtain rfl := (List.idxOf_inj hs).1 heq
        exact .inr ⟨rfl, String.le_refl _⟩

theorem sorted_ordered (g : Graph) (names : List String) :
    (g.ordered names).Pairwise fun s u => (g.entry s).le (g.entry u) := by
  have htotal : ∀ s u, ((g.entry s).le (g.entry u) || (g.entry u).le (g.entry s)) = true := by
    intro s u
    rw [Bool.or_eq_true]
    exact Entry.le_total _ _
  apply List.pairwise_mergeSort ?_ htotal
  exact fun _ _ _ => Entry.le_trans

theorem head?_ordered_eq_some_iff (hd : Dated seen g) (hsub : ∀ x ∈ names, x ∈ seen) :
    (g.ordered names).head? = some s ↔ g.tieBreak.First seen (· ∈ names) s := by
  have hhead : ∀ {u}, (g.ordered names).head? = some u →
      g.tieBreak.First seen (· ∈ names) u := by
    intro u hu
    obtain ⟨rest, hrest⟩ := List.head?_eq_some_iff.1 hu
    have hmem : ∀ x, x ∈ names ↔ x = u ∨ x ∈ rest := by
      intro x
      rw [← mem_ordered (g := g), hrest, List.mem_cons]
    have hsorted := sorted_ordered g names
    rw [hrest, List.pairwise_cons] at hsorted
    have hun := (hmem u).2 (.inl rfl)
    refine ⟨hun, fun x hx => (hd.entry_le_iff (hsub u hun) (hsub x hx)).1 ?_⟩
    obtain rfl | hxr := (hmem x).1 hx
    · exact Entry.le_refl _
    · exact hsorted.1 x hxr
  refine ⟨hhead, fun hs => ?_⟩
  cases hu : (g.ordered names).head? with
  | none =>
    have hsn := (mem_ordered (g := g)).2 hs.1
    rw [List.head?_eq_none_iff.1 hu] at hsn
    exact absurd hsn List.not_mem_nil
  | some u => rw [(hhead hu).unique hs hsub]

theorem stages_remove (g : Graph) (e : End) :
    (g.remove e).2.stages = g.stages.filter (some · ≠ (g.remove e).1) := by
  rw [remove_eq]
  cases (g.frontier e).pop.1 <;> simp [takeAway]

/-- Ranks order the stages as they sit, and no name, present or gone, has a rank that is still to
be given. -/
structure Seated (g : Graph) : Prop extends Dated g.stages g where
  bounded : ∀ s, g.rank s ≤ g.nextRank

theorem Seated.congr (hg : g.Seated) (hs : h.stages = g.stages) (hr : h.ranks = g.ranks)
    (hn : h.nextRank = g.nextRank) : h.Seated where
  toDated := hs ▸ hg.toDated.congr hr hn
  bounded s := by
    rw [rank, hr, hn]
    exact hg.bounded s

theorem Seated.enter (hg : g.Seated) (hn : n ∉ g.stages) (hs : h.stages = g.stages ++ [n])
    (hr : h.ranks = (n, g.nextRank) :: g.ranks) (hnext : h.nextRank = g.nextRank + 1) :
    h.Seated where
  toDated := hs ▸ hg.toDated.enter hn hr hnext
  bounded s := by
    have hs := hg.bounded s
    rw [rank_of_ranks_cons hr, hnext]
    split <;> omega

theorem seated_empty (t : TieBreak) : (empty t).Seated :=
  ⟨⟨by simp [empty], by simp [empty]⟩, by simp [empty, rank]⟩

theorem seated_draw (t : TieBreak) (cs : List Connection) : (draw t cs).Seated := by
  have hfold := foldl_connect_keeps (P := Seated) (fun hn hs hr hnext hg => hg.enter hn hs hr hnext)
    (fun _ hg => hg.congr rfl rfl rfl) cs (seated_empty t)
  obtain ⟨sources, sinks, h⟩ := draw_eq t cs
  rw [h]
  exact hfold.congr rfl rfl rfl

theorem Seated.remove (hg : g.Seated) (e : End) : (g.remove e).2.Seated := by
  obtain ⟨-, hranks, hnext⟩ := remove_frame g e
  refine ⟨?_, fun s => ?_⟩
  · rw [stages_remove]
    exact (hg.toDated.filter _).congr hranks hnext
  · rw [rank, hranks, hnext]
    exact hg.bounded s

theorem seated_run (hv : g.Valid) (hg : g.Seated) (es : List Edit) : (g.run es).Seated :=
  (hv.run_keeps (fun _ hn _ hg => hg.enter hn rfl rfl rfl) (fun e _ hg => hg.remove e) es hg).1

end Graph

end Pipeline
