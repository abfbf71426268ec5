import Pipeline.Graph.Basic
import Mathlib.Logic.Relation
import Mathlib.Order.WellFoundedSet

namespace Pipeline

/-- The stage that a connection keeps away from an end: who has an input is no source. -/
def End.bars : End → Connection → String
  | .source, c => c.head
  | .sink, c => c.tail

def End.other : End → End
  | .source => .sink
  | .sink => .source

namespace Path

open Relation

variable {cs ds : List Connection} {stages : List String} {e : End} {s t x : String}

def Leads (cs : List Connection) (s t : String) : Prop := ⟨s, t⟩ ∈ cs

def Cyclic (cs : List Connection) : Prop := ∃ s, TransGen (Leads cs) s s

/-- Stages hang together, whichever way the connections between them point. -/
def Connected (stages : List String) (cs : List Connection) : Prop :=
  ∀ s ∈ stages, ∀ t ∈ stages, EqvGen (Leads cs) s t

/-- No connection keeps a stage away from an end. -/
def Free (cs : List Connection) (e : End) (s : String) : Prop := ∀ c ∈ cs, e.bars c ≠ s

/-- The names of connections in the order in which they are met. -/
def endpoints (cs : List Connection) : List String := cs.flatMap fun c => [c.tail, c.head]

theorem mem_endpoints : s ∈ endpoints cs ↔ ∃ c ∈ cs, s = c.tail ∨ s = c.head := by
  simp [endpoints]

/-- One connection as it looks from an end: the first stage keeps the second away from it. -/
def Way (cs : List Connection) : End → String → String → Prop
  | .source, s, t => Leads cs s t
  | .sink, s, t => Leads cs t s

theorem free_iff : Free cs e s ↔ ∀ t, ¬Way cs e t s := by
  cases e with
  | source => exact ⟨fun h t ht => h _ ht rfl, fun h c hc hs => h c.tail (by subst hs; exact hc)⟩
  | sink => exact ⟨fun h t ht => h _ ht rfl, fun h c hc hs => h c.head (by subst hs; exact hc)⟩

theorem free_source_iff : Free cs .source s ↔ ∀ t, ¬Leads cs t s := free_iff

theorem free_sink_iff : Free cs .sink s ↔ ∀ t, ¬Leads cs s t := free_iff

theorem cyclic_iff (e : End) : Cyclic cs ↔ ∃ s, TransGen (Way cs e) s s := by
  cases e with
  | source => exact Iff.rfl
  | sink => exact exists_congr fun s => transGen_swap.symm

/-- A cycle keeps a stage away from an end: a way leads on from there to the stage. -/
def Held (cs : List Connection) (e : End) (s : String) : Prop :=
  ∃ a, TransGen (Way cs e) a a ∧ ReflTransGen (Way cs e) a s

theorem Held.cyclic (h : Held cs e s) : Cyclic cs := by
  obtain ⟨a, ha, -⟩ := h
  exact (cyclic_iff e).2 ⟨a, ha⟩

theorem Held.mono (hsub : cs ⊆ ds) (h : Held cs e s) : Held ds e s := by
  have hway : ∀ a b, Way cs e a b → Way ds e a b := by
    intro a b hab
    cases e <;> exact hsub hab
  obtain ⟨a, ha, has⟩ := h
  exact ⟨a, TransGen.mono hway _ _ ha, ReflTransGen.mono hway _ _ has⟩

theorem Held.not_free (h : Held cs e s) : ¬Free cs e s := by
  rw [free_iff]
  obtain ⟨a, ha, has⟩ := h
  obtain ⟨b, -, hb⟩ := TransGen.tail'_iff.1 (ha.trans_left has)
  exact fun hs => hs b hb

theorem Cyclic.mono (h : cs ⊆ ds) (hc : Cyclic cs) : Cyclic ds := by
  obtain ⟨s, hs⟩ := hc
  exact ⟨s, TransGen.mono (fun _ _ hl => h hl) _ _ hs⟩

/-- A relation between finitely many names that never returns has no endless way back. -/
theorem wellFounded_of_no_return {r : String → String → Prop} (l : List String)
    (hl : ∀ s t, r s t → s ∈ l ∧ t ∈ l) (h : ∀ s, ¬TransGen r s s) : WellFounded r := by
  have : IsTrans String (TransGen r) := ⟨fun _ _ _ => TransGen.trans⟩
  have : Std.Irrefl (TransGen r) := ⟨h⟩
  have : IsStrictOrder String (TransGen r) := {}
  have hw := Set.wellFoundedOn_iff.1 ((List.finite_toSet l).wellFoundedOn (r := TransGen r))
  exact Subrelation.wf (fun {s t} hst => ⟨.single hst, (hl s t hst).1, (hl s t hst).2⟩) hw

theorem mem_endpoints_of_way (h : Way cs e s t) : s ∈ endpoints cs ∧ t ∈ endpoints cs := by
  cases e with
  | source => exact ⟨mem_endpoints.2 ⟨_, h, .inl rfl⟩, mem_endpoints.2 ⟨_, h, .inr rfl⟩⟩
  | sink => exact ⟨mem_endpoints.2 ⟨_, h, .inr rfl⟩, mem_endpoints.2 ⟨_, h, .inl rfl⟩⟩

theorem held_or_exists_free (cs : List Connection) (e : End) (s : String) :
    Held cs e s ∨ ∃ r, ReflTransGen (Way cs e) r s ∧ Free cs e r := by
  by_cases hheld : Held cs e s
  · exact .inl hheld
  right
  -- Only the ways that lead to the stage count, and among them none returns.
  have hwf : WellFounded fun a b => Way cs e a b ∧ ReflTransGen (Way cs e) b s := by
    refine wellFounded_of_no_return (endpoints cs) (fun a b h => mem_endpoints_of_way h.1) ?_
    intro a ha
    obtain ⟨b, -, -, hbs⟩ := TransGen.tail'_iff.1 ha
    exact hheld ⟨a, TransGen.mono (fun _ _ h => h.1) _ _ ha, hbs⟩
  have hback : ∀ u, ReflTransGen (Way cs e) u s →
      ∃ r, ReflTransGen (Way cs e) r u ∧ Free cs e r := by
    intro u
    induction u using hwf.induction with
    | _ u ih =>
      intro hus
      by_cases hu : ∃ t, Way cs e t u
      · obtain ⟨t, ht⟩ := hu
        obtain ⟨r, hr, hfree⟩ := ih t ⟨ht, hus⟩ (hus.head ht)
        exact ⟨r, hr.tail ht, hfree⟩
      · exact ⟨u, .refl, free_iff.2 fun t ht => hu ⟨t, ht⟩⟩
  exact hback s .refl

theorem exists_way_free (e : End) (h : ¬Cyclic cs) (s : String) :
    ∃ r, ReflTransGen (Way cs e) r s ∧ Free cs e r :=
  (held_or_exists_free cs e s).resolve_left fun hs => h hs.cyclic

theorem mem_of_reflTransGen_way (hj : ∀ c ∈ cs, c.tail ∈ stages ∧ c.head ∈ stages)
    (h : ReflTransGen (Way cs e) s t) : s ∈ stages ↔ t ∈ stages := by
  induction h with
  | refl => exact Iff.rfl
  | tail _ hbc ih =>
    refine ih.trans ?_
    cases e with
    | source => exact iff_of_true (hj _ hbc).1 (hj _ hbc).2
    | sink => exact iff_of_true (hj _ hbc).2 (hj _ hbc).1

theorem exists_free (e : End) (h : ¬Cyclic cs)
    (hj : ∀ c ∈ cs, c.tail ∈ stages ∧ c.head ∈ stages) (hs : s ∈ stages) :
    ∃ t ∈ stages, Free cs e t := by
  obtain ⟨r, hr, hfree⟩ := exists_way_free e h s
  exact ⟨r, (mem_of_reflTransGen_way hj hr).2 hs, hfree⟩

theorem transGen_within {r q : String → String → Prop} {P : String → Prop}
    (hstep : ∀ a b, P a → r a b → P b ∧ q a b) (h : TransGen r s t) (hs : P s) :
    TransGen q s t ∧ P t := by
  induction h with
  | single hab => exact ⟨.single (hstep _ _ hs hab).2, (hstep _ _ hs hab).1⟩
  | tail _ hbc ih => exact ⟨ih.1.tail (hstep _ _ ih.2 hbc).2, (hstep _ _ ih.2 hbc).1⟩

theorem reflTransGen_within {r q : String → String → Prop} {P : String → Prop}
    (hstep : ∀ a b, P a → r a b → P b ∧ q a b) (h : ReflTransGen r s t) (hs : P s) :
    ReflTransGen q s t ∧ P t := by
  obtain rfl | h := reflTransGen_iff_eq_or_transGen.1 h
  · exact ⟨.refl, hs⟩
  · exact ⟨(transGen_within hstep h hs).1.to_reflTransGen, (transGen_within hstep h hs).2⟩

theorem Held.of_free (hx : Free cs e x) (hd : ∀ c ∈ cs, c.tail ≠ x → c.head ≠ x → c ∈ ds)
    (h : Held cs e s) : Held ds e s ∧ s ≠ x := by
  have hstep : ∀ a b, a ≠ x → Way cs e a b → b ≠ x ∧ Way ds e a b := by
    intro a b ha hab
    have hb : b ≠ x := fun he => free_iff.1 hx a (he ▸ hab)
    cases e with
    | source => exact ⟨hb, hd _ hab ha hb⟩
    | sink => exact ⟨hb, hd _ hab hb ha⟩
  obtain ⟨a, ha, has⟩ := h
  have hax : a ≠ x := fun he => Held.not_free ⟨a, ha, .refl⟩ (he ▸ hx)
  have hway := reflTransGen_within hstep has hax
  exact ⟨⟨a, (transGen_within hstep ha hax).1, hway.1⟩, hway.2⟩

theorem Cyclic.of_free (hx : Free cs e x) (hd : ∀ c ∈ cs, c.tail ≠ x → c.head ≠ x → c ∈ ds)
    (h : Cyclic cs) : Cyclic ds := by
  obtain ⟨a, ha⟩ := (cyclic_iff e).1 h
  exact (Held.of_free hx hd ⟨a, ha, .refl⟩).1.cyclic

end Path

end Pipeline
