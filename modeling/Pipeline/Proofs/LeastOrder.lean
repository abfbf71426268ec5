import Pipeline.Proofs.StageRanks
import Mathlib.Data.String.Basic

namespace Pipeline.Graph

open Pipeline.Path Connection

variable {g h rest : Graph} {t : TieBreak} {s n : String} {seen l m : List String}
  {cs : List Connection} {items : List Value}

/-- A list in which every stage stands once, in front of its outputs. -/
structure IsOrder (g : Graph) (l : List String) : Prop where
  nodup : l.Nodup
  mem_iff : ∀ s, s ∈ l ↔ s ∈ g.stages
  before : ∀ c ∈ g.edges, List.Sublist [c.tail, c.head] l

theorem isOrder_nil (hb : g.Books) (hs : g.stages = []) : IsOrder g [] where
  nodup := .nil
  mem_iff := by simp [hs]
  before c hc := by
    have htail := (hb.joined c hc).1
    rw [hs] at htail
    exact absurd htail List.not_mem_nil

theorem IsOrder.cons (hb : g.Books) (hs : s ∈ g.stages) (hfree : Free g.edges .source s)
    (hw : g.Without s rest) (h : IsOrder rest l) : IsOrder g (s :: l) where
  nodup := by
    refine List.nodup_cons.2 ⟨fun hsl => ?_, h.nodup⟩
    have hsr := (h.mem_iff s).1 hsl
    simp [hw.stages] at hsr
  mem_iff u := by
    rw [List.mem_cons, h.mem_iff, hw.stages, List.mem_filter]
    by_cases hu : u = s <;> simp [hu, hs]
  before c hc := by
    have hhead : c.head ≠ s := hfree c hc
    have hmem : c.head ∈ l := by
      rw [h.mem_iff, hw.stages]
      exact List.mem_filter.2 ⟨(hb.joined c hc).2, by simpa using hhead⟩
    by_cases htail : c.tail = s
    · rw [htail]
      exact (List.singleton_sublist.2 hmem).cons_cons s
    · refine (h.before c ?_).cons s
      rw [hw.edges]
      exact mem_edgesWithout.2 ⟨hc, htail, hhead⟩

theorem IsOrder.head_free (h : IsOrder g (s :: l)) : Free g.edges .source s := by
  intro c hc hs
  have hsub := h.before c hc
  have hsl := (List.nodup_cons.1 h.nodup).1
  have hs : c.head = s := hs
  rw [hs] at hsub
  cases hsub with
  | cons _ hsub => exact hsl (hsub.subset (by simp))
  | cons_cons _ hsub => exact hsl (hsub.subset (by simp))

theorem IsOrder.tail (hw : g.Without s rest) (h : IsOrder g (s :: l)) : IsOrder rest l where
  nodup := (List.nodup_cons.1 h.nodup).2
  mem_iff u := by
    have hsl := (List.nodup_cons.1 h.nodup).1
    have hu := h.mem_iff u
    rw [List.mem_cons] at hu
    rw [hw.stages, List.mem_filter, ← hu]
    by_cases hus : u = s
    · simp [hus, hsl]
    · simp [hus]
  before c hc := by
    rw [hw.edges, mem_edgesWithout] at hc
    have hsub := h.before c hc.1
    cases hsub with
    | cons _ hsub => exact hsub
    | cons_cons _ hsub => exact absurd rfl hc.2.1

theorem isOrder_drain (hv : g.Valid) : IsOrder g (g.drain .source).1 := by
  induction g using Graph.drain.induct .source with
  | case1 g rest hr =>
    rw [drain_of_none hr]
    exact isOrder_nil hv.toBooks ((hv.members_eq_nil_iff .source).1 (hv.remove_none hr).1)
  | case2 g s rest hr ih =>
    obtain ⟨hs, hw, -⟩ := hv.remove_some hr
    obtain ⟨hstage, hfree⟩ := (hv.members .source s).1 hs
    have hrest : rest.Valid := by simpa only [hr] using hv.remove .source
    rw [drain_of_some hr]
    exact .cons hv.toBooks hstage hfree hw (ih hrest)

/-- The place of one stage comes before that of another. -/
def Precedes (g : Graph) (s u : String) : Prop := s ≠ u ∧ (g.entry s).le (g.entry u)

/-- An order that differs from the one found differs first where another source was taken, and
the one found takes the first. -/
theorem drain_least (hv : g.Valid) (h : Settled seen g) (hm : IsOrder g m) :
    (g.drain .source).1 = m ∨ List.Lex g.Precedes (g.drain .source).1 m := by
  induction g using Graph.drain.induct .source generalizing m with
  | case1 g rest hr =>
    have hnil := (hv.members_eq_nil_iff .source).1 (hv.remove_none hr).1
    rw [drain_of_none hr]
    left
    symm
    apply List.eq_nil_iff_forall_not_mem.2
    intro u hu
    rw [hm.mem_iff, hnil] at hu
    exact List.not_mem_nil hu
  | case2 g s rest hr ih =>
    obtain ⟨hs, hw, -⟩ := hv.remove_some hr
    have hrest : rest.Valid := by simpa only [hr] using hv.remove .source
    have hsettled : Settled seen rest := by simpa only [hr] using h.remove hv.toBooks .source
    have hentry : rest.Precedes = g.Precedes := by
      funext a b
      simp only [Precedes, hw.entry]
    rw [drain_of_some hr]
    cases m with
    | nil => exact absurd ((hm.mem_iff s).2 ((hv.members .source s).1 hs).1) List.not_mem_nil
    | cons a m =>
      by_cases hsa : s = a
      · subst hsa
        obtain heq | hlex := ih hrest hsettled (hm.tail hw)
        · exact .inl (by rw [heq])
        · rw [hentry] at hlex
          exact .inr (.cons hlex)
      · -- The order begins with another source, and the one taken precedes it.
        have ha : a ∈ (g.frontier .source).members :=
          (hv.members .source a).2 ⟨(hm.mem_iff a).1 List.mem_cons_self, hm.head_free⟩
        have hle := (h.remove_le hv.toSound (by rw [hr])).2 a ha
        exact .inr (.rel ⟨hsa, hle⟩)

theorem lex_map {α β : Type} {r : α → α → Prop} {q : β → β → Prop} (f : α → β) {as bs : List α}
    (hf : ∀ a ∈ as, ∀ b ∈ bs, r a b → q (f a) (f b)) (h : List.Lex r as bs) :
    List.Lex q (as.map f) (bs.map f) := by
  induction h with
  | nil => exact .nil
  | cons _ ih =>
    exact .cons (ih fun a ha b hb => hf a (List.mem_cons_of_mem _ ha) b (List.mem_cons_of_mem _ hb))
  | rel hab => exact .rel (hf _ List.mem_cons_self _ List.mem_cons_self hab)

theorem lt_of_precedes (ht : g.tieBreak = .lexicographic) {u : String} (h : g.Precedes s u) :
    s < u :=
  lt_of_le_of_ne ((entry_le_iff_of_lexicographic ht).1 h.2) h.1

theorem lt_of_lex_precedes (ht : g.tieBreak = .lexicographic) (h : List.Lex g.Precedes l m) :
    l < m := by
  have hlex := lex_map (q := (· < ·)) id (fun _ _ _ _ => lt_of_precedes ht) h
  rwa [List.map_id, List.map_id] at hlex

theorem idxOf_lt_of_precedes (ht : g.tieBreak = .insertion) (hd : Dated seen g) {u : String}
    (hs : s ∈ seen) (hu : u ∈ seen) (h : g.Precedes s u) : seen.idxOf s < seen.idxOf u := by
  obtain ⟨hne, hle⟩ := h
  have hahead := (hd.entry_le_iff hs hu).1 hle
  rw [ht] at hahead
  have hplace : seen.idxOf s ≠ seen.idxOf u := fun he => hne ((List.idxOf_inj hs).1 he)
  exact Nat.lt_of_le_of_ne hahead hplace

theorem dated_run (hv : g.Valid) (hs : Settled seen g) (hd : Dated seen g) {es : List Edit}
    (hnew : (g.entered es).Nodup) (hdis : seen.Disjoint (g.entered es)) :
    Settled (seen ++ g.entered es) (g.run es) ∧ Dated (seen ++ g.entered es) (g.run es) :=
  (hv.run_induction (q := False) (P := fun seen g => Settled seen g ∧ Dated seen g)
    (fun _ _ hs hn h => ⟨h.1.splice hs (.inr (hn.resolve_left id)),
      h.2.splice (hn.resolve_left id)⟩)
    (fun e hv h => ⟨h.1.remove hv.toBooks e,
      h.2.congr (remove_frame _ e).2.1 (remove_frame _ e).2.2⟩)
    es (.inr ⟨hnew, hdis⟩) ⟨hs, hd⟩).1

/-- After any calls an order is found in which every stage stands once, in front of its outputs.
By name it is the first of all such orders; by place it is, unless a name came back. -/
theorem linearize_least {g₀ : Graph} (hg : ofItems t items = .ok g₀) (es : List Edit) :
    let g := g₀.run es
    ∃ cs l, List.Forall₂ Denotes items cs ∧ g.linearize = .ok l ∧ IsOrder g l ∧
      (t = .lexicographic → ∀ m, IsOrder g m → l = m ∨ l < m) ∧
      (t = .insertion → (g₀.entered es).Nodup → (endpoints cs).Disjoint (g₀.entered es) →
        ∀ m, IsOrder g m → l = m ∨
          l.map (endpoints cs ++ g₀.entered es).idxOf <
            m.map (endpoints cs ++ g₀.entered es).idxOf) := by
  obtain ⟨cs, hitems, hdraw, hvalid⟩ := valid_of_ofItems hg
  have ht₀ : g₀.tieBreak = t := hdraw ▸ tieBreak_draw t cs
  have hsettled₀ : Settled (endpoints cs) g₀ := hdraw ▸ settled_draw t cs
  have hdated₀ : Dated (endpoints cs) g₀ := hdraw ▸ dated_draw t cs
  have hv := hvalid.run es
  have ht := (tieBreak_run g₀ es).trans ht₀
  have horder := isOrder_drain hv
  dsimp only
  refine ⟨cs, _, hitems, linearize_eq_ok hv.toSound hv.acyclic, horder, fun htl m hm => ?_,
    fun hti hnew hdis m hm => ?_⟩
  · have hsettled := settled_run_of_lexicographic hvalid (ht₀.trans htl) hsettled₀ es
    obtain heq | hlex := drain_least hv hsettled hm
    · exact .inl heq
    · have hlt := lex_map (q := (· < ·)) id (fun a _ b _ => lt_of_precedes (ht.trans htl)) hlex
      rw [List.map_id, List.map_id] at hlt
      exact .inr hlt
  · obtain ⟨hsettled, hdated⟩ := dated_run hvalid hsettled₀ hdated₀ hnew hdis
    obtain heq | hlex := drain_least hv hsettled hm
    · exact .inl heq
    · have hknown : ∀ {l}, IsOrder (g₀.run es) l → ∀ u ∈ l, u ∈ endpoints cs ++ g₀.entered es :=
        fun hl u hu => hsettled.known u ((hl.mem_iff u).1 hu)
      exact .inr (lex_map (q := (· < ·)) _ (fun a ha b hb =>
        idxOf_lt_of_precedes (ht.trans hti) hdated (hknown horder a ha) (hknown hm b hb)) hlex)

/-- The stage spliced in last runs behind one that was there before, whatever their names. -/
theorem linearize_least_behind :
    let g₀ := draw .insertion [⟨"b", "d"⟩, ⟨"c", "d"⟩]
    let es := [.insert (.text "a") (.text "b"), .remove .source, .insert (.int 3) (.text "b")]
    let seen := ["b", "d", "c", "d", "a"]
    ofItems .insertion [.tuple [.text "b", .text "d"], .list [.text "c", .text "d"]] = .ok g₀ ∧
      (g₀.entered es).Nodup ∧ List.Disjoint ["b", "d", "c", "d"] (g₀.entered es) ∧
      ∃ l, (g₀.run es).linearize = .ok l ∧ IsOrder (g₀.run es) l ∧
        ∀ m, IsOrder (g₀.run es) m → l = m ∨ l.map seen.idxOf < m.map seen.idxOf := by
  have hg : ofItems .insertion [.tuple [.text "b", .text "d"], .list [.text "c", .text "d"]] =
      .ok (draw .insertion [⟨"b", "d"⟩, ⟨"c", "d"⟩]) := by cbv
  obtain ⟨cs, l, hcs, hl, horder, -, hplace⟩ := linearize_least hg
    [.insert (.text "a") (.text "b"), .remove .source, .insert (.int 3) (.text "b")]
  have hentered : (draw .insertion [⟨"b", "d"⟩, ⟨"c", "d"⟩]).entered
      [.insert (.text "a") (.text "b"), .remove .source, .insert (.int 3) (.text "b")] =
        ["a"] := by
    decide +kernel
  have hread := mapM_ofItem_eq_ok_iff.2 hcs
  have hitems : [.tuple [.text "b", .text "d"], .list [.text "c", .text "d"]].mapM ofItem =
      .ok [⟨"b", "d"⟩, ⟨"c", "d"⟩] := by cbv
  rw [hitems, Except.ok.injEq] at hread
  have hends : endpoints cs = ["b", "d", "c", "d"] := by
    rw [← hread]
    rfl
  rw [hends, hentered] at hplace
  dsimp only
  rw [hentered]
  exact ⟨hg, by simp, by simp, l, hl, horder, hplace rfl (by simp) (by simp)⟩

end Pipeline.Graph
