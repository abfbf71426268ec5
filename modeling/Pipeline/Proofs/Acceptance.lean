import Pipeline.Planner
import Pipeline.Proofs.Draw
import Pipeline.Proofs.Island
import Pipeline.Proofs.Wording

namespace Pipeline.Graph

open Pipeline.Path Relation Connection

variable {g : Graph} {t : TieBreak} {items : List Value} {cs : List Connection}

theorem validate_eq (g : Graph) :
    g.validate =
      if g.sources.members = [] then .error (.noSource g.cycleReport)
      else if g.sinks.members = [] then .error (.noSink g.cycleReport)
      else match g.linearize with
        | .ok _ => g.checkIslands
        | .error e => .error e := by
  unfold validate
  split
  · rfl
  · split
    · rfl
    · cases g.linearize <;> rfl

theorem validate_cases (hg : g.Sound) :
    (g.sources.members = [] ∧ g.validate = .error (.noSource g.cycleReport)) ∨
      g.sources.members ≠ [] ∧
        ((g.sinks.members = [] ∧ g.validate = .error (.noSink g.cycleReport)) ∨
          g.sinks.members ≠ [] ∧
            ((Cyclic g.edges ∧ g.validate = .error (.cycle g.cycleReport)) ∨
              ¬Cyclic g.edges ∧ g.validate = g.checkIslands)) := by
  rw [validate_eq]
  by_cases hsources : g.sources.members = []
  · exact .inl ⟨hsources, if_pos hsources⟩
  rw [if_neg hsources]
  refine .inr ⟨hsources, ?_⟩
  by_cases hsinks : g.sinks.members = []
  · exact .inl ⟨hsinks, if_pos hsinks⟩
  rw [if_neg hsinks]
  refine .inr ⟨hsinks, ?_⟩
  by_cases hc : Cyclic g.edges
  · exact .inl ⟨hc, by rw [linearize_eq_error hg hc]⟩
  · exact .inr ⟨hc, by rw [linearize_eq_ok hg hc]⟩

theorem Drawn.leads (h : Drawn cs g) : Leads g.edges = Leads cs := by
  funext s t
  exact propext (h.mem_edges ⟨s, t⟩)

theorem Drawn.cyclic_iff (h : Drawn cs g) : Cyclic g.edges ↔ Cyclic cs := by
  rw [Cyclic, Cyclic, h.leads]

theorem Drawn.connected_iff (h : Drawn cs g) :
    Connected g.stages g.edges ↔ Connected (endpoints cs) cs := by
  simp only [Connected, h.leads, h.mem_stages]

/-- Every stage is kept away from an end by some connection. -/
def Blocked (cs : List Connection) (e : End) : Prop := ∀ s ∈ endpoints cs, ¬Free cs e s

theorem members_draw_eq_nil_iff (t : TieBreak) (cs : List Connection) (e : End) :
    ((draw t cs).frontier e).members = [] ↔ Blocked cs e := by
  have hd := drawn_draw t cs
  have hfree : ∀ s, Free (draw t cs).edges e s ↔ Free cs e s := by
    intro s
    simp only [Free, hd.mem_edges]
  rw [List.eq_nil_iff_forall_not_mem]
  simp only [(sound_draw t cs).members, hfree, hd.mem_stages, not_and]
  rfl

theorem cyclic_of_blocked {e : End} (hne : cs ≠ []) (h : Blocked cs e) : Cyclic cs := by
  by_contra ha
  obtain ⟨c, hc⟩ := List.exists_mem_of_ne_nil cs hne
  have hj : ∀ c ∈ cs, c.tail ∈ endpoints cs ∧ c.head ∈ endpoints cs :=
    fun c hc => ⟨mem_endpoints.2 ⟨c, hc, .inl rfl⟩, mem_endpoints.2 ⟨c, hc, .inr rfl⟩⟩
  obtain ⟨s, hs, hfree⟩ := exists_free e ha hj (hj c hc).1
  exact h s hs hfree

/-- What becomes of a list of connections that is not empty, by the first thing wrong with it. -/
inductive Verdict (t : TieBreak) (cs : List Connection) : Except GraphError Graph → Prop
  | noSource (stages : List String) (h : Blocked cs .source) :
    Verdict t cs (.error (.noSource stages))
  | noSink (stages : List String) (hs : ¬Blocked cs .source) (h : Blocked cs .sink) :
    Verdict t cs (.error (.noSink stages))
  | cycle (stages : List String) (hs : ¬Blocked cs .source) (hk : ¬Blocked cs .sink)
    (h : Cyclic cs) : Verdict t cs (.error (.cycle stages))
  | island (stages : List String) (ha : ¬Cyclic cs) (h : ¬Connected (endpoints cs) cs) :
    Verdict t cs (.error (.island stages))
  | passed (ha : ¬Cyclic cs) (h : Connected (endpoints cs) cs) : Verdict t cs (.ok (draw t cs))

theorem ofConnections_eq (hne : cs ≠ []) :
    ofConnections t cs = (draw t cs).validate.map fun _ => draw t cs := by
  unfold ofConnections
  rw [if_neg hne]
  cases (draw t cs).validate <;> rfl

theorem ofConnections_verdict (t : TieBreak) (hne : cs ≠ []) :
    Verdict t cs (ofConnections t cs) := by
  have hd := drawn_draw t cs
  have hsource := members_draw_eq_nil_iff t cs .source
  have hsink := members_draw_eq_nil_iff t cs .sink
  rw [ofConnections_eq hne]
  obtain ⟨hs, hv⟩ | ⟨hs, ⟨hk, hv⟩ | ⟨hk, ⟨hc, hv⟩ | ⟨hc, hv⟩⟩⟩ := validate_cases (sound_draw t cs)
  · rw [hv]
    exact .noSource _ (hsource.1 hs)
  · rw [hv]
    exact .noSink _ (mt hsource.2 hs) (hsink.1 hk)
  · rw [hv]
    exact .cycle _ (mt hsource.2 hs) (mt hsink.2 hk) (hd.cyclic_iff.1 hc)
  · have ha := mt hd.cyclic_iff.2 hc
    rw [hv]
    obtain ⟨hl, hi⟩ | ⟨hl, s, island, -, -, -, hi⟩ := checkIslands_cases (sound_draw t cs) hc
    · rw [hi]
      exact .passed ha (hd.connected_iff.1 hl)
    · rw [hi]
      exact .island _ ha (mt hd.connected_iff.2 hl)

theorem ofConnections_eq_ok_iff (t : TieBreak) (hne : cs ≠ []) :
    ofConnections t cs = .ok g ↔
      g = draw t cs ∧ ¬Cyclic cs ∧ Connected (endpoints cs) cs := by
  have hv := ofConnections_verdict t hne
  generalize ofConnections t cs = r at hv
  cases hv with
  | noSource stages h => simp [cyclic_of_blocked hne h]
  | noSink stages hs h => simp [cyclic_of_blocked hne h]
  | cycle stages hs hk h => simp [h]
  | island stages ha h => simp [h]
  | passed ha h => simp [ha, h, eq_comm]

end Pipeline.Graph

namespace Pipeline.Planner

open Pipeline.Path Connection Pipeline.Graph

variable {c : Log.Config} {time : String} {t : TieBreak} {items : List Value}
  {cs : List Connection} {room : Value.Room}

/-- A call that ended in a finding of a kind, narrower kinds aside. -/
def Refused (r : Except Failure Graph) (k : Kind) : Prop :=
  ∃ e, r = .error (.graph e) ∧ e.kind = k

/-- Apart from its record a build is what becomes of its items. -/
theorem build_eq (hlog : ∀ g, ofItems t items = .ok g → (passed c time g).result = .ok ()) :
    (build c time (.list items) (some (.text t.text))).result =
      (ofItems t items).mapError .graph := by
  have ht : tieBreakOf (some (.text t.text)) = .ok t := by
    simp [tieBreakOf, TieBreak.ofValue, TieBreak.ofText?_text, Except.mapError]
  unfold build
  rw [ht]
  show (announced c time (ofItems t items)).result = _
  cases h : ofItems t items with
  | error e => rfl
  | ok g =>
    show (Answer.andThen (passed c time g) _).result = _
    rw [Answer.andThen, hlog g h]
    rfl

end Pipeline.Planner
