import Pipeline.Proofs.History
import Pipeline.Proofs.Record

namespace Pipeline.Planner

open Pipeline.Graph Pipeline.Log

variable {c : Log.Config} {time n s : String} {g h : Graph} {name target : Value}
  {l : List String}

def insertedKeys : List String := ["stage", "in_front_of", "inputs", "event"] ++ stampKeys

/-- A context with which the record of an insertion can be made. -/
def Unspoilt (context : Fields) : Prop := Clear insertedKeys "Inserted stage" context

theorem starts_inserted (n s : String) (l : List String) :
    Starts [("stage", .text n), ("in_front_of", .text s), ("inputs", names l),
      ("event", .text "Inserted stage")] "Inserted stage" := by
  have hkeyed : Fields.Keyed [("stage", .text n), ("in_front_of", .text s), ("inputs", names l),
      ("event", .text "Inserted stage")] := by simp [Fields.Keyed]
  refine ⟨hkeyed, rfl, rfl, rfl, fun k v hv => ?_⟩
  have hmem := hkeyed.get?_eq_some_iff.1 hv
  simp only [List.mem_cons, List.not_mem_nil, or_false, Prod.mk.injEq] at hmem
  obtain ⟨-, rfl⟩ | ⟨-, rfl⟩ | ⟨-, rfl⟩ | ⟨-, rfl⟩ := hmem
  · exact shows_text n
  · exact shows_text s
  · exact ⟨names l, rfl⟩
  · exact shows_text _

theorem note_inserted_eq_ok_iff :
    (note c time "Inserted stage" [("stage", .text n), ("in_front_of", .text s),
      ("inputs", names l)]).result = .ok () ↔ Unspoilt c.context := by
  rw [note_eq_ok_iff]
  exact exists_finish_iff (starts_inserted n s l)

theorem insert_of_ok (c : Log.Config) (time : String) (hi : g.insert name target = .ok h) :
    (insert c time g name target).1 = h ∧
      ((insert c time g name target).2.result = .ok () ↔ Unspoilt c.context) := by
  obtain ⟨n, s, rfl, rfl, -⟩ := insert_eq_ok_iff.1 hi
  unfold insert
  rw [hi]
  exact ⟨rfl, note_inserted_eq_ok_iff⟩

theorem insert_cases (c : Log.Config) (time : String) (g : Graph) (name target : Value) :
    (∃ e, insert c time g name target = (g, .failed (.graph e))) ∨
      ∃ n s, name = .text n ∧ target = .text s ∧ n ∉ g.stages ∧ s ∈ g.stages ∧
        (insert c time g name target).1 = g.splice n s ∧
        ((insert c time g name target).2.result = .ok () ↔ Unspoilt c.context) ∧
        ((insert c time g name target).2.result = .ok () ∨
          ∃ f, (insert c time g name target).2.result = .error (.log f)) := by
  unfold insert
  cases hi : g.insert name target with
  | error e => exact .inl ⟨e, rfl⟩
  | ok spliced =>
    obtain ⟨n, s, rfl, rfl, -, hn, hs, rfl⟩ := insert_eq_ok_iff.1 hi
    exact .inr ⟨n, s, rfl, rfl, hn, hs, rfl, note_inserted_eq_ok_iff, note_cases _ _ _ _⟩

theorem exists_new_name (l : List String) : ∃ n, n ≠ "" ∧ n ∉ l := by
  obtain ⟨n, hn⟩ := Infinite.exists_notMem_finset (Insert.insert "" l.toFinset)
  rw [Finset.mem_insert, List.mem_toFinset, not_or] at hn
  exact ⟨n, hn⟩

theorem not_same_splice (hn : n ∉ g.stages) : (g.splice n s).same g = false := by
  apply Bool.eq_false_iff.2
  intro hsame
  simp only [Graph.same, Bool.and_eq_true, sameMembers_iff] at hsame
  obtain ⟨⟨⟨hstages, -⟩, -⟩, -⟩ := hsame
  exact hn ((hstages n).1 (mem_stages_splice.2 (.inr rfl)))

theorem same_self (g : Graph) : g.same g = true := by
  simp [Graph.same, sameMembers_iff]

theorem insert_keeps_iff (c : Log.Config) (time : String) (g : Graph) :
    (∀ name target f, (insert c time g name target).2.result = .error f →
      (insert c time g name target).1.same g = true) ↔ g.stages = [] ∨ Unspoilt c.context := by
  constructor
  · intro hkeeps
    by_contra hnot
    rw [not_or] at hnot
    obtain ⟨s, hs⟩ := List.exists_mem_of_ne_nil _ hnot.1
    obtain ⟨n, hne, hn⟩ := exists_new_name g.stages
    have hi : g.insert (.text n) (.text s) = .ok (g.splice n s) :=
      insert_eq_ok_iff.2 ⟨n, s, rfl, rfl, hne, hn, hs, rfl⟩
    obtain ⟨hgraph, hresult⟩ := insert_of_ok c time hi
    cases hr : (insert c time g (.text n) (.text s)).2.result with
    | ok => exact hnot.2 (hresult.1 hr)
    | error f =>
      have hsame := hkeeps _ _ f hr
      rw [hgraph, not_same_splice hn] at hsame
      cases hsame
  · intro hcase name target f hf
    obtain ⟨e, he⟩ | ⟨n, s, -, -, -, hs, -, hresult, -⟩ := insert_cases c time g name target
    · rw [he]
      exact same_self g
    · obtain hnil | hclear := hcase
      · rw [hnil] at hs
        cases hs
      · rw [hresult.2 hclear] at hf
        cases hf

/-- An insertion that fails has left the graph as it was, or it has failed by its record only and
has been carried out. Which of its records can be made the context decides, so insertions are all
or nothing, whatever they are given, exactly when no stage is left or the context spoils none. -/
theorem failed_insert_keeps (c : Log.Config) (time : String) (g : Graph) :
    (∀ name target f, (insert c time g name target).2.result = .error f →
      ((∃ e, f = .graph e) ∧ (insert c time g name target).1 = g) ∨
        (∃ l, f = .log l) ∧ ∃ n s, name = .text n ∧ target = .text s ∧ n ∉ g.stages ∧
          s ∈ g.stages ∧ (insert c time g name target).1 = g.splice n s) ∧
      (∀ name target h, g.insert name target = .ok h →
        ((insert c time g name target).2.result = .ok () ↔ Unspoilt c.context)) ∧
      ((∀ name target f, (insert c time g name target).2.result = .error f →
        (insert c time g name target).1.same g = true) ↔
          g.stages = [] ∨ Unspoilt c.context) := by
  refine ⟨fun name target f hf => ?_, fun name target h hi => (insert_of_ok c time hi).2,
    insert_keeps_iff c time g⟩
  obtain ⟨e, he⟩ | ⟨n, s, hname, htarget, hn, hs, hgraph, -, hlog⟩ :=
    insert_cases c time g name target
  · rw [he] at hf ⊢
    cases hf
    exact .inl ⟨⟨e, rfl⟩, rfl⟩
  · right
    rw [hf] at hlog
    obtain hok | ⟨l, hl⟩ := hlog
    · cases hok
    · cases hl
      exact ⟨⟨l, rfl⟩, n, s, hname, htarget, hn, hs, hgraph⟩

/-- A set of connections in the context has no order: the record of the stage cannot be made, and
the stage stays. -/
theorem insert_spoilt_by_context :
    let g := draw .lexicographic [⟨"a", "b"⟩]
    let c : Log.Config := ⟨.json, 30, 1, [("cut", .set [.connection (.text "a") (.text "b"),
      .connection (.text "b") (.text "c")])]⟩
    ofItems .lexicographic [.tuple [.text "a", .text "b"]] = .ok g ∧
      (insert c "" g (.text "x") (.text "b")).2.result = .error (.log (.misuse
        (.unordered "Connection" "Connection"))) ∧
      (insert c "" g (.text "x") (.text "b")).1.same g = false ∧
      (insert c "" g (.text "x") (.text "b")).1.stages = ["a", "b", "x"] := by
  refine ⟨by cbv, by cbv, by decide +kernel, by decide +kernel⟩

end Pipeline.Planner
