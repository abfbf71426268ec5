import Pipeline.Log.Config
import Mathlib.Data.List.Induction

namespace Pipeline.Log

/-- What a call asks for: a form, and a threshold by its name. -/
structure Request where
  form : Form
  level : String

namespace Request

variable (r : Request)

def meaning : Option Threshold := Threshold.ofName? (Text.Case.upper r.level)

def threshold? : Option Nat :=
  match r.meaning with
  | some (.number n) => some n
  | _ => none

/-- Whether the level names anything, be it a threshold or not. -/
def found : Bool := r.meaning.isSome

end Request

def Misleading (level : String) : Prop :=
  Text.Case.upper level = "BASIC_FORMAT" ∨ Text.Case.upper level = "_STYLES"

theorem ofName?_cases (name : String) :
    ((name = "BASIC_FORMAT" ∨ name = "_STYLES") ∧
      ((∃ t, Threshold.ofName? name = some (.text t)) ∨
        ∃ l, Threshold.ofName? name = some (.other l))) ∨
      ¬(name = "BASIC_FORMAT" ∨ name = "_STYLES") ∧
        (Threshold.ofName? name = none ∨ ∃ n, Threshold.ofName? name = some (.number n)) := by
  unfold Threshold.ofName?
  split
  all_goals simp_all

namespace Config

variable {c d : Config} {r : Request} {rs : List Request}

def call (c : Config) (r : Request) : Config × Except ConfigFault Unit :=
  c.configure r.form (.text r.level)

/-- The configuration after calls, whether they return or fail. -/
def after (c : Config) (rs : List Request) : Config := rs.foldl (fun c r => (c.call r).1) c

/-- What a call does: it sets everything and returns, it changes nothing and fails, or it is misled
and fails over the threshold when form and handler are set. -/
theorem call_cases (c : Config) (r : Request) :
    (∃ n, r.threshold? = some n ∧ r.found = true ∧ ¬Misleading r.level ∧
      c.call r = ({ c with form := r.form, threshold := n, handlers := 1 }, .ok ())) ∨
    (r.threshold? = none ∧ r.found = false ∧ ¬Misleading r.level ∧ ∃ f, c.call r = (c, .error f)) ∨
    (r.threshold? = none ∧ r.found = true ∧ Misleading r.level ∧
      ∃ f, c.call r = ({ c with form := r.form, handlers := 1 }, .error f)) := by
  have hcases := ofName?_cases (Text.Case.upper r.level)
  unfold Misleading call configure Request.threshold? Request.found Request.meaning
  obtain ⟨hmis, ⟨t, ht⟩ | ⟨l, hl⟩⟩ | ⟨hmis, hnone | ⟨n, hn⟩⟩ := hcases
  · simp [ht, hmis]
  · simp [hl, hmis]
  · simp [hnone, hmis]
  · simp [hn, hmis]

theorem call_of_misleading (c : Config) (h : Misleading r.level) :
    ∃ f, c.call r = ({ c with form := r.form, handlers := 1 }, .error f) := by
  obtain ⟨-, -, -, hmis, -⟩ | ⟨-, -, hmis, -⟩ | ⟨-, -, -, hc⟩ := call_cases c r
  · exact absurd h hmis
  · exact absurd h hmis
  · exact hc

theorem fst_call (c : Config) (r : Request) : (c.call r).1 = { c with
    form := if r.found then r.form else c.form
    threshold := r.threshold?.getD c.threshold
    handlers := if r.found then 1 else c.handlers } := by
  obtain ⟨n, ht, hf, -, hc⟩ | ⟨ht, hf, -, f, hc⟩ | ⟨ht, hf, -, f, hc⟩ := call_cases c r
  all_goals simp [hc, ht, hf]

theorem isOk_call (c : Config) (r : Request) : (c.call r).2.isOk = r.threshold?.isSome := by
  obtain ⟨n, ht, -, -, hc⟩ | ⟨ht, -, -, f, hc⟩ | ⟨ht, -, -, f, hc⟩ := call_cases c r
  all_goals simp [hc, ht, Except.isOk, Except.toBool]

theorem after_concat (c : Config) (rs : List Request) (r : Request) :
    c.after (rs ++ [r]) = ((c.after rs).call r).1 := by
  simp [after]

theorem after_eq (c : Config) (rs : List Request) : c.after rs = { c with
    form := ((rs.filter Request.found).getLast?.map Request.form).getD c.form
    threshold := (rs.filterMap Request.threshold?).getLast?.getD c.threshold
    handlers := if rs.any Request.found then 1 else c.handlers } := by
  induction rs using List.reverseRecOn with
  | nil => rfl
  | append_singleton rs r ih =>
    rw [after_concat, fst_call, ih]
    cases hf : r.found <;> cases ht : r.threshold? <;> simp [hf, ht]

def lastSet (c : Config) (rs : List Request) : Config :=
  match (rs.filter fun r => (c.call r).2.isOk).getLast? with
  | none => c
  | some r => (c.call r).1

theorem lastSet_concat (c : Config) (rs : List Request) (r : Request) :
    c.lastSet (rs ++ [r]) = if (c.call r).2.isOk then (c.call r).1 else c.lastSet rs := by
  cases hr : (c.call r).2.isOk <;> simp [lastSet, List.filter_append, hr]

theorem after_eq_lastSet (h : ∀ r ∈ rs, ¬Misleading r.level) : c.after rs = c.lastSet rs := by
  induction rs using List.reverseRecOn with
  | nil => rfl
  | append_singleton rs r ih =>
    have ih := ih fun x hx => h x (by simp [hx])
    rw [after_concat, lastSet_concat, isOk_call]
    obtain ⟨n, ht, hf, -, -⟩ | ⟨ht, hf, -, -⟩ | ⟨-, -, hmis, -⟩ := call_cases c r
    · -- Whatever was set before is set anew.
      rw [fst_call, fst_call, after_eq]
      simp [ht, hf]
    · simp [fst_call, ht, hf, ih]
    · exact absurd hmis (h r (by simp))

/-- Calls, whether they return or fail, leave the form and the handlers of the last one that found
what its level names, and the threshold of the last one that found a threshold. A call that fails
changes nothing unless its level misleads it, so calls with levels of a stock leave what the last
one of them that returned has set exactly when no level of the stock is misleading. -/
theorem configured_all_or_nothing (c : Config) (rs : List Request) (levels : List String) :
    c.after rs = { c with
      form := ((rs.filter Request.found).getLast?.map Request.form).getD c.form
      threshold := (rs.filterMap Request.threshold?).getLast?.getD c.threshold
      handlers := if rs.any Request.found then 1 else c.handlers } ∧
    (∀ level, (∀ (d : Config) form f, (d.call ⟨form, level⟩).2 = .error f →
      (d.call ⟨form, level⟩).1 = d) ↔ ¬Misleading level) ∧
    ((∀ (d : Config) qs, (∀ r ∈ qs, r.level ∈ levels) → d.after qs = d.lastSet qs) ↔
      ∀ level ∈ levels, ¬Misleading level) := by
  -- A call that is misled puts the console in the place of the other form.
  have hstrays : ∀ level, Misleading level →
      ∃ f, call ⟨.json, 30, 1, []⟩ ⟨.console, level⟩ = (⟨.console, 30, 1, []⟩, .error f) :=
    fun level hmis => call_of_misleading ⟨.json, 30, 1, []⟩ hmis
  refine ⟨after_eq c rs, fun level => ⟨fun hkeeps hmis => ?_, fun hmis d form f hf => ?_⟩,
    fun hall level hlevel hmis => ?_, fun hclear d qs hqs => ?_⟩
  · obtain ⟨f, hf⟩ := hstrays level hmis
    have hkept := hkeeps ⟨.json, 30, 1, []⟩ .console f (by rw [hf])
    rw [hf] at hkept
    cases hkept
  · obtain ⟨n, -, -, -, hc⟩ | ⟨-, -, -, f, hc⟩ | ⟨-, -, hmis', -⟩ := call_cases d ⟨form, level⟩
    · rw [hc] at hf
      cases hf
    · rw [hc]
    · exact absurd hmis' hmis
  · obtain ⟨f, hf⟩ := hstrays level hmis
    have hset := hall ⟨.json, 30, 1, []⟩ [⟨.console, level⟩] (by simpa using hlevel)
    simp [after, lastSet, hf, Except.isOk, Except.toBool] at hset
  · exact after_eq_lastSet fun r hr => hclear r.level (hqs r hr)

/-- The layout of plain records has a name like a threshold. The call for it fails, and leaves the
console behind where the call before had asked for the other form. -/
theorem configured_half :
    let c : Config := ⟨.json, 30, 1, []⟩
    let rs : List Request := [⟨.json, "ERROR"⟩, ⟨.console, "basic_format"⟩]
    (c.after [⟨.json, "ERROR"⟩]).call ⟨.console, "basic_format"⟩ = (⟨.console, 40, 1, []⟩,
        .error (.levelText "%(levelname)s:%(name)s:%(message)s")) ∧
      c.lastSet rs = ⟨.json, 40, 1, []⟩ ∧ c.after rs ≠ c.lastSet rs := by
  refine ⟨rfl, rfl, fun h => ?_⟩
  have hform : Form.console = Form.json := congrArg Config.form h
  cases hform

end Config

end Pipeline.Log
