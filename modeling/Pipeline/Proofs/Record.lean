import Pipeline.Planner
import Pipeline.Proofs.Item

namespace Pipeline

namespace Fields

variable {f g : Fields} {k l : String} {v : Value}

def Keyed (f : Fields) : Prop := (f.map (·.1)).Nodup

theorem mem_keys_put : l ∈ (f.put k v).map (·.1) ↔ l = k ∨ l ∈ f.map (·.1) := by
  induction f with
  | nil => simp [put]
  | cons e f ih =>
    rw [put]
    split
    · rename_i he
      simp [he]
    · rw [List.map_cons, List.mem_cons, ih, List.map_cons, List.mem_cons, or_left_comm]

theorem Keyed.put (h : Keyed f) (k : String) (v : Value) : Keyed (f.put k v) := by
  induction f with
  | nil => simp [Keyed, Fields.put]
  | cons e f ih =>
    obtain ⟨he, hf⟩ := List.nodup_cons.1 h
    rw [Fields.put]
    split
    · rename_i hk
      exact List.nodup_cons.2 ⟨hk ▸ he, hf⟩
    · rename_i hk
      refine List.nodup_cons.2 ⟨fun hmem => ?_, ih hf⟩
      exact (mem_keys_put.1 hmem).elim hk he

theorem Keyed.putNew (h : Keyed f) (k : String) (v : Value) : Keyed (f.putNew k v) := by
  unfold Fields.putNew
  split
  · exact h
  · exact h.put k v

theorem Keyed.fill (h : Keyed f) (g : Fields) : Keyed (f.fill g) := by
  induction g generalizing f with
  | nil => exact h
  | cons e g ih => exact ih (h.putNew e.1 e.2)

theorem Keyed.erase (h : Keyed f) (k : String) : Keyed (f.erase k) :=
  h.sublist (List.filter_sublist.map _)

theorem Keyed.get?_eq_some_iff (h : Keyed f) : f.get? k = some v ↔ (k, v) ∈ f := by
  induction f with
  | nil => simp [get?]
  | cons e f ih =>
    obtain ⟨he, hf⟩ := List.nodup_cons.1 h
    rw [get?, List.mem_cons]
    split
    · rename_i hk
      subst hk
      have hnot : (e.1, v) ∉ f := fun hmem => he (List.mem_map.2 ⟨_, hmem, rfl⟩)
      simp [hnot, Prod.ext_iff, eq_comm]
    · rename_i hk
      have hne : (k, v) ≠ e := fun hkv => hk (hkv ▸ rfl)
      simp [ih hf, hne]

theorem get?_eq_none_iff : f.get? k = none ↔ k ∉ f.map (·.1) := by
  induction f with
  | nil => simp [get?]
  | cons e f ih =>
    rw [get?, List.map_cons, List.mem_cons, not_or]
    split
    · rename_i hk
      simp [hk]
    · rename_i hk
      rw [ih]
      exact (and_iff_right (Ne.symm hk)).symm

theorem get?_fill (f g : Fields) (k : String) : (f.fill g).get? k = (f.get? k).or (g.get? k) := by
  induction g generalizing f with
  | nil => simp [fill, get?]
  | cons e g ih =>
    have hstep : (f.fill (e :: g)).get? k = ((f.putNew e.1 e.2).fill g).get? k := rfl
    rw [hstep, ih, get?_putNew, get?]
    split
    · rename_i hk
      rw [hk]
      cases f.get? k <;> rfl
    · rfl

end Fields

namespace Log

open Fields

variable {f r start context : Fields} {k logger event time : String} {v : Value}
  {severity : Severity} {own : List String}

/-- A value that a record shows, sets in order. -/
def Shows (v : Value) : Prop := ∃ w, sortedSet v = .ok w

theorem shows_text (s : String) : Shows (.text s) := ⟨.text s, rfl⟩

/-- The event takes a value for its arguments. -/
def Takes (event : String) (v : Value) : Prop :=
  ∃ a text, argumentsOf v = .ok a ∧ Template.fill event a = .ok text

/-- A context that keeps no record of an event from being made. A name of the record's own hides
what the context has under it. -/
structure Clear (own : List String) (event : String) (context : Fields) : Prop where
  record : ∀ v, context.get? recordKey = some v → v = .null
  arguments : ∀ v, context.get? argumentsKey = some v → v.truthy = true → Takes event v
  sets : ∀ k v, context.get? k = some v → k ∉ own → k ≠ argumentsKey → Shows v

theorem exists_mapM_iff {α β ε : Type} {f : α → Except ε β} {xs : List α} :
    (∃ ys, xs.mapM f = .ok ys) ↔ ∀ x ∈ xs, ∃ y, f x = .ok y := by
  simp only [Connection.mapM_eq_ok_iff]
  induction xs with
  | nil => simp
  | cons x xs ih =>
    simp only [List.forall_mem_cons, ← ih, List.forall₂_cons_left_iff]
    constructor
    · rintro ⟨-, y, ys, hy, hys, -⟩
      exact ⟨⟨y, hy⟩, ys, hys⟩
    · rintro ⟨⟨y, hy⟩, ys, hys⟩
      exact ⟨_, y, ys, hy, hys, rfl⟩

theorem exists_sortSets_iff (hf : Keyed f) :
    (∃ r, sortSets f = .ok r) ↔ ∀ k v, f.get? k = some v → Shows v := by
  have hentry : ∀ e : String × Value, (∃ y, (do
      return (e.1, ← (sortedSet e.2).mapError Fault.misuse) : Except Fault _) = .ok y) ↔
        Shows e.2 := by
    intro e
    unfold Shows
    cases sortedSet e.2 <;> simp [Except.mapError, bind, Except.bind, pure, Except.pure]
  unfold sortSets
  simp only [exists_mapM_iff, hentry, hf.get?_eq_some_iff]
  exact ⟨fun h k v hkv => h (k, v) hkv, fun h e he => h e.1 e.2 he⟩

theorem fillEvent_eq_ok_iff (hev : f.get? "event" = some (.text event)) :
    fillEvent f = .ok r ↔
      ((f.get? argumentsKey = none ∨ f.get? argumentsKey = some .null) ∧ r = f) ∨
        ∃ v, f.get? argumentsKey = some v ∧ v ≠ .null ∧
          ((v.truthy = false ∧ r = f.erase argumentsKey) ∨
            v.truthy = true ∧ ∃ a text, argumentsOf v = .ok a ∧ Template.fill event a = .ok text ∧
              r = (f.put "event" (.text text)).erase argumentsKey) := by
  have hdrop : ∀ {x : Fields}, Except.ok (ε := Fault) x = .ok r ↔ r = x := by
    intro x
    rw [Except.ok.injEq, eq_comm]
  unfold fillEvent
  split
  · rename_i hv
    simp [hv, hdrop]
  · rename_i hv
    simp [hv, hdrop]
  · rename_i v hnull hv
    have hne : v ≠ .null := fun he => hnull (he ▸ rfl)
    simp only [hv, hev, Value.plain]
    cases htruthy : v.truthy with
    | false => simp [hne, pure, Except.pure, hdrop, htruthy]
    | true =>
      cases ha : argumentsOf v with
      | error e => simp [hne, bind, Except.bind, ha, htruthy]
      | ok a =>
        cases ht : Template.fill event a <;>
          simp [hne, bind, Except.bind, pure, Except.pure, Except.mapError, ha, ht, hdrop, htruthy]

theorem exists_fillEvent_iff (hev : f.get? "event" = some (.text event)) :
    (∃ r, fillEvent f = .ok r) ↔
      ∀ v, f.get? argumentsKey = some v → v.truthy = true → Takes event v := by
  simp only [fillEvent_eq_ok_iff hev]
  constructor
  · rintro ⟨r, ⟨hnone | hnull, -⟩ | ⟨w, hw, -, hcase⟩⟩ v hv htruthy
    · rw [hnone] at hv
      cases hv
    · rw [hnull, Option.some.injEq] at hv
      subst hv
      cases htruthy
    · rw [hw, Option.some.injEq] at hv
      subst hv
      obtain ⟨hfalse, -⟩ | ⟨-, a, text, ha, htext, -⟩ := hcase
      · rw [hfalse] at htruthy
        cases htruthy
      · exact ⟨a, text, ha, htext⟩
  · intro htakes
    cases hv : f.get? argumentsKey with
    | none => exact ⟨f, .inl ⟨.inl rfl, rfl⟩⟩
    | some v =>
      by_cases hnull : v = .null
      · exact ⟨f, .inl ⟨.inr (by rw [hnull]), rfl⟩⟩
      cases htruthy : v.truthy with
      | false => exact ⟨_, .inr ⟨v, rfl, hnull, .inl ⟨htruthy, rfl⟩⟩⟩
      | true =>
        obtain ⟨a, text, ha, htext⟩ := htakes v hv htruthy
        exact ⟨_, .inr ⟨v, rfl, hnull, .inr ⟨htruthy, a, text, ha, htext, rfl⟩⟩⟩

theorem get?_of_fillEvent (hev : f.get? "event" = some (.text event)) (hf : Keyed f)
    (h : fillEvent f = .ok r) :
    Keyed r ∧ (∀ k, k ≠ argumentsKey → k ≠ "event" → r.get? k = f.get? k) ∧
      (∃ text, r.get? "event" = some (.text text)) ∧
      ∀ v, r.get? argumentsKey = some v → v = .null := by
  have hne : argumentsKey ≠ "event" := by decide
  obtain ⟨harg, rfl⟩ | ⟨-, -, -, ⟨-, rfl⟩ | ⟨-, -, text, -, -, rfl⟩⟩ :=
    (fillEvent_eq_ok_iff hev).1 h
  · refine ⟨hf, fun _ _ _ => rfl, ⟨event, hev⟩, fun v hv => ?_⟩
    obtain hnone | hnull := harg
    · rw [hnone] at hv
      cases hv
    · rw [hnull, Option.some.injEq] at hv
      exact hv.symm
  · refine ⟨hf.erase _, fun k hk _ => ?_, ⟨event, ?_⟩, fun v hv => ?_⟩
    · rw [get?_erase, if_neg (Ne.symm hk)]
    · rw [get?_erase, if_neg hne, hev]
    · rw [get?_erase, if_pos rfl] at hv
      cases hv
  · refine ⟨(hf.put _ _).erase _, fun k hk hke => ?_, ⟨text, ?_⟩, fun v hv => ?_⟩
    · rw [get?_erase, if_neg (Ne.symm hk), get?_put, if_neg (Ne.symm hke)]
    · rw [get?_erase, if_neg hne, get?_put, if_pos rfl]
    · rw [get?_erase, if_pos rfl] at hv
      cases hv

def stampKeys : List String := ["logger", "level", "timestamp"]

theorem get?_stamp_of_not_mem (hk : k ∉ stampKeys) :
    (stamp f logger severity time).get? k = f.get? k := by
  simp only [stampKeys, List.mem_cons, List.not_mem_nil, or_false, not_or] at hk
  obtain ⟨hlogger, hlevel, htime⟩ := hk
  unfold stamp
  rw [get?_put, if_neg (Ne.symm htime), get?_put, if_neg (Ne.symm hlevel), get?_put,
    if_neg (Ne.symm hlogger)]

theorem shows_of_get?_stamp (hk : k ∈ stampKeys)
    (hv : (stamp f logger severity time).get? k = some v) : Shows v := by
  have hkey : "logger" = k ∨ "level" = k ∨ "timestamp" = k := by
    simpa [stampKeys, eq_comm] using hk
  unfold stamp at hv
  simp only [get?_put] at hv
  split at hv
  · cases hv
    exact shows_text _
  rename_i htime
  split at hv
  · cases hv
    exact shows_text _
  rename_i hlevel
  rw [if_pos ((hkey.resolve_right (not_or.2 ⟨hlevel, htime⟩)))] at hv
  cases hv
  exact shows_text _

theorem keyed_stamp (hf : Keyed f) : Keyed (stamp f logger severity time) :=
  ((hf.put _ _).put _ _).put _ _

theorem checkRecord_eq_ok_iff :
    checkRecord f = .ok () ↔ ∀ v, f.get? recordKey = some v → v = .null := by
  unfold checkRecord
  split <;> simp_all

/-- What a record starts with, apart from what it is given by the context. -/
structure Starts (start : Fields) (event : String) : Prop where
  keyed : Keyed start
  event : start.get? "event" = some (.text event)
  record : start.get? recordKey = none
  arguments : start.get? argumentsKey = none
  shows : ∀ k v, start.get? k = some v → Shows v

theorem finish_eq_ok_iff :
    finish start context logger severity time = .ok r ↔
      checkRecord (start.fill context) = .ok () ∧
        ∃ f, fillEvent (stamp (start.fill context) logger severity time) = .ok f ∧
          ∃ g, sortSets f = .ok g ∧ r = ((g.erase stackKey).erase recordKey).erase originKey := by
  unfold finish
  dsimp only
  cases checkRecord (start.fill context) with
  | error e => simp [bind, Except.bind]
  | ok =>
    cases fillEvent (stamp (start.fill context) logger severity time) with
    | error e => simp [bind, Except.bind]
    | ok f => cases hg : sortSets f <;> simp [bind, Except.bind, pure, Except.pure, hg, eq_comm]

theorem get?_stamp_fill (hk : k ∉ stampKeys) :
    (stamp (start.fill context) logger severity time).get? k =
      (start.get? k).or (context.get? k) :=
  (get?_stamp_of_not_mem hk).trans (get?_fill start context k)

section

variable (hs : Starts start event)

include hs

theorem Starts.get?_event :
    (stamp (start.fill context) logger severity time).get? "event" = some (.text event) := by
  rw [get?_stamp_fill (by decide), hs.event]
  rfl

theorem Starts.checkRecord_iff :
    checkRecord (start.fill context) = .ok () ↔
      ∀ v, context.get? recordKey = some v → v = .null := by
  rw [checkRecord_eq_ok_iff, get?_fill, hs.record]
  rfl

theorem Starts.fillEvent_iff :
    (∃ r, fillEvent (stamp (start.fill context) logger severity time) = .ok r) ↔
      ∀ v, context.get? argumentsKey = some v → v.truthy = true → Takes event v := by
  rw [exists_fillEvent_iff hs.get?_event, get?_stamp_fill (by decide), hs.arguments]
  rfl

theorem Starts.not_own (hk : k ∉ start.map (·.1) ++ stampKeys) :
    k ∉ stampKeys ∧ start.get? k = none ∧ k ≠ "event" := by
  rw [List.mem_append, not_or] at hk
  have hnone := get?_eq_none_iff.2 hk.1
  refine ⟨hk.2, hnone, ?_⟩
  rintro rfl
  rw [hs.event] at hnone
  cases hnone

theorem Starts.sortSets_iff
    (h : fillEvent (stamp (start.fill context) logger severity time) = .ok f) :
    (∃ r, sortSets f = .ok r) ↔ ∀ k v, context.get? k = some v →
      k ∉ start.map (·.1) ++ stampKeys → k ≠ argumentsKey → Shows v := by
  obtain ⟨hkeyed, hkeep, ⟨text, htext⟩, hgone⟩ :=
    get?_of_fillEvent hs.get?_event (keyed_stamp (hs.keyed.fill context)) h
  rw [exists_sortSets_iff hkeyed]
  constructor
  · intro hshows k v hv hk harg
    obtain ⟨hstamp, hnone, hevent⟩ := hs.not_own hk
    apply hshows k
    rw [hkeep k harg hevent, get?_stamp_fill hstamp, hnone]
    exact hv
  · intro hsets k v hv
    -- A field of the context comes into the record only where nothing else has its name.
    by_cases harg : k = argumentsKey
    · subst harg
      rw [hgone v hv]
      exact ⟨.null, rfl⟩
    by_cases hevent : k = "event"
    · rw [hevent, htext, Option.some.injEq] at hv
      exact hv ▸ shows_text text
    rw [hkeep k harg hevent] at hv
    by_cases hstamp : k ∈ stampKeys
    · exact shows_of_get?_stamp hstamp hv
    rw [get?_stamp_fill hstamp] at hv
    cases hk : start.get? k with
    | some w =>
      rw [hk, Option.some_or] at hv
      exact hs.shows k v (hk.trans hv)
    | none =>
      rw [hk, Option.none_or] at hv
      refine hsets k v hv ?_ harg
      rw [List.mem_append, not_or]
      exact ⟨get?_eq_none_iff.1 hk, hstamp⟩

/-- Whether a record comes about depends on the context alone. -/
theorem exists_finish_iff :
    (∃ r, finish start context logger severity time = .ok r) ↔
      Clear (start.map (·.1) ++ stampKeys) event context := by
  simp only [finish_eq_ok_iff, hs.checkRecord_iff]
  constructor
  · rintro ⟨r, hrecord, f, hf, g, hg, -⟩
    exact ⟨hrecord, hs.fillEvent_iff.1 ⟨f, hf⟩, (hs.sortSets_iff hf).1 ⟨g, hg⟩⟩
  · intro hc
    obtain ⟨f, hf⟩ := hs.fillEvent_iff.2 hc.arguments
    obtain ⟨g, hg⟩ := (hs.sortSets_iff hf).2 hc.sets
    exact ⟨_, hc.record, f, hf, g, hg, rfl⟩

end

end Log

namespace Planner

open Log

variable {c : Log.Config} {time event : String} {fields : Fields}

theorem note_cases (c : Log.Config) (time event : String) (fields : Fields) :
    (note c time event fields).result = .ok () ∨
      ∃ f, (note c time event fields).result = .error (.log f) := by
  unfold note
  cases c.log ⟨loggerName, .debug, "debug", event, [], [], fields⟩ time with
  | ok line => exact .inl rfl
  | error f => exact .inr ⟨f, rfl⟩

theorem note_eq_ok_iff :
    (note c time event fields).result = .ok () ↔
      ∃ r, (Call.mk loggerName .debug "debug" event [] [] fields).record c.context time =
        .ok r := by
  unfold note Config.log
  cases (Call.mk loggerName .debug "debug" event [] [] fields).record c.context time <;>
    simp [bind, Except.bind, pure, Except.pure, Answer.failed]

end Planner

end Pipeline
