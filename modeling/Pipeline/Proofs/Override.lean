import Mathlib
import Pipeline.Proofs.Spelling

namespace Pipeline.Settings

open Names

variable {file : Option String} {vars : List (String × String)} {f g : Fields} {x : String}

/-- What is set for a field: by a variable, else in the file. -/
def winner (f g : Fields) (x : String) : Option Value :=
  (g.last? (spelled · = x)).or (f.last? (spelled · = x))

def Holds (file : Option String) (f : Fields) : Prop :=
  match file with
  | none => f = []
  | some s => ∃ v, Yaml.read s = .ok v ∧ entriesOf v = .ok f

/-- The faults of what is set for a field. -/
def faultsOf (x : String) (v : Option Value) : List Fault :=
  if x = "tie_break" then faultOf (checked tieBreakOf standard.tieBreak v)
  else if x = "log_level" then faultOf (checked logLevelOf standard.logLevel v)
  else if x = "json_logs" then faultOf (checked jsonLogsOf standard.jsonLogs v)
  else []

theorem faultOf_checked {α : Type} {check : Value → Except Fault α} {fallback : α}
    (hcheck : ∀ v fault, check v = .error fault → fault.field = x) (v : Option Value) :
    (faultOf (checked check fallback v)).map Fault.field =
      if faultOf (checked check fallback v) = [] then [] else [x] := by
  cases v with
  | none => rfl
  | some v =>
    rw [checked]
    cases h : check v with
    | ok a => rfl
    | error fault => simp [faultOf, hcheck v fault h]

theorem field_of_tieBreakNamed {s : String} {fault : Fault} (h : tieBreakNamed s = .error fault) :
    fault.field = "tie_break" := by
  unfold tieBreakNamed at h
  split at h <;> cases h
  rfl

theorem field_of_tieBreakOf (v : Value) (fault : Fault) (h : tieBreakOf v = .error fault) :
    fault.field = "tie_break" := by
  unfold tieBreakOf at h
  split at h
  · exact field_of_tieBreakNamed h
  · split at h
    · exact field_of_tieBreakNamed h
    · cases h
      rfl
  · cases h
    rfl
  · cases h
    rfl

theorem field_of_logLevelOf (v : Value) (fault : Fault) (h : logLevelOf v = .error fault) :
    fault.field = "log_level" := by
  unfold logLevelOf at h
  split at h
  · split at h <;> cases h
    rfl
  · cases h
    rfl
  · cases h
    rfl

theorem field_of_wordOf {s : String} {fault : Fault} (h : wordOf s = .error fault) :
    fault.field = "json_logs" := by
  unfold wordOf at h
  split at h
  · cases h
  · split at h <;> cases h
    rfl

theorem field_of_number {p q : Prop} [Decidable p] [Decidable q] {wordLike : Bool} {fault : Fault}
    (h : (if p then .ok false else if q then .ok true
      else .error (if wordLike then .boolText else .boolKind) : Except Fault Bool) = .error fault) :
    fault.field = "json_logs" := by
  split at h
  · cases h
  · split at h
    · cases h
    · cases h
      split <;> rfl

theorem field_of_jsonLogsOf (v : Value) (fault : Fault) (h : jsonLogsOf v = .error fault) :
    fault.field = "json_logs" := by
  unfold jsonLogsOf at h
  split at h
  · cases h
  · exact field_of_number h
  · exact field_of_number h
  · exact field_of_wordOf h
  · split at h
    · exact field_of_wordOf h
    · cases h
      rfl
  · cases h
    rfl
  · cases h
    rfl

theorem map_field_faultsOf (x : String) (v : Option Value) :
    (faultsOf x v).map Fault.field = if faultsOf x v = [] then [] else [x] := by
  rw [faultsOf]
  obtain rfl | ht := eq_or_ne x "tie_break"
  · rw [if_pos rfl]
    exact faultOf_checked field_of_tieBreakOf v
  rw [if_neg ht]
  obtain rfl | hl := eq_or_ne x "log_level"
  · rw [if_pos rfl]
    exact faultOf_checked field_of_logLevelOf v
  rw [if_neg hl]
  obtain rfl | hj := eq_or_ne x "json_logs"
  · rw [if_pos rfl]
    exact faultOf_checked field_of_jsonLogsOf v
  · rw [if_neg hj]
    rfl

theorem map_field_flatMap (xs : List String) (w : String → Option Value) :
    (xs.flatMap fun x => faultsOf x (w x)).map Fault.field =
      xs.filter fun x => faultsOf x (w x) ≠ [] := by
  induction xs with
  | nil => rfl
  | cons x xs ih =>
    rw [List.flatMap_cons, List.map_append, ih, map_field_faultsOf, List.filter_cons]
    by_cases h : faultsOf x (w x) = [] <;> simp [h]

theorem ofFields_eq_ok_iff {s : Settings} :
    ofFields f = .ok s ↔
      checked tieBreakOf standard.tieBreak (f.get? "tie_break") = .ok s.tieBreak ∧
      checked logLevelOf standard.logLevel (f.get? "log_level") = .ok s.logLevel ∧
      checked jsonLogsOf standard.jsonLogs (f.get? "json_logs") = .ok s.jsonLogs := by
  dsimp only [ofFields]
  split
  · rename_i t l j ht hl hj
    obtain ⟨t', l', j'⟩ := s
    simp [ht, hl, hj]
  · rename_i hnot
    refine iff_of_false (fun h => nomatch h) ?_
    rintro ⟨ht, hl, hj⟩
    exact hnot _ _ _ ht hl hj

theorem ofFields_eq_ok_or (f : Fields) :
    (∃ s, ofFields f = .ok s) ∨
      ofFields f = .error (names.flatMap fun x => faultsOf x (f.get? x)) := by
  dsimp only [ofFields]
  split
  · exact .inl ⟨_, rfl⟩
  · right
    simp [names, faultsOf]

theorem load_eq (hfile : Holds file f) (hvars : readVariables vars = .ok g) :
    load file vars =
      (ofFields (fields (setAll true (Names.ofFile f) g))).mapError .invalid := by
  unfold load
  rw [hvars]
  cases file with
  | none =>
    obtain rfl : f = [] := hfile
    rfl
  | some s =>
    obtain ⟨v, hread, hentries⟩ := hfile
    have hof : readFile s = .ok (Names.ofFile f) := by
      rw [readFile, hread]
      show (entriesOf v >>= _) = _
      rw [hentries]
      rfl
    dsimp only
    rw [hof]
    rfl

theorem ofFields_congr (h : ∀ x ∈ names, f.get? x = g.get? x) : ofFields f = ofFields g := by
  unfold ofFields
  rw [h "tie_break" (by simp [names]), h "log_level" (by simp [names]),
    h "json_logs" (by simp [names])]

/-- Each field is decided by its own winner. Loading gives the settings that pass all checks, or
else the faults of the fields whose winners do not pass, in the order of the fields. Another file
and other variables load alike if the variables say the same of each field, and the file does of
those that no variable sets: names of no field and hidden values mean nothing. -/
theorem load_by_field (hfile : Holds file f) (hvars : readVariables vars = .ok g)
    (hf : Plain f) (hg : Plain g) :
    (∀ s, load file vars = .ok s ↔
      checked tieBreakOf standard.tieBreak (winner f g "tie_break") = .ok s.tieBreak ∧
      checked logLevelOf standard.logLevel (winner f g "log_level") = .ok s.logLevel ∧
      checked jsonLogsOf standard.jsonLogs (winner f g "json_logs") = .ok s.jsonLogs) ∧
    ((∃ s, load file vars = .ok s) ∨ ∃ faults, load file vars = .error (.invalid faults) ∧
      faults = names.flatMap (fun x => faultsOf x (winner f g x)) ∧
      faults.map Fault.field = names.filter fun x => faultsOf x (winner f g x) ≠ []) ∧
    ∀ file' vars' f' g', Holds file' f' → readVariables vars' = .ok g' → Plain f' → Plain g' →
      (∀ x ∈ names, g'.last? (spelled · = x) = g.last? (spelled · = x) ∧
        (g.last? (spelled · = x) = none →
          f'.last? (spelled · = x) = f.last? (spelled · = x))) →
      load file' vars' = load file vars := by
  have hwinner : ∀ x ∈ names,
      (fields (setAll true (Names.ofFile f) g)).get? x = winner f g x :=
    fun x hx => get?_fields_setAll hf hg hx
  have htie := hwinner "tie_break" (by simp [names])
  have hlevel := hwinner "log_level" (by simp [names])
  have hjson := hwinner "json_logs" (by simp [names])
  have hload := load_eq hfile hvars
  refine ⟨fun s => ?_, ?_, ?_⟩
  · rw [hload, Connection.mapError_eq_ok_iff, ofFields_eq_ok_iff, htie, hlevel, hjson]
  · obtain ⟨s, hs⟩ | herr := ofFields_eq_ok_or (fields (setAll true (Names.ofFile f) g))
    · exact .inl ⟨s, by rw [hload, hs]; rfl⟩
    · have hfaults : (names.flatMap fun x => faultsOf x
          ((fields (setAll true (Names.ofFile f) g)).get? x)) =
          names.flatMap fun x => faultsOf x (winner f g x) :=
        List.flatMap_congr fun x hx => by rw [hwinner x hx]
      refine .inr ⟨_, ?_, rfl, map_field_flatMap _ _⟩
      rw [hload, herr, hfaults]
      rfl
  · intro file' vars' f' g' hfile' hvars' hf' hg' hsame
    rw [hload, load_eq hfile' hvars']
    congr 1
    apply ofFields_congr
    intro x hx
    rw [hwinner x hx, get?_fields_setAll hf' hg' hx, winner]
    obtain ⟨hgiven, hheld⟩ := hsame x hx
    rw [hgiven]
    cases hlast : g.last? (spelled · = x) with
    | none => rw [hheld hlast]
    | some v => rfl

/-- A variable hides a number that the file has for the tie-break. What is left is the fault of the
other variable, as it is without the file. -/
theorem load_by_field_hidden :
    let vars := [("tie_break", "insertion"), ("LOG_LEVEL", "loud")]
    load (some "Tie_Break: 7") vars = .error (.invalid [.logLevel]) ∧
      load none vars = load (some "Tie_Break: 7") vars := by
  let f : Fields := [("Tie_Break", .int 7)]
  let g : Fields := [("tie_break", .text "insertion"), ("LOG_LEVEL", .text "loud")]
  have hfile : Holds (some "Tie_Break: 7") f := ⟨.dict f, by cbv, rfl⟩
  have hvars : readVariables [("tie_break", "insertion"), ("LOG_LEVEL", "loud")] = .ok g := by cbv
  have hf : Plain f := ⟨by decide +kernel, by decide +kernel⟩
  have hg : Plain g := ⟨by decide +kernel, by decide +kernel⟩
  obtain ⟨hok, hor, hsame⟩ := load_by_field hfile hvars hf hg
  refine ⟨?_, hsame none _ [] g rfl hvars ⟨by simp, by simp⟩ hg ?_⟩
  · have hlevel : checked logLevelOf standard.logLevel (winner f g "log_level") =
        .error .logLevel := by decide +kernel
    have hfaults : names.flatMap (fun x => faultsOf x (winner f g x)) = [.logLevel] := by
      decide +kernel
    obtain ⟨s, hs⟩ | ⟨faults, herr, hall, -⟩ := hor
    · have hpass := ((hok s).1 hs).2.1
      cases hlevel.symm.trans hpass
    · rw [herr, hall, hfaults]
  · have hwon : ∀ x ∈ names,
        (g.last? (spelled · = x)).isSome ∨ (f.last? (spelled · = x)).isNone := by decide +kernel
    refine fun x hx => ⟨rfl, fun hnone => ?_⟩
    have hf := hwon x hx
    rw [hnone, Option.isSome_none, Bool.false_eq_true, false_or, Option.isNone_iff_eq_none] at hf
    exact hf.symm

end Pipeline.Settings
