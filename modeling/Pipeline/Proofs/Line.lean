import Mathlib
import Pipeline.Log.Config
import Pipeline.Proofs.Reading
import Pipeline.Proofs.Contents

namespace Pipeline.Log

open Fields

variable {r context bound fields : Fields} {k logger event text time line : String}
  {severity : Severity} {arguments : List Value} {source : String → Option Value} {call : Call}

/-- The names by which records are asked for, apart from the one that asks for what was raised. -/
def methods : List String := ["debug", "info", "warning", "warn", "error", "critical", "fatal"]

/-- The names under which the parts of a record wait for each other. -/
def waitingKeys : List String := raisedKey :: argumentsKey :: droppedKeys

/-- What stands under a name: in the fields of a call, else in those bound, else in the context. -/
def said (bound fields context : Fields) (k : String) : Option Value :=
  ((fields.get? k).or (bound.get? k)).or (context.get? k)

/-- A document for a value, sets as ascending lists. -/
def Writes (v : Value) (d : Json.Doc) : Prop := ∃ w, Shown v w ∧ Json.Doc.ofValue? w = some d

/-- Whether there is a document for a value: for a set one for each member. -/
def Writable (v : Value) : Prop :=
  match v with
  | .set items | .frozenSet items => ∀ m ∈ items, ∃ d, Json.Doc.ofValue? m = some d
  | v => ∃ d, Json.Doc.ofValue? v = some d

/-- Whether a record can be written: there is a document for whatever a source has. -/
def Written (source : String → Option Value) : Prop :=
  ∀ k ∉ ownKeys, ∀ v, source k = some v → Writable v

/-- A text that is one line and one JSON object without a name that stands twice: with members of
its own, and under all other names what a source has for them. -/
structure IsLine (line logger text time : String) (severity : Severity)
    (source : String → Option Value) : Prop where
  visible : line.toList.all Json.isVisible = true
  object : ∃ members, Json.read? line = some (.object members) ∧ (members.map (·.1)).Nodup ∧
    members.lookup "event" = some (.text text) ∧
    members.lookup "logger" = some (.text (loggerName logger)) ∧
    members.lookup "level" = some (.text severity.label) ∧
    members.lookup "timestamp" = some (.text time) ∧
    ∀ k ∉ ownKeys, Option.Rel Writes (source k) (members.lookup k)

theorem exists_ofValue?_iff {v w : Value} (h : Shown v w) :
    (∃ d, Json.Doc.ofValue? w = some d) ↔ Writable v := by
  have hset : ∀ {items l : List Value}, l.Perm items →
      ((∃ d, Json.Doc.ofValue? (.list l) = some d) ↔
        ∀ m ∈ items, ∃ d, Json.Doc.ofValue? m = some d) := by
    intro items l hperm
    simp only [Json.Doc.ofValue?, Option.map_eq_some_iff, ← hperm.mem_iff]
    rw [← Json.exists_ofValues?_iff]
    exact ⟨fun ⟨d, ds, hds, _⟩ => ⟨ds, hds⟩, fun ⟨ds, hds⟩ => ⟨_, ds, hds, rfl⟩⟩
  cases v with
  | set items =>
    obtain ⟨l, rfl, hperm, -⟩ := h
    exact hset hperm
  | frozenSet items =>
    obtain ⟨l, rfl, hperm, -⟩ := h
    exact hset hperm
  | _ =>
    cases h
    exact Iff.rfl

theorem Contents.get?_erase_raised (h : Contents r logger text time severity source)
    (hraised : source raisedKey = none) (k : String) : (r.erase raisedKey).get? k = r.get? k := by
  rw [get?_erase]
  split
  · rename_i hk
    have hnone := h.others raisedKey (by decide)
    rw [hraised] at hnone
    rw [← hk]
    cases hr : r.get? raisedKey with
    | none => rfl
    | some v =>
      rw [hr] at hnone
      cases hnone
  · rfl

theorem Contents.exists_text (h : Contents r logger text time severity source)
    (hk : k ∈ ownKeys) : ∃ s, r.get? k = some (.text s) := by
  simp only [ownKeys, stampKeys, List.mem_cons, List.not_mem_nil, or_false] at hk
  obtain rfl | rfl | rfl | rfl := hk
  · exact ⟨_, h.event⟩
  · exact ⟨_, h.logger⟩
  · exact ⟨_, h.level⟩
  · exact ⟨_, h.timestamp⟩

theorem Contents.exists_line?_iff_forall (h : Contents r logger text time severity source)
    (hraised : source raisedKey = none) :
    (∃ line, Json.line? (r.erase raisedKey) = some line) ↔
      ∀ k v, r.get? k = some v → ∃ d, Json.Doc.ofValue? v = some d := by
  have hkeyed := h.keyed.erase raisedKey
  have hmem : ∀ e : String × Value, e ∈ r.erase raisedKey ↔ r.get? e.1 = some e.2 := fun e => by
    rw [← h.get?_erase_raised hraised, hkeyed.get?_eq_some_iff]
  simp only [Json.line?, Option.map_eq_some_iff]
  rw [exists_comm]
  simp only [exists_and_left, exists_eq', and_true, Json.exists_ofEntries?_iff, hmem]
  exact ⟨fun hall k v hv => hall (k, v) hv, fun hall e he => hall e.1 e.2 he⟩

theorem Contents.forall_writable_iff (h : Contents r logger text time severity source)
    (hk : k ∉ ownKeys) :
    (∀ w, r.get? k = some w → ∃ d, Json.Doc.ofValue? w = some d) ↔
      ∀ v, source k = some v → Writable v := by
  have hrel := h.others k hk
  cases hs : source k <;> cases hr : r.get? k <;> rw [hs, hr] at hrel <;> cases hrel
  · simp
  · rename_i hshown
    simp [exists_ofValue?_iff hshown]

/-- The fields of a record that are its own are texts, so they never keep it from being written. -/
theorem Contents.exists_line?_iff (h : Contents r logger text time severity source)
    (hraised : source raisedKey = none) :
    (∃ line, Json.line? (r.erase raisedKey) = some line) ↔ Written source := by
  rw [h.exists_line?_iff_forall hraised]
  constructor
  · exact fun hall k hk => (h.forall_writable_iff hk).1 (hall k)
  · intro hall k
    by_cases hk : k ∈ ownKeys
    · obtain ⟨s, hs⟩ := h.exists_text hk
      intro w hw
      rw [hs] at hw
      cases hw
      exact ⟨_, rfl⟩
    · exact (h.forall_writable_iff hk).2 (hall k hk)

theorem Contents.isLine (h : Contents r logger text time severity source)
    (hraised : source raisedKey = none) (hline : Json.line? (r.erase raisedKey) = some line) :
    IsLine line logger text time severity source := by
  obtain ⟨hvisible, members, hmembers, hread⟩ := Json.read?_of_line? hline
  have hlookup : ∀ k, members.lookup k = (r.get? k).bind Json.Doc.ofValue? := fun k => by
    rw [Json.lookup_of_ofEntries? hmembers, h.get?_erase_raised hraised]
  refine ⟨hvisible, members, hread, ?_, ?_, ?_, ?_, ?_, fun k hk => ?_⟩
  · rw [Json.map_fst_of_ofEntries? hmembers]
    exact h.keyed.erase raisedKey
  · rw [hlookup, h.event]
    rfl
  · rw [hlookup, h.logger]
    rfl
  · rw [hlookup, h.level]
    rfl
  · rw [hlookup, h.timestamp]
    rfl
  · have hwritten := (h.exists_line?_iff hraised).1 ⟨line, hline⟩ k hk
    have hrel := h.others k hk
    rw [hlookup]
    cases hs : source k <;> cases hr : r.get? k <;> rw [hs, hr] at hrel <;> cases hrel
    · exact .none
    · obtain ⟨d, hd⟩ := (exists_ofValue?_iff ‹_›).2 (hwritten _ hs)
      rw [Option.bind_some, hd]
      exact .some ⟨_, ‹_›, hd⟩

theorem ne_event_of_notMem (hk : k ∉ ownKeys) : k ≠ "event" := fun h => hk (h ▸ List.mem_cons_self)

theorem keyed_brings (hbound : Keyed call.bound) : Keyed call.brings := by
  unfold Call.brings
  dsimp only
  split_ifs
  all_goals first
    | exact (hbound.update _).put _ _
    | exact ((hbound.update _).put _ _).put _ _

theorem get?_brings (hasks : call.asksRaised = false) (hfields : Keyed call.fields) (k : String) :
    call.brings.get? k =
      if k = "event" then some (.text call.event)
      else if k = argumentsKey ∧ call.arguments.isEmpty = false then some (.tuple call.arguments)
      else (call.fields.get? k).or (call.bound.get? k) := by
  have hgiven : (call.bound.update call.fields).get? k =
      (call.fields.get? k).or (call.bound.get? k) := by
    rw [get?_update, last?_eq_get? hfields]
  unfold Call.brings
  rw [hasks]
  cases call.arguments.isEmpty <;>
    simp only [get?_put, hgiven, eq_comm (a := k), Bool.false_eq_true, ↓reduceIte, and_true,
      and_false, Bool.true_eq_false]

theorem brings_call (context : Fields) (hasks : call.asksRaised = false) (hbound : Keyed call.bound)
    (hfields : Keyed call.fields)
    (hfree : ∀ k ∈ waitingKeys, said call.bound call.fields context k = none) :
    Brings call.brings context call.event call.arguments (said call.bound call.fields context) where
  keyed := keyed_brings hbound
  event := by rw [get?_brings hasks hfields, if_pos rfl]
  arguments := by
    have hnone := hfree argumentsKey (by decide)
    rw [get?_brings hasks hfields, if_neg (by decide)]
    cases call.arguments.isEmpty with
    | true => exact hnone
    | false => rfl
  others k hk harg := by
    rw [get?_brings hasks hfields, if_neg (ne_event_of_notMem hk), if_neg (fun h => harg h.1), said]
  free k hk := hfree k (List.mem_cons_of_mem _ hk)

theorem brings_plain (text : String) (hfree : ∀ k ∈ waitingKeys, context.get? k = none) :
    Brings [("event", .text text)] ((context.erase recordKey).erase originKey) text []
      context.get? := by
  have hget : ∀ k, ((context.erase recordKey).erase originKey).get? k = context.get? k := by
    intro k
    rw [get?_erase, get?_erase]
    split_ifs with horigin hrecord
    · rw [← horigin, hfree originKey (by decide)]
    · rw [← hrecord, hfree recordKey (by decide)]
    · rfl
  refine ⟨by simp [Keyed], rfl, ?_, fun k hk _ => ?_, fun k hk => ?_⟩
  · rw [hget, hfree argumentsKey (by decide)]
    rfl
  · rw [hget, get?, if_neg (ne_event_of_notMem hk).symm]
    rfl
  · exact hfree k (List.mem_cons_of_mem _ hk)

theorem exists_severity {method : String} (h : method ∈ methods) :
    ∃ severity, Severity.ofCall? method = some severity ∧ (method == "exception") = false := by
  simp only [methods, List.mem_cons, List.not_mem_nil, or_false] at h
  obtain rfl | rfl | rfl | rfl | rfl | rfl | rfl := h <;> exact ⟨_, rfl, rfl⟩

theorem record_eq_ok_iff :
    call.record context time = .ok r ↔ reservedFault? call = none ∧
      finish call.brings context call.logger call.severity time = .ok r := by
  unfold Call.record
  cases reservedFault? call with
  | none => exact (and_iff_right rfl).symm
  | some f => exact iff_of_false nofun nofun

theorem plainRecord_eq_ok_iff (hasks : call.asksRaised = false) :
    call.plainRecord context time = .ok r ↔
      ∃ text, filled call.event call.arguments = .ok text ∧
        finish [("event", .text text)] ((context.erase recordKey).erase originKey) call.logger
          call.severity time = .ok r := by
  rw [← Connection.bind_eq_ok_iff, Call.plainRecord, filled, hasks]
  cases call.arguments.isEmpty with
  | true => rfl
  | false =>
    cases argumentsOf (.tuple call.arguments) with
    | error e => rfl
    | ok v => cases Template.fill call.event v <;> rfl

namespace Config

variable {c c₀ d : Config} {level : Value}

theorem configure_eq_ok {form : Form} (h : c₀.configure form level = (c, .ok ())) :
    ∃ s n, level = .text s ∧ Threshold.ofName? (Text.Case.upper s) = some (.number n) ∧
      c = { c₀ with form, threshold := n, handlers := 1 } := by
  unfold configure at h
  split at h
  · rename_i s
    dsimp only at h
    split at h
    · cases h
    · rename_i n hn
      cases h
      exact ⟨s, n, rfl, hn, rfl⟩
    · cases h
    · cases h
  · cases h

theorem write?_json (hform : d.form = .json) (r : Fields) :
    d.write? r = Json.line? (r.erase raisedKey) := by
  rw [write?, hform]

theorem log_eq_ok_iff (hform : d.form = .json) {o : Option String} :
    d.log call time = .ok o ↔ ∃ r, call.record d.context time = .ok r ∧
      o = if d.threshold ≤ call.severity.number then Json.line? (r.erase raisedKey)
        else none := by
  unfold log
  cases call.record d.context time with
  | error f => exact iff_of_false nofun nofun
  | ok r =>
    show Except.ok (if d.shows call.severity then d.write? r else none) = .ok o ↔ _
    simp [write?_json hform, shows, eq_comm]

theorem logPlain_eq_some_iff (hform : d.form = .json) :
    d.logPlain call time = some line ↔ d.threshold ≤ call.severity.number ∧
      ∃ r, call.plainRecord d.context time = .ok r ∧
        Json.line? (r.erase raisedKey) = some line := by
  unfold logPlain
  simp only [shows, decide_eq_true_eq]
  split
  · rename_i hsevere
    rw [and_iff_right hsevere]
    cases call.plainRecord d.context time with
    | error f => exact iff_of_false nofun nofun
    | ok r =>
      show d.write? r = some line ↔ _
      rw [write?_json hform]
      simp [eq_comm]
  · rename_i hsevere
    exact iff_of_false nofun fun h => hsevere h.1

section

variable (hform : d.form = .json) (hasks : call.asksRaised = false)

include hform hasks

theorem exists_log_iff (hbound : Keyed call.bound) (hfields : Keyed call.fields)
    (hfree : ∀ k ∈ waitingKeys, said call.bound call.fields d.context k = none) :
    (∃ o, d.log call time = .ok o) ↔ reservedFault? call = none ∧
      Made call.event call.arguments (said call.bound call.fields d.context) := by
  have hbrings := brings_call d.context hasks hbound hfields hfree
  rw [← hbrings.exists_finish_iff]
  constructor
  · rintro ⟨o, ho⟩
    obtain ⟨r, hr, -⟩ := (log_eq_ok_iff hform).1 ho
    exact ⟨(record_eq_ok_iff.1 hr).1, r, (record_eq_ok_iff.1 hr).2⟩
  · rintro ⟨hreserved, r, hr⟩
    exact ⟨_, (log_eq_ok_iff hform).2 ⟨r, record_eq_ok_iff.2 ⟨hreserved, hr⟩, rfl⟩⟩

theorem line_of_log (hbound : Keyed call.bound) (hfields : Keyed call.fields)
    (hfree : ∀ k ∈ waitingKeys, said call.bound call.fields d.context k = none)
    {o : Option String} (ho : d.log call time = .ok o) :
    ((∃ line, o = some line) ↔ d.threshold ≤ call.severity.number ∧
        Written (said call.bound call.fields d.context)) ∧
      ∀ line, o = some line → ∃ text, filled call.event call.arguments = .ok text ∧
        IsLine line call.logger text time call.severity
          (said call.bound call.fields d.context) := by
  obtain ⟨r, hr, rfl⟩ := (log_eq_ok_iff hform).1 ho
  have hbrings := brings_call d.context hasks hbound hfields hfree
  obtain ⟨text, htext, hcontents⟩ := hbrings.contents (record_eq_ok_iff.1 hr).2
  have hraised := hfree raisedKey (by decide)
  split
  · rename_i hsevere
    rw [and_iff_right hsevere]
    exact ⟨hcontents.exists_line?_iff hraised,
      fun line hline => ⟨text, htext, hcontents.isLine hraised hline⟩⟩
  · rename_i hsevere
    refine ⟨iff_of_false ?_ fun h => hsevere h.1, fun line hline => ?_⟩
    · rintro ⟨line, hline⟩
      cases hline
    · cases hline

theorem exists_logPlain_iff (hfree : ∀ k ∈ waitingKeys, d.context.get? k = none) :
    (∃ line, d.logPlain call time = some line) ↔ d.threshold ≤ call.severity.number ∧
      Made call.event call.arguments d.context.get? ∧ Written d.context.get? := by
  have hraised := hfree raisedKey (by decide)
  constructor
  · rintro ⟨line, hline⟩
    obtain ⟨hsevere, r, hr, hline⟩ := (logPlain_eq_some_iff hform).1 hline
    obtain ⟨text, htext, hfinish⟩ := (plainRecord_eq_ok_iff hasks).1 hr
    have hmade := (brings_plain text hfree).exists_finish_iff.1 ⟨r, hfinish⟩
    obtain ⟨_, -, hcontents⟩ := (brings_plain text hfree).contents hfinish
    have hwritten := (hcontents.exists_line?_iff hraised).1 ⟨line, hline⟩
    exact ⟨hsevere, ⟨⟨text, htext⟩, hmade.sets⟩, hwritten⟩
  · rintro ⟨hsevere, ⟨⟨text, htext⟩, hsets⟩, hwritten⟩
    obtain ⟨r, hfinish⟩ := (brings_plain text hfree).exists_finish_iff.2 ⟨⟨text, rfl⟩, hsets⟩
    have hr := (plainRecord_eq_ok_iff hasks).2 ⟨text, htext, hfinish⟩
    obtain ⟨_, -, hcontents⟩ := (brings_plain text hfree).contents hfinish
    obtain ⟨line, hline⟩ := (hcontents.exists_line?_iff hraised).2 hwritten
    exact ⟨line, (logPlain_eq_some_iff hform).2 ⟨hsevere, r, hr, hline⟩⟩

theorem line_of_logPlain (hfree : ∀ k ∈ waitingKeys, d.context.get? k = none)
    (hline : d.logPlain call time = some line) :
    ∃ text, filled call.event call.arguments = .ok text ∧
      IsLine line call.logger text time call.severity d.context.get? := by
  obtain ⟨-, r, hr, hline⟩ := (logPlain_eq_some_iff hform).1 hline
  obtain ⟨text, htext, hfinish⟩ := (plainRecord_eq_ok_iff hasks).1 hr
  obtain ⟨shown, hshown, hcontents⟩ := (brings_plain text hfree).contents hfinish
  cases hshown
  exact ⟨text, htext, hcontents.isLine (hfree raisedKey (by decide)) hline⟩

end

/-- A call in JSON fails exactly when a field has a reserved name or its record cannot be made; else
it leaves one line if it is severe enough and its record can be written, and none if not. A plain
call does not fail: it leaves one line if it is severe enough and its record can be made and
written. Logger, level and time stamp of a line are its own; the other members come from the call,
its logger and the context, in this order, or from the context alone for a plain call. -/
theorem json_lines (hc : c₀.configure .json level = (c, .ok ())) (context : Fields)
    {method : String} (hmethod : method ∈ methods) (logger event time : String)
    (arguments : List Value) (hbound : Keyed bound) (hfields : Keyed fields)
    (hfree : ∀ k ∈ waitingKeys,
      bound.get? k = none ∧ fields.get? k = none ∧ context.get? k = none) :
    ∃ severity, Severity.ofCall? method = some severity ∧
      let d : Config := { c with context }
      let call : Call := ⟨logger, severity, method, event, arguments, bound, fields⟩
      (d.handlers = 1 ∧ ∃ s, level = .text s ∧
        Threshold.ofName? (Text.Case.upper s) = some (.number d.threshold)) ∧
      ((∃ o, d.log call time = .ok o) ↔
        reservedFault? call = none ∧ Made event arguments (said bound fields context)) ∧
      (∀ o, d.log call time = .ok o →
        ((∃ line, o = some line) ↔
          d.threshold ≤ severity.number ∧ Written (said bound fields context)) ∧
        ∀ line, o = some line → ∃ text, filled event arguments = .ok text ∧
          IsLine line logger text time severity (said bound fields context)) ∧
      ((∃ line, d.logPlain call time = some line) ↔
        d.threshold ≤ severity.number ∧ Made event arguments context.get? ∧
          Written context.get?) ∧
      ∀ line, d.logPlain call time = some line → ∃ text, filled event arguments = .ok text ∧
        IsLine line logger text time severity context.get? := by
  obtain ⟨s, n, hs, hn, rfl⟩ := configure_eq_ok hc
  obtain ⟨severity, hseverity, hasks⟩ := exists_severity hmethod
  have hcontext : ∀ k ∈ waitingKeys, context.get? k = none := fun k hk => (hfree k hk).2.2
  have hsaid : ∀ k ∈ waitingKeys, said bound fields context k = none := by
    intro k hk
    obtain ⟨hb, hf, hx⟩ := hfree k hk
    rw [said, hb, hf, hx]
    rfl
  refine ⟨severity, hseverity, ?_⟩
  intro d call
  have hraised : call.asksRaised = false := hasks
  exact ⟨⟨rfl, s, hs, hn⟩, exists_log_iff rfl hraised hbound hfields hsaid,
    fun o ho => line_of_log rfl hraised hbound hfields hsaid ho,
    exists_logPlain_iff rfl hraised hcontext,
    fun line hline => line_of_logPlain rfl hraised hcontext hline⟩

/-- Fields named after the record's own do not show; of a name that is both bound and given the
value given does, and of the context what neither has. -/
theorem json_lines_shadowed :
    let d : Config := ⟨.json, 20, 1, [("level", .text "low"), ("cut", .set [.text "b", .text "a"])]⟩
    let call : Call := ⟨"p", .warning, "warn", "e", [], [("logger", .text "q"), ("n", .int 1)],
      [("n", .int 2)]⟩
    ∃ line members, d.log call "now" = .ok (some line) ∧
      Json.read? line = some (.object members) ∧ members.lookup "logger" = some (.text "p") ∧
      members.lookup "level" = some (.text "warning") ∧
      Option.Rel Writes (some (.int 2)) (members.lookup "n") ∧
      Option.Rel Writes (some (.set [.text "b", .text "a"])) (members.lookup "cut") := by
  intro d call
  have hlog : d.log call "now" = .ok (some ("\x7b\"logger\": \"p\", \"n\": 2, \"event\": \"e\", " ++
      "\"level\": \"warning\", \"cut\": [\"a\", \"b\"], \"timestamp\": \"now\"\x7d")) := by cbv
  have hc : configure ⟨.console, 30, 0, []⟩ .json (.text "info") =
      (⟨.json, 20, 1, []⟩, .ok ()) := by cbv
  have hmethod : "warn" ∈ methods := by decide
  have hbound : Keyed [("logger", .text "q"), ("n", .int 1)] := by simp [Keyed]
  have hfields : Keyed [("n", .int 2)] := by simp [Keyed]
  obtain ⟨severity, hseverity, -, -, hlines, -⟩ :=
    json_lines hc d.context hmethod "p" "e" "now" [] hbound hfields (by decide)
  cases hseverity
  obtain ⟨text, -, hline⟩ := (hlines _ hlog).2 _ rfl
  obtain ⟨members, hread, -, -, hlogger, hlevel, -, hothers⟩ := hline.object
  exact ⟨_, members, hlog, hread, hlogger, hlevel, hothers "n" (by decide),
    hothers "cut" (by decide)⟩

/-- A plain call in a context with a set that has no order returns and leaves no line, and so does a
call with a field that has a pair for a key. -/
theorem json_lines_unwritten :
    let cut : Value :=
      .set [.connection (.text "a") (.text "b"), .connection (.text "b") (.text "c")]
    let weights : Value := .mapping [(.tuple [.text "a", .text "b"], .int 1)]
    let d : Config := ⟨.json, 20, 1, [("cut", cut)]⟩
    let d' : Config := ⟨.json, 20, 1, []⟩
    configure ⟨.console, 30, 0, [("cut", cut)]⟩ .json (.text "INFO") = (d, .ok ()) ∧
      configure ⟨.console, 30, 0, []⟩ .json (.text "INFO") = (d', .ok ()) ∧
      d.threshold ≤ Severity.warning.number ∧ d'.threshold ≤ Severity.warning.number ∧
      (¬∃ line, d.logPlain ⟨"p", .warning, "warning", "e", [], [], []⟩ "now" = some line) ∧
      d'.log ⟨"p", .warning, "warning", "e", [], [], [("weights", weights)]⟩ "now" = .ok none := by
  intro cut weights d d'
  have hnone : d.logPlain ⟨"p", .warning, "warning", "e", [], [], []⟩ "now" = none := by cbv
  refine ⟨by cbv, by cbv, by decide, by decide, ?_, by cbv⟩
  rintro ⟨line, hline⟩
  rw [hnone] at hline
  cases hline

end Config

end Pipeline.Log
