import Pipeline.Proofs.Merge
import Mathlib.Data.List.Chain

namespace Pipeline

namespace Value

open Connection

variable {v w : Value} {l placed items : List Value}

/-- Whether nothing speaks against a value standing right in front of another. -/
def Steps (v w : Value) : Prop := before v w = .ok true ∨ before w v = .ok false

/-- Members in an order that no neighbours contradict. -/
def Ascending (l : List Value) : Prop := l.IsChain Steps

theorem insertSorted_cons (h : insertSorted v (w :: placed) = .ok l) :
    (before v w = .ok true ∧ ∃ rest, insertSorted v placed = .ok rest ∧ l = w :: rest) ∨
      before v w = .ok false ∧ l = v :: w :: placed := by
  rw [insertSorted] at h
  obtain ⟨b, hb, h⟩ := bind_eq_ok_iff.1 h
  cases b with
  | true =>
    obtain ⟨rest, hrest, h⟩ := bind_eq_ok_iff.1 h
    cases h
    exact .inl ⟨hb, rest, hrest, rfl⟩
  | false =>
    cases h
    exact .inr ⟨hb, rfl⟩

theorem perm_of_insertSorted (h : insertSorted v placed = .ok l) : l.Perm (v :: placed) := by
  induction placed generalizing l with
  | nil =>
    cases h
    exact .refl _
  | cons w placed ih =>
    obtain ⟨-, rest, hrest, rfl⟩ | ⟨-, rfl⟩ := insertSorted_cons h
    · exact ((ih hrest).cons w).trans (.swap v w placed)
    · exact .refl _

theorem head?_of_insertSorted (h : insertSorted v placed = .ok l) :
    l.head? = some v ∨ l.head? = placed.head? := by
  cases placed with
  | nil =>
    cases h
    exact .inl rfl
  | cons w placed =>
    obtain ⟨-, rest, -, rfl⟩ | ⟨-, rfl⟩ := insertSorted_cons h
    · exact .inr rfl
    · exact .inl rfl

/-- A place is looked for from the end, so the list is kept in descending order. -/
theorem isChain_of_insertSorted (h : insertSorted v placed = .ok l)
    (hplaced : placed.IsChain (flip Steps)) : l.IsChain (flip Steps) := by
  induction placed generalizing l with
  | nil =>
    cases h
    exact .singleton v
  | cons w placed ih =>
    obtain ⟨hfront, htail⟩ := List.isChain_cons.1 hplaced
    obtain ⟨hb, rest, hrest, rfl⟩ | ⟨hb, rfl⟩ := insertSorted_cons h
    · refine List.isChain_cons.2 ⟨fun u hu => ?_, ih hrest htail⟩
      obtain hhead | hhead := head?_of_insertSorted hrest
      · rw [hhead, Option.mem_some_iff] at hu
        exact .inl (hu ▸ hb)
      · exact hfront u (hhead ▸ hu)
    · exact List.isChain_cons_cons.2 ⟨.inr hb, hplaced⟩

theorem foldlM_insertSorted (h : items.foldlM (fun l v => insertSorted v l) placed = .ok l)
    (hplaced : placed.IsChain (flip Steps)) :
    l.Perm (items ++ placed) ∧ l.IsChain (flip Steps) := by
  induction items generalizing placed with
  | nil =>
    cases h
    exact ⟨.refl _, hplaced⟩
  | cons v items ih =>
    rw [List.foldlM_cons] at h
    obtain ⟨kept, hkept, h⟩ := bind_eq_ok_iff.1 h
    obtain ⟨hperm, hchain⟩ := ih h (isChain_of_insertSorted hkept hplaced)
    have hstep := ((perm_of_insertSorted hkept).append_left items).trans List.perm_middle
    exact ⟨hperm.trans hstep, hchain⟩

theorem sorted_spec (h : sorted items = .ok l) : l.Perm items ∧ Ascending l := by
  obtain ⟨placed, hplaced, h⟩ := bind_eq_ok_iff.1 h
  cases h
  obtain ⟨hperm, hchain⟩ := foldlM_insertSorted hplaced .nil
  rw [List.append_nil] at hperm
  exact ⟨placed.reverse_perm.trans hperm, List.isChain_reverse.2 hchain⟩

end Value

namespace Log

open Connection Fields

variable {f g r start context : Fields} {k logger event text time : String} {v w : Value}
  {severity : Severity} {arguments : List Value}

/-- How a record shows a value: a set as the ascending list of its members. -/
def Shown (v w : Value) : Prop :=
  match v with
  | .set items | .frozenSet items => ∃ l, w = .list l ∧ l.Perm items ∧ Value.Ascending l
  | v => w = v

theorem shown_of_sortedSet (h : sortedSet v = .ok w) : Shown v w := by
  have hset : ∀ {items : List Value}, (do return .list (← Value.sorted items)) = Except.ok w →
      ∃ l, w = .list l ∧ l.Perm items ∧ Value.Ascending l := by
    intro items h
    obtain ⟨l, hl, h⟩ := bind_eq_ok_iff.1 h
    cases h
    exact ⟨l, rfl, Value.sorted_spec hl⟩
  cases v with
  | set items => exact hset h
  | frozenSet items => exact hset h
  | _ =>
    cases h
    rfl

theorem get?_sortSets (h : sortSets f = .ok g) :
    g.map (·.1) = f.map (·.1) ∧ ∀ k, Option.Rel Shown (f.get? k) (g.get? k) := by
  unfold sortSets at h
  rw [mapM_eq_ok_iff] at h
  induction h with
  | nil => exact ⟨rfl, fun k => .none⟩
  | @cons e d f g he hfg ih =>
    obtain ⟨hkeys, hget⟩ := ih
    obtain ⟨w, hw, he⟩ := bind_eq_ok_iff.1 he
    cases he
    refine ⟨by rw [List.map_cons, List.map_cons, hkeys], fun k => ?_⟩
    rw [get?, get?]
    split
    · exact .some (shown_of_sortedSet (mapError_eq_ok_iff.1 hw))
    · exact hget k

/-- The event with its arguments in place. -/
def filled (event : String) (arguments : List Value) : Except Fault String :=
  if arguments.isEmpty then pure event
  else do
    let v ← argumentsOf (.tuple arguments)
    (Template.fill event v).mapError .template

theorem filled_nil (event : String) : filled event [] = .ok event := rfl

def ownKeys : List String := "event" :: stampKeys

theorem fillEvent_iff_filled (hevent : f.get? "event" = some (.text event))
    (harguments : f.get? argumentsKey =
      if arguments.isEmpty then none else some (.tuple arguments)) :
    fillEvent f = .ok r ↔ ∃ text, filled event arguments = .ok text ∧
      r = if arguments.isEmpty then f else (f.put "event" (.text text)).erase argumentsKey := by
  rw [fillEvent_eq_ok_iff hevent, harguments]
  cases arguments with
  | nil => simp [filled_nil]
  | cons a as =>
    have htruthy : (Value.tuple (a :: as)).truthy = true := rfl
    have hfilled : ∀ text, filled event (a :: as) = .ok text ↔
        ∃ v, argumentsOf (.tuple (a :: as)) = .ok v ∧ Template.fill event v = .ok text :=
      fun text => bind_eq_ok_iff.trans (exists_congr fun v => and_congr_right' mapError_eq_ok_iff)
    simp only [hfilled]
    simp only [List.isEmpty_cons, Bool.false_eq_true, ↓reduceIte, reduceCtorEq, Option.some.injEq,
      or_self, false_and, ne_eq, exists_and_left, exists_eq_left', not_false_eq_true, htruthy,
      Bool.true_eq_false, true_and, false_or]
    constructor
    · rintro ⟨v, hv, text, htext, hr⟩
      exact ⟨text, ⟨v, hv, htext⟩, hr⟩
    · rintro ⟨text, ⟨v, hv, htext⟩, hr⟩
      exact ⟨v, hv, text, htext, hr⟩

/-- What the fields of a record tell: its own under four names, under every other what a source
has for it. -/
structure Contents (r : Fields) (logger text time : String) (severity : Severity)
    (source : String → Option Value) : Prop where
  keyed : Keyed r
  event : r.get? "event" = some (.text text)
  logger : r.get? "logger" = some (.text (loggerName logger))
  level : r.get? "level" = some (.text severity.label)
  timestamp : r.get? "timestamp" = some (.text time)
  others : ∀ k ∉ ownKeys, Option.Rel Shown (source k) (r.get? k)

def droppedKeys : List String := [stackKey, recordKey, originKey]

/-- Fields and a context that bring an event, its arguments and, under all other names, a source. -/
structure Brings (start context : Fields) (event : String) (arguments : List Value)
    (source : String → Option Value) : Prop where
  keyed : Keyed start
  event : start.get? "event" = some (.text event)
  arguments : (start.get? argumentsKey).or (context.get? argumentsKey) =
    if arguments.isEmpty then none else some (.tuple arguments)
  others : ∀ k ∉ ownKeys, k ≠ argumentsKey → (start.get? k).or (context.get? k) = source k
  free : ∀ k ∈ argumentsKey :: droppedKeys, source k = none

/-- Whether a record can be made: its arguments fit its event, and its sets have an order. -/
structure Made (event : String) (arguments : List Value) (source : String → Option Value) :
    Prop where
  event : ∃ text, filled event arguments = .ok text
  sets : ∀ k ∉ ownKeys, ∀ v, source k = some v → Shows v

theorem get?_dropped (g : Fields) (k : String) :
    (((g.erase stackKey).erase recordKey).erase originKey).get? k =
      if k ∈ droppedKeys then none else g.get? k := by
  simp only [get?_erase, droppedKeys, List.mem_cons, List.not_mem_nil, or_false, eq_comm (b := k)]
  split_ifs <;> first | rfl | simp_all

theorem get?_stamp_own (f : Fields) (logger : String) (severity : Severity) (time : String) :
    (stamp f logger severity time).get? "logger" = some (.text (loggerName logger)) ∧
      (stamp f logger severity time).get? "level" = some (.text severity.label) ∧
      (stamp f logger severity time).get? "timestamp" = some (.text time) := by
  simp [stamp, get?_put]

theorem eq_text_of_rel {s : String} (h : Option.Rel Shown (f.get? k) (g.get? k))
    (hk : f.get? k = some (.text s)) : g.get? k = some (.text s) := by
  rw [hk] at h
  cases hg : g.get? k with
  | none =>
    rw [hg] at h
    cases h
  | some w =>
    rw [hg] at h
    cases h with
    | some h =>
      cases h
      rfl

section

variable {source : String → Option Value} (hb : Brings start context event arguments source)

include hb

theorem Brings.get?_stamp_event :
    (stamp (start.fill context) logger severity time).get? "event" = some (.text event) := by
  rw [get?_stamp_fill (by decide), hb.event]
  rfl

theorem Brings.get?_stamp_arguments :
    (stamp (start.fill context) logger severity time).get? argumentsKey =
      if arguments.isEmpty then none else some (.tuple arguments) := by
  rw [get?_stamp_fill (by decide), hb.arguments]

theorem Brings.fillEvent_iff :
    fillEvent (stamp (start.fill context) logger severity time) = .ok f ↔
      ∃ text, filled event arguments = .ok text ∧
        f = if arguments.isEmpty then stamp (start.fill context) logger severity time
          else ((stamp (start.fill context) logger severity time).put "event"
            (.text text)).erase argumentsKey :=
  fillEvent_iff_filled hb.get?_stamp_event hb.get?_stamp_arguments

theorem Brings.get?_filled
    (h : fillEvent (stamp (start.fill context) logger severity time) = .ok f) :
    f.get? argumentsKey = none ∧
      ∃ text, filled event arguments = .ok text ∧ f.get? "event" = some (.text text) := by
  obtain ⟨text, htext, rfl⟩ := hb.fillEvent_iff.1 h
  cases arguments with
  | nil =>
    cases htext
    exact ⟨hb.get?_stamp_arguments, event, rfl, hb.get?_stamp_event⟩
  | cons a as =>
    refine ⟨?_, text, htext, ?_⟩
    · exact (get?_erase _ _ _).trans (if_pos rfl)
    · rw [if_neg (by simp), get?_erase, if_neg (by decide), get?_put, if_pos rfl]

theorem Brings.get?_other (h : fillEvent (stamp (start.fill context) logger severity time) = .ok f)
    (hk : k ∉ ownKeys) : f.get? k = source k := by
  obtain ⟨-, hkeep, -, -⟩ :=
    get?_of_fillEvent hb.get?_stamp_event (keyed_stamp (hb.keyed.fill context)) h
  by_cases harg : k = argumentsKey
  · rw [harg, (hb.get?_filled h).1, hb.free argumentsKey List.mem_cons_self]
  · obtain ⟨hev, hstamp⟩ := not_or.1 (mt List.mem_cons.2 hk)
    rw [hkeep k harg hev, get?_stamp_fill hstamp, hb.others k hk harg]

theorem Brings.contents (h : finish start context logger severity time = .ok r) :
    ∃ text, filled event arguments = .ok text ∧ Contents r logger text time severity source := by
  obtain ⟨-, f, hf, g, hg, rfl⟩ := finish_eq_ok_iff.1 h
  obtain ⟨hkeyed, hkeep, -, -⟩ :=
    get?_of_fillEvent hb.get?_stamp_event (keyed_stamp (hb.keyed.fill context)) hf
  obtain ⟨-, text, htext, hevent⟩ := hb.get?_filled hf
  obtain ⟨hkeys, hshown⟩ := get?_sortSets hg
  obtain ⟨hlogger, hlevel, htime⟩ :=
    get?_stamp_own (start.fill context) logger severity time
  have hgkeyed : Keyed g := by
    rw [Keyed, hkeys]
    exact hkeyed
  -- A text passes unchanged, unless its name is dropped.
  have htexts : ∀ k s, k ∉ droppedKeys → f.get? k = some (.text s) →
      (((g.erase stackKey).erase recordKey).erase originKey).get? k = some (.text s) := by
    intro k s hk hf
    rw [get?_dropped, if_neg hk]
    exact eq_text_of_rel (hshown k) hf
  refine ⟨text, htext, ((hgkeyed.erase _).erase _).erase _, ?_, ?_, ?_, ?_, fun k hk => ?_⟩
  · exact htexts _ _ (by decide) hevent
  · exact htexts _ _ (by decide) ((hkeep _ (by decide) (by decide)).trans hlogger)
  · exact htexts _ _ (by decide) ((hkeep _ (by decide) (by decide)).trans hlevel)
  · exact htexts _ _ (by decide) ((hkeep _ (by decide) (by decide)).trans htime)
  · rw [get?_dropped]
    split
    · rename_i hdropped
      rw [hb.free k (List.mem_cons_of_mem _ hdropped)]
      exact .none
    · rw [← hb.get?_other hf hk]
      exact hshown k

theorem Brings.exists_finish_iff :
    (∃ r, finish start context logger severity time = .ok r) ↔ Made event arguments source := by
  have hstamped : Keyed (stamp (start.fill context) logger severity time) :=
    keyed_stamp (hb.keyed.fill context)
  constructor
  · rintro ⟨r, h⟩
    obtain ⟨-, f, hf, g, hg, -⟩ := finish_eq_ok_iff.1 h
    obtain ⟨hkeyed, -, -, -⟩ := get?_of_fillEvent hb.get?_stamp_event hstamped hf
    obtain ⟨-, text, htext, -⟩ := hb.get?_filled hf
    refine ⟨⟨text, htext⟩, fun k hk v hv => ?_⟩
    exact (exists_sortSets_iff hkeyed).1 ⟨g, hg⟩ k v ((hb.get?_other hf hk).trans hv)
  · rintro ⟨⟨text, htext⟩, hshows⟩
    have hrecord : checkRecord (start.fill context) = .ok () := by
      rw [checkRecord_eq_ok_iff, get?_fill, hb.others _ (by decide) (by decide),
        hb.free _ (by decide)]
      exact nofun
    obtain ⟨f, hf⟩ : ∃ f, fillEvent (stamp (start.fill context) logger severity time) = .ok f :=
      ⟨_, hb.fillEvent_iff.2 ⟨text, htext, rfl⟩⟩
    obtain ⟨hkeyed, hkeep, -, -⟩ := get?_of_fillEvent hb.get?_stamp_event hstamped hf
    obtain ⟨-, shown, -, hevent⟩ := hb.get?_filled hf
    -- The record's own fields are texts, which are shown as they are.
    obtain ⟨g, hg⟩ : ∃ g, sortSets f = .ok g := by
      refine (exists_sortSets_iff hkeyed).2 fun k v hv => ?_
      by_cases hk : k ∈ ownKeys
      · obtain rfl | hstamp := List.mem_cons.1 hk
        · rw [hevent, Option.some.injEq] at hv
          exact hv ▸ shows_text _
        · have hne : k ≠ argumentsKey ∧ k ≠ "event" := by
            constructor <;> rintro rfl <;> revert hstamp <;> decide
          exact shows_of_get?_stamp hstamp ((hkeep k hne.1 hne.2).symm.trans hv)
      · exact hshows k hk v ((hb.get?_other hf hk).symm.trans hv)
    exact ⟨_, finish_eq_ok_iff.2 ⟨hrecord, f, hf, g, hg, rfl⟩⟩

end

end Log

end Pipeline
