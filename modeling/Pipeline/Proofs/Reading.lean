import Mathlib
import Pipeline.Proofs.Reader

namespace Pipeline.Log.Json

open Text Text.Escaped Number

structure IsWord (cs : List Char) : Prop where
  ne_nil : cs ≠ []
  chars : ∀ c ∈ cs, isWordChar c = true

namespace IsWord

variable {cs ds : List Char} {c : Char} {n : Nat}

theorem of_all (hne : cs ≠ []) (h : cs.all isWordChar = true) : IsWord cs :=
  ⟨hne, List.all_eq_true.1 h⟩

theorem append (hcs : IsWord cs) (hds : ∀ c ∈ ds, isWordChar c = true) : IsWord (cs ++ ds) where
  ne_nil := List.append_ne_nil_of_left_ne_nil hcs.ne_nil ds
  chars c hc := (List.mem_append.1 hc).elim (hcs.chars c) (hds c)

theorem isWordChar_of_isDigit (h : c.isDigit = true) : isWordChar c = true := by
  simp [isWordChar, Char.isAlphanum, h]

theorem digitChars (n : Nat) : IsWord (Decimal.digitChars n) where
  ne_nil := Nat.toDigits_ne_nil
  chars _ hc := isWordChar_of_isDigit (Nat.isDigit_of_mem_toDigits (by decide) (by decide) hc)

theorem zeros (n : Nat) : ∀ c ∈ Decimal.zeros n, isWordChar c = true := by
  intro c hc
  rw [(List.mem_replicate.1 hc).2]
  rfl

theorem toString (n : Int) : IsWord (toString n).toList := by
  have hnat : ∀ m : Nat, (Nat.repr m).toList = Decimal.digitChars m := by
    intro m
    rw [Nat.repr, String.toList_ofList]
    rfl
  cases n with
  | ofNat m =>
    show IsWord (Nat.repr m).toList
    exact hnat m ▸ digitChars m
  | negSucc m =>
    show IsWord ("-" ++ Nat.repr (m + 1)).toList
    rw [String.toList_append, hnat]
    exact (of_all (by simp) rfl : IsWord ['-']).append (digitChars _).chars

theorem trimmed (h : IsWord cs) : IsWord (Decimal.trimmed cs) := by
  unfold Decimal.trimmed
  have hsub : ∀ c ∈ (cs.reverse.dropWhile (· == '0')).reverse, c ∈ cs := fun c hc =>
    List.mem_reverse.1 ((List.dropWhile_sublist _).subset (List.mem_reverse.1 hc))
  split
  · refine ⟨?_, fun c hc => h.chars c (List.mem_of_mem_take hc)⟩
    simpa using h.ne_nil
  · rename_i heq
    exact ⟨heq, fun c hc => h.chars c (hsub c hc)⟩

theorem positional (h : IsWord cs) (point : Int) : IsWord (Decimal.positional cs point) := by
  unfold Decimal.positional
  split_ifs
  · exact ((of_all (by simp) rfl).append (zeros _)).append h.chars
  · exact (h.append (zeros _)).append (List.all_eq_true.1 rfl)
  · refine ⟨by simp, ?_⟩
    rw [List.forall_mem_append, List.forall_mem_append]
    exact ⟨⟨fun c hc => h.chars c (List.mem_of_mem_take hc), List.all_eq_true.1 rfl⟩,
      fun c hc => h.chars c (List.mem_of_mem_drop hc)⟩

theorem withPoint (h : IsWord cs) : IsWord (Decimal.withPoint cs false) := by
  unfold Decimal.withPoint
  split
  · exact h
  · exact h
  · refine ⟨List.cons_ne_nil _ _, ?_⟩
    obtain ⟨hc, hrest⟩ := List.forall_mem_cons.1 h.chars
    exact List.forall_mem_cons.2 ⟨hc, List.forall_mem_cons.2 ⟨rfl, hrest⟩⟩

theorem exponent (e : Int) : IsWord (Decimal.exponent 'e' e) := by
  have hmark : IsWord ['e', if e < 0 then '-' else '+'] := by
    split <;> exact of_all (by simp) rfl
  exact (hmark.append (zeros _)).append (digitChars _).chars

theorem shortestChars (x : Binary64) : IsWord (Decimal.shortestChars x) := by
  unfold Decimal.shortestChars
  have hds := (digitChars (Decimal.shortest x).1).trimmed
  dsimp only
  split_ifs
  · exact of_all (by decide) rfl
  · exact hds.positional _
  · exact hds.withPoint.append (exponent _).chars

theorem floatText (x : Binary64) : IsWord (floatText x).toList := by
  unfold Json.floatText
  split_ifs with hnan hinfinite hnegative
  · exact of_all (by decide) rfl
  · exact of_all (by decide) rfl
  · exact of_all (by decide) rfl
  · rw [Decimal.text, if_neg hnan, if_neg hinfinite, String.toList_ofList, Decimal.signed]
    split
    · exact (of_all (by simp) rfl : IsWord ['-']).append (shortestChars x).chars
    · exact shortestChars x

end IsWord

section

variable {cs ds rest : List Char} {c : Char} {n : Nat}

theorem takeWhile_of_isWord (h : IsWord cs) (hrest : ∀ c ∈ rest.head?, isWordChar c = false) :
    (cs ++ rest).takeWhile isWordChar = cs ∧ (cs ++ rest).dropWhile isWordChar = rest := by
  rw [List.takeWhile_append_of_pos h.chars, List.dropWhile_append_of_pos h.chars]
  cases rest with
  | nil => exact ⟨List.append_nil cs, rfl⟩
  | cons d rest =>
    have hd : ¬isWordChar d = true := by simpa using hrest d rfl
    rw [List.takeWhile_cons_of_neg hd, List.dropWhile_cons_of_neg hd]
    exact ⟨List.append_nil cs, rfl⟩

theorem reads_word (h : IsWord cs) : Reads (doc? (n + 1)) cs (.word (String.ofList cs)) := by
  intro rest hrest
  obtain ⟨htake, hdrop⟩ := takeWhile_of_isWord h hrest
  obtain ⟨c, cs', rfl⟩ := List.exists_cons_of_ne_nil h.ne_nil
  have hc : isWordChar c = true := h.chars c List.mem_cons_self
  have hword : word? (c :: cs' ++ rest) = some (.word (String.ofList (c :: cs')), rest) := by
    rw [word?, htake, hdrop, if_neg (List.cons_ne_nil c cs')]
  rw [List.cons_append, doc?]
  · exact hword
  all_goals
    intro _ heq
    rw [(List.cons.inj heq).1] at hc
    cases hc

theorem reads_wordText {s : String} (h : IsWord s.toList) :
    Reads (doc? (n + 1)) s.toList (.word s) := by
  have hread : Reads (doc? (n + 1)) s.toList (.word (String.ofList s.toList)) := reads_word h
  rwa [String.ofList_toList] at hread

theorem doc?_nil (n : Nat) : doc? n [] = none := by
  cases n <;> rfl

theorem doc?_bracket (n : Nat) (cs : List Char) : doc? n (']' :: cs) = none := by
  cases n <;> rfl

theorem member?_nil {one : List Char → Option (Doc × List Char)} : member? one [] = none := rfl

theorem member?_brace {one : List Char → Option (Doc × List Char)} (cs : List Char) :
    member? one ('\x7d' :: cs) = none := rfl

theorem reads_escaped (s : String) : Reads (doc? (n + 1)) (escaped s).toList (.text s) := by
  intro rest _
  have htext := text?_escaped s rest
  rw [toList_escaped_append] at htext ⊢
  rw [doc?, htext]
  rfl

theorem toList_enclosed (front back : String) (ms : List String) :
    (Value.enclosed front back ms).toList =
      front.toList ++ [',', ' '].intercalate (ms.map String.toList) ++ back.toList := by
  rw [Value.enclosed, String.toList_append, String.toList_append, String.toList_intercalate]
  rfl

theorem exists_depth {ms : List String} {front back : String} (hfront : 0 < front.toList.length)
    (hn : (Value.enclosed front back ms).toList.length ≤ n) :
    ∃ m, n = m + 1 ∧ ∀ t ∈ ms, t.toList.length ≤ m := by
  rw [toList_enclosed, List.length_append, List.length_append] at hn
  refine ⟨n - 1, by omega, fun t ht => ?_⟩
  have hle : t.toList.length ≤ ([',', ' '].intercalate (ms.map String.toList)).length :=
    length_le_of_mem_intercalate _ (List.mem_map_of_mem ht)
  omega

theorem reads_array {ms : List String} {ds : List Doc}
    (hms : List.Forall₂ (Reads (doc? n)) (ms.map String.toList) ds) :
    Reads (doc? (n + 1)) (Value.enclosed "[" "]" ms).toList (.array ds) := by
  intro rest _
  have hitems : enclosed? (doc? n) ']'
      ([',', ' '].intercalate (ms.map String.toList) ++ ']' :: rest) = some (ds, rest) :=
    enclosed?_intercalate rfl (by decide) (doc?_nil n) (doc?_bracket n) hms
  rw [toList_enclosed, List.append_assoc, List.append_assoc]
  show (enclosed? (doc? n) ']'
    ([',', ' '].intercalate (ms.map String.toList) ++ ']' :: rest)).map _ = _
  rw [hitems]
  rfl

theorem reads_object {ms : List String} {es : List (String × Doc)}
    (hms : List.Forall₂ (Reads (member? (doc? n))) (ms.map String.toList) es) :
    Reads (doc? (n + 1)) (Value.enclosed "\x7b" "\x7d" ms).toList (.object es) := by
  intro rest _
  have hmembers : enclosed? (member? (doc? n)) '\x7d'
      ([',', ' '].intercalate (ms.map String.toList) ++ '\x7d' :: rest) = some (es, rest) :=
    enclosed?_intercalate rfl (by decide) member?_nil member?_brace hms
  rw [toList_enclosed, List.append_assoc, List.append_assoc]
  show (enclosed? (member? (doc? n)) '\x7d'
    ([',', ' '].intercalate (ms.map String.toList) ++ '\x7d' :: rest)).map _ = _
  rw [hmembers]
  rfl

theorem reads_member {k : String} {cs : List Char} {d : Doc} (hcs : Reads (doc? n) cs d) :
    Reads (member? (doc? n)) ((escaped k).toList ++ ':' :: ' ' :: cs) (k, d) := by
  intro rest hrest
  rw [List.append_assoc, member?, text?_escaped, Option.bind_some]
  show (doc? n (cs ++ rest)).map _ = _
  rw [hcs rest hrest]
  rfl

end

/-- Every word of a document is a number or a name. -/
inductive Doc.Wordy : Doc → Prop
  | word {s : String} (h : IsWord s.toList) : Wordy (.word s)
  | text (s : String) : Wordy (.text s)
  | array {ds : List Doc} (h : ∀ d ∈ ds, Wordy d) : Wordy (.array ds)
  | object {ms : List (String × Doc)} (h : ∀ m ∈ ms, Wordy m.2) : Wordy (.object ms)

theorem isWord_of_wordOf? {v : Value} {s : String} (h : wordOf? v = some s) : IsWord s.toList := by
  cases v with
  | null =>
    cases h
    exact .of_all (by decide) rfl
  | bool b =>
    cases h
    cases b <;> exact .of_all (by decide) rfl
  | int n =>
    rw [wordOf?, Value.digits] at h
    split at h
    · cases h
    · cases h
      exact .toString n
  | float x =>
    cases h
    exact .floatText x
  | _ => cases h

theorem wordy_of_wordOf? (v : Value) {d : Doc} (h : (wordOf? v).map .word = some d) : d.Wordy := by
  obtain ⟨s, hs, rfl⟩ := Option.map_eq_some_iff.1 h
  exact .word (isWord_of_wordOf? hs)

theorem wordy_of_literal (v : Value) {d : Doc} (h : (v.literal none).toOption.map .text = some d) :
    d.Wordy := by
  obtain ⟨s, -, rfl⟩ := Option.map_eq_some_iff.1 h
  exact .text s

theorem Doc.ofValues?_cons_eq_some_iff {v : Value} {vs : List Value} {ds : List Doc} :
    Doc.ofValues? (v :: vs) = some ds ↔
      ∃ d ds', Doc.ofValue? v = some d ∧ Doc.ofValues? vs = some ds' ∧ d :: ds' = ds := by
  simp [Doc.ofValues?, Option.bind_eq_some_iff]

theorem Doc.ofEntries?_cons_eq_some_iff {e : String × Value} {es : List (String × Value)}
    {ms : List (String × Doc)} :
    Doc.ofEntries? (e :: es) = some ms ↔
      ∃ d ms', Doc.ofValue? e.2 = some d ∧ Doc.ofEntries? es = some ms' ∧
        (e.1, d) :: ms' = ms := by
  simp [Doc.ofEntries?, Option.bind_eq_some_iff]

mutual

theorem wordy_of_ofValue? (v : Value) {d : Doc} (h : Doc.ofValue? v = some d) : d.Wordy := by
  cases v with
  | null => exact wordy_of_wordOf? .null h
  | bool b => exact wordy_of_wordOf? (.bool b) h
  | int n => exact wordy_of_wordOf? (.int n) h
  | float x => exact wordy_of_wordOf? (.float x) h
  | text s =>
    cases h
    exact .text s
  | tuple items =>
    obtain ⟨ds, hds, rfl⟩ := Option.map_eq_some_iff.1 h
    exact .array (wordy_of_ofValues? items hds)
  | list items =>
    obtain ⟨ds, hds, rfl⟩ := Option.map_eq_some_iff.1 h
    exact .array (wordy_of_ofValues? items hds)
  | dict entries =>
    obtain ⟨ms, hms, rfl⟩ := Option.map_eq_some_iff.1 h
    exact .object (wordy_of_ofEntries? entries hms)
  | mapping entries =>
    obtain ⟨ms, hms, rfl⟩ := Option.map_eq_some_iff.1 h
    exact .object (wordy_of_ofPairs? entries hms)
  | set items => exact wordy_of_literal (.set items) h
  | frozenSet items => exact wordy_of_literal (.frozenSet items) h
  | stream items => exact wordy_of_literal (.stream items) h
  | connection t u => exact wordy_of_literal (.connection t u) h
  | foreign f => exact wordy_of_literal (.foreign f) h

theorem wordy_of_ofValues? (vs : List Value) {ds : List Doc} (h : Doc.ofValues? vs = some ds) :
    ∀ d ∈ ds, d.Wordy := by
  cases vs with
  | nil =>
    cases h
    simp
  | cons v vs =>
    obtain ⟨d, ds, hd, hds, rfl⟩ := Doc.ofValues?_cons_eq_some_iff.1 h
    exact List.forall_mem_cons.2 ⟨wordy_of_ofValue? v hd, wordy_of_ofValues? vs hds⟩

theorem wordy_of_ofEntries? (es : List (String × Value)) {ms : List (String × Doc)}
    (h : Doc.ofEntries? es = some ms) : ∀ m ∈ ms, m.2.Wordy := by
  match es with
  | [] =>
    cases h
    simp
  | (k, v) :: es =>
    obtain ⟨d, ms, hd, hms, rfl⟩ := Doc.ofEntries?_cons_eq_some_iff.1 h
    exact List.forall_mem_cons.2 ⟨wordy_of_ofValue? v hd, wordy_of_ofEntries? es hms⟩

theorem wordy_of_ofPairs? (es : List (Value × Value)) {ms : List (String × Doc)}
    (h : Doc.ofPairs? es = some ms) : ∀ m ∈ ms, m.2.Wordy := by
  match es with
  | [] =>
    cases h
    simp
  | (k, v) :: es =>
    obtain ⟨key, -, h⟩ := Option.bind_eq_some_iff.1 h
    obtain ⟨d, hd, h⟩ := Option.bind_eq_some_iff.1 h
    obtain ⟨ms, hms, h⟩ := Option.bind_eq_some_iff.1 h
    cases h
    exact List.forall_mem_cons.2 ⟨wordy_of_ofValue? v hd, wordy_of_ofPairs? es hms⟩

end

theorem Doc.lines_eq_map (ds : List Doc) : Doc.lines ds = ds.map Doc.line := by
  induction ds with
  | nil => rfl
  | cons d ds ih => rw [Doc.lines, ih, List.map_cons]

theorem Doc.memberLines_eq_map (ms : List (String × Doc)) :
    Doc.memberLines ms = ms.map fun m => escaped m.1 ++ ": " ++ m.2.line := by
  induction ms with
  | nil => rfl
  | cons m ms ih => rw [Doc.memberLines, ih, List.map_cons]

theorem reads_line {d : Doc} (h : d.Wordy) {n : Nat} (hn : d.line.toList.length ≤ n) :
    Reads (doc? (n + 1)) d.line.toList d := by
  induction h generalizing n with
  | word h => exact reads_wordText h
  | text s => exact reads_escaped s
  | @array ds _ ih =>
    -- A member is shorter than what encloses it, so it is read with what is left of the depth.
    obtain ⟨m, rfl, hle⟩ := exists_depth (by decide) hn
    apply reads_array
    rw [Doc.lines_eq_map] at hle ⊢
    rw [List.map_map, List.forall₂_map_left_iff, List.forall₂_same]
    exact fun d hd => ih d hd (hle _ (List.mem_map_of_mem hd))
  | @object ms _ ih =>
    obtain ⟨m, rfl, hle⟩ := exists_depth (by decide) hn
    apply reads_object
    rw [Doc.memberLines_eq_map] at hle ⊢
    rw [List.map_map, List.forall₂_map_left_iff, List.forall₂_same]
    intro e he
    have hchars : (escaped e.1 ++ ": " ++ e.2.line).toList =
        (escaped e.1).toList ++ ':' :: ' ' :: e.2.line.toList := by
      rw [String.toList_append, String.toList_append, List.append_assoc]
      rfl
    have hlength := hle _ (List.mem_map_of_mem he)
    rw [hchars, List.length_append, List.length_cons, List.length_cons] at hlength
    show Reads _ (escaped e.1 ++ ": " ++ e.2.line).toList e
    rw [hchars]
    exact reads_member (ih e he (by omega))

/-- A character of ASCII that is seen, or a space. -/
def isVisible (c : Char) : Bool := 32 ≤ c.toNat && c.toNat ≤ 126

theorem isVisible_of_isWordChar {c : Char} (h : isWordChar c = true) : isVisible c = true := by
  simp only [isWordChar, Char.isAlphanum, Char.isAlpha, Char.isUpper, Char.isLower, Char.isDigit,
    Bool.or_eq_true, Bool.and_eq_true, decide_eq_true_eq, beq_iff_eq, UInt32.le_iff_toNat_le,
    ge_iff_le] at h
  obtain ((h | rfl) | rfl) | rfl := h
  · change ((65 ≤ c.toNat ∧ c.toNat ≤ 90) ∨ (97 ≤ c.toNat ∧ c.toNat ≤ 122)) ∨
      (48 ≤ c.toNat ∧ c.toNat ≤ 57) at h
    simp only [isVisible, Bool.and_eq_true, decide_eq_true_eq]
    omega
  all_goals rfl

theorem all_hex (width n : Nat) : (Quoted.hex width n).all isVisible = true := by
  induction width generalizing n with
  | zero => rfl
  | succ width ih =>
    have hdigit : ∀ m < 16, isVisible (Nat.digitChar m) = true := by decide
    rw [Quoted.hex, List.all_append, ih]
    simpa using hdigit _ (Nat.mod_lt n (by decide))

theorem all_units (n : Nat) : (units n).all isVisible = true := by
  have hunit : ∀ m, (unit m).all isVisible = true := fun m => by
    rw [unit, List.all_append, all_hex]
    rfl
  unfold units
  split
  · exact hunit n
  · rw [List.all_append, hunit, hunit]
    rfl

theorem all_escapedChar (c : Char) : (escapedChar c).all isVisible = true := by
  unfold escapedChar
  split_ifs with hquote hline hreturn htab hback hfeed hvisible
  · obtain rfl | rfl := hquote <;> rfl
  · rfl
  · rfl
  · rfl
  · rfl
  · rfl
  · simpa [isVisible] using hvisible
  · exact all_units c.toNat

theorem all_escaped (s : String) : (escaped s).toList.all isVisible = true := by
  rw [escaped, String.toList_ofList, List.all_append, List.all_append, List.all_flatMap]
  simp [all_escapedChar, isVisible]

theorem all_intercalate {ms : List String} (h : ∀ m ∈ ms, m.toList.all isVisible = true) :
    ([',', ' '].intercalate (ms.map String.toList)).all isVisible = true := by
  induction ms with
  | nil => rfl
  | cons m ms ih =>
    obtain ⟨hm, hms⟩ := List.forall_mem_cons.1 h
    cases ms with
    | nil => simpa [List.intercalate_singleton] using hm
    | cons n ms =>
      rw [List.map_cons, List.map_cons, List.intercalate_cons_cons, List.all_append,
        List.all_append, hm, ← List.map_cons, ih hms]
      rfl

theorem all_enclosed {front back : String} {ms : List String}
    (hfront : front.toList.all isVisible = true) (hback : back.toList.all isVisible = true)
    (h : ∀ m ∈ ms, m.toList.all isVisible = true) :
    (Value.enclosed front back ms).toList.all isVisible = true := by
  rw [toList_enclosed, List.all_append, List.all_append, hfront, all_intercalate h, hback]
  rfl

theorem IsWord.all_isVisible {cs : List Char} (h : IsWord cs) : cs.all isVisible = true :=
  List.all_eq_true.2 fun c hc => isVisible_of_isWordChar (h.chars c hc)

theorem all_line {d : Doc} (h : d.Wordy) : d.line.toList.all isVisible = true := by
  induction h with
  | word h => exact h.all_isVisible
  | text s => exact all_escaped s
  | @array ds _ ih =>
    rw [Doc.line, Doc.lines_eq_map]
    exact all_enclosed rfl rfl (List.forall_mem_map.2 ih)
  | @object ms _ ih =>
    rw [Doc.line, Doc.memberLines_eq_map]
    refine all_enclosed rfl rfl (List.forall_mem_map.2 fun m hm => ?_)
    rw [String.toList_append, String.toList_append, List.all_append, List.all_append,
      all_escaped, ih m hm]
    rfl

/-- A line of fields is one line, and one object with the members that the fields make. -/
theorem read?_of_line? {f : Fields} {s : String} (h : line? f = some s) :
    s.toList.all isVisible = true ∧
      ∃ ms, Doc.ofEntries? f = some ms ∧ read? s = some (.object ms) := by
  obtain ⟨ms, hms, rfl⟩ := Option.map_eq_some_iff.1 h
  have hwordy : (Doc.object ms).Wordy := .object (wordy_of_ofEntries? f hms)
  refine ⟨all_line hwordy, ms, hms, ?_⟩
  have hread := reads_line hwordy le_rfl [] (by simp)
  rw [List.append_nil] at hread
  unfold read?
  rw [← String.length_toList, hread]

theorem map_fst_of_ofEntries? {f : Fields} {ms : List (String × Doc)}
    (h : Doc.ofEntries? f = some ms) : ms.map (·.1) = f.map (·.1) := by
  induction f generalizing ms with
  | nil =>
    cases h
    rfl
  | cons e f ih =>
    obtain ⟨d, ms, -, hms, rfl⟩ := Doc.ofEntries?_cons_eq_some_iff.1 h
    rw [List.map_cons, List.map_cons, ih hms]

theorem lookup_of_ofEntries? {f : Fields} {ms : List (String × Doc)}
    (h : Doc.ofEntries? f = some ms) (k : String) :
    ms.lookup k = (f.get? k).bind Doc.ofValue? := by
  induction f generalizing ms with
  | nil =>
    cases h
    rfl
  | cons e f ih =>
    obtain ⟨d, ms, hd, hms, rfl⟩ := Doc.ofEntries?_cons_eq_some_iff.1 h
    rw [List.lookup_cons, Fields.get?, ih hms]
    by_cases hk : e.1 = k
    · simp [hk, hd]
    · have hne : (k == e.1) = false := beq_eq_false_iff_ne.2 (Ne.symm hk)
      simp [hk, hne]

theorem exists_ofEntries?_iff {f : Fields} :
    (∃ ms, Doc.ofEntries? f = some ms) ↔ ∀ e ∈ f, ∃ d, Doc.ofValue? e.2 = some d := by
  induction f with
  | nil => exact iff_of_true ⟨[], rfl⟩ (by simp)
  | cons e f ih =>
    rw [List.forall_mem_cons, ← ih]
    constructor
    · rintro ⟨_, h⟩
      obtain ⟨d, ms, hd, hms, -⟩ := Doc.ofEntries?_cons_eq_some_iff.1 h
      exact ⟨⟨d, hd⟩, ms, hms⟩
    · rintro ⟨⟨d, hd⟩, ms, hms⟩
      exact ⟨_, Doc.ofEntries?_cons_eq_some_iff.2 ⟨d, ms, hd, hms, rfl⟩⟩

theorem exists_ofValues?_iff {vs : List Value} :
    (∃ ds, Doc.ofValues? vs = some ds) ↔ ∀ v ∈ vs, ∃ d, Doc.ofValue? v = some d := by
  induction vs with
  | nil => exact iff_of_true ⟨[], rfl⟩ (by simp)
  | cons v vs ih =>
    rw [List.forall_mem_cons, ← ih]
    constructor
    · rintro ⟨_, h⟩
      obtain ⟨d, ds, hd, hds, -⟩ := Doc.ofValues?_cons_eq_some_iff.1 h
      exact ⟨⟨d, hd⟩, ds, hds⟩
    · rintro ⟨⟨d, hd⟩, ds, hds⟩
      exact ⟨_, Doc.ofValues?_cons_eq_some_iff.2 ⟨d, ds, hd, hds, rfl⟩⟩

end Pipeline.Log.Json
