import Pipeline.Log.Json
import Pipeline.Number.Read
import Mathlib.Data.List.Forall2
import Mathlib.Tactic.IntervalCases

namespace Pipeline.Log.Json

open Text Text.Escaped Number.Read

def isWordChar (c : Char) : Bool := c.isAlphanum || c == '-' || c == '+' || c == '.'

def unit? (cs : List Char) : Option (Nat × List Char) :=
  match cs with
  | '\\' :: 'u' :: rest =>
    if (rest.take 4).length = 4 ∧ (rest.take 4).all (isDigit 16) then
      some (natOf 16 (rest.take 4), rest.drop 4)
    else none
  | _ => none

def letters : List (Char × Char) :=
  [('"', '"'), ('\\', '\\'), ('/', '/'), ('n', '\n'), ('r', '\r'), ('t', '\t'),
    ('b', Char.ofNat 8), ('f', Char.ofNat 12)]

def pair? (n m : Nat) : Option Char :=
  if n < 0xdc00 ∧ 0xdc00 ≤ m ∧ m < 0xe000 then
    some (Char.ofNat (0x10000 + (n - 0xd800) * 0x400 + (m - 0xdc00)))
  else none

def char? (cs : List Char) : Option (Char × List Char) :=
  match cs with
  | '\\' :: 'u' :: _ =>
    (unit? cs).bind fun r =>
      if r.1 < 0xd800 ∨ 0xe000 ≤ r.1 then some (Char.ofNat r.1, r.2)
      else (unit? r.2).bind fun q => (pair? r.1 q.1).map (·, q.2)
  | '\\' :: c :: rest => (letters.lookup c).map (·, rest)
  | c :: rest => if 32 ≤ c.toNat ∧ c ≠ '"' ∧ c ≠ '\\' then some (c, rest) else none
  | [] => none

def body? : Nat → List Char → Option (List Char × List Char)
  | 0, _ => none
  | n + 1, cs =>
    if cs.head? = some '"' then some ([], cs.tail)
    else (char? cs).bind fun r => (body? n r.2).map fun q => (r.1 :: q.1, q.2)

def text? (cs : List Char) : Option (String × List Char) :=
  match cs with
  | '"' :: rest => (body? rest.length rest).map fun r => (String.ofList r.1, r.2)
  | _ => none

section

variable {α : Type} (one : List Char → Option (α × List Char)) (back : Char)

def separated? : Nat → List Char → Option (List α × List Char)
  | 0, _ => none
  | n + 1, cs =>
    (one cs).bind fun r =>
      match r.2 with
      | ',' :: ' ' :: rest => (separated? n rest).map fun q => (r.1 :: q.1, q.2)
      | c :: rest => if c = back then some ([r.1], rest) else none
      | [] => none

def enclosed? (cs : List Char) : Option (List α × List Char) :=
  if cs.head? = some back then some ([], cs.tail) else separated? one back cs.length cs

end

def member? (one : List Char → Option (Doc × List Char)) (cs : List Char) :
    Option ((String × Doc) × List Char) :=
  (text? cs).bind fun r =>
    match r.2 with
    | ':' :: ' ' :: rest => (one rest).map fun q => ((r.1, q.1), q.2)
    | _ => none

def word? (cs : List Char) : Option (Doc × List Char) :=
  if cs.takeWhile isWordChar = [] then none
  else some (.word (String.ofList (cs.takeWhile isWordChar)), cs.dropWhile isWordChar)

/-- The document at the front of a text, if it is nested at most so deep. -/
def doc? : Nat → List Char → Option (Doc × List Char)
  | 0, _ => none
  | n + 1, cs =>
    match cs with
    | '"' :: _ => (text? cs).map fun r => (.text r.1, r.2)
    | '[' :: rest => (enclosed? (doc? n) ']' rest).map fun r => (.array r.1, r.2)
    | '\x7b' :: rest =>
      (enclosed? (member? (doc? n)) '\x7d' rest).map fun r => (.object r.1, r.2)
    | _ => word? cs

def read? (s : String) : Option Doc :=
  match doc? (s.length + 1) s.toList with
  | some (d, []) => some d
  | _ => none

/-- What a reader takes from the front, unless a word goes on behind it. -/
def Reads {α : Type} (one : List Char → Option (α × List Char)) (cs : List Char) (a : α) : Prop :=
  ∀ rest : List Char, (∀ c ∈ rest.head?, isWordChar c = false) → one (cs ++ rest) = some (a, rest)

variable {c : Char} {cs rest : List Char} {n : Nat}

theorem digit?_digitChar (h : n < 16) : digit? 16 (Nat.digitChar n) = some n := by
  interval_cases n <;> decide

theorem length_hex (width n : Nat) : (Quoted.hex width n).length = width := by
  induction width generalizing n with
  | zero => rfl
  | succ width ih => simp [Quoted.hex, ih]

theorem isDigit_of_mem_hex {width : Nat} (h : c ∈ Quoted.hex width n) : isDigit 16 c = true := by
  induction width generalizing n with
  | zero => cases h
  | succ width ih =>
    rw [Quoted.hex, List.mem_append, List.mem_singleton] at h
    obtain h | rfl := h
    · exact ih h
    · rw [isDigit, digit?_digitChar (Nat.mod_lt _ (by decide))]
      rfl

theorem natOf_hex (width n : Nat) : natOf 16 (Quoted.hex width n) = n % 16 ^ width := by
  induction width generalizing n with
  | zero => exact (Nat.mod_one n).symm
  | succ width ih =>
    have hstep : natOf 16 (Quoted.hex (width + 1) n) =
        16 * natOf 16 (Quoted.hex width (n / 16)) + n % 16 := by
      rw [Quoted.hex, natOf, List.foldl_append, List.foldl_cons, List.foldl_nil,
        digit?_digitChar (Nat.mod_lt _ (by decide))]
      rfl
    rw [hstep, ih, Nat.pow_succ', Nat.mod_mul, Nat.add_comm]

theorem unit?_unit (h : n < 0x10000) : unit? (unit n ++ rest) = some (n, rest) := by
  have htake : (Quoted.hex 4 n ++ rest).take 4 = Quoted.hex 4 n :=
    List.take_left' (length_hex 4 n)
  have hdrop : (Quoted.hex 4 n ++ rest).drop 4 = rest := List.drop_left' (length_hex 4 n)
  have hall : (Quoted.hex 4 n).all (isDigit 16) = true :=
    List.all_eq_true.2 fun c hc => isDigit_of_mem_hex hc
  simp only [unit?, unit, List.cons_append, List.nil_append]
  rw [htake, hdrop, length_hex, natOf_hex, if_pos ⟨rfl, hall⟩]
  exact congrArg (fun m => some (m, rest)) (Nat.mod_eq_of_lt h)

theorem not_surrogate (c : Char) : c.toNat < 0xd800 ∨ 0xe000 ≤ c.toNat ∧ c.toNat < 0x110000 := by
  obtain h | h := c.valid
  · exact .inl h
  · exact .inr ⟨h.1, h.2⟩

theorem char?_unit (n : Nat) (hn : n < 0x10000) :
    char? (unit n ++ rest) =
      if n < 0xd800 ∨ 0xe000 ≤ n then some (Char.ofNat n, rest)
      else (unit? rest).bind fun q => (pair? n q.1).map (·, q.2) := by
  show (unit? (unit n ++ rest)).bind _ = _
  rw [unit?_unit hn]
  rfl

theorem char?_units (c : Char) : char? (units c.toNat ++ rest) = some (c, rest) := by
  have hc := not_surrogate c
  unfold units
  split
  · rename_i hsmall
    rw [char?_unit _ hsmall, if_pos (by omega), Char.ofNat_toNat]
  · rename_i hlarge
    -- The offset from U+10000 has twenty bits, ten in each unit.
    have hpair : pair? (0xd800 + (c.toNat - 0x10000) / 0x400)
        (0xdc00 + (c.toNat - 0x10000) % 0x400) = some c := by
      rw [pair?, if_pos (by omega)]
      have hsum : 0x10000 + (0xd800 + (c.toNat - 0x10000) / 0x400 - 0xd800) * 0x400 +
        (0xdc00 + (c.toNat - 0x10000) % 0x400 - 0xdc00) = c.toNat := by omega
      rw [hsum, Char.ofNat_toNat]
    rw [List.append_assoc, char?_unit _ (by omega), if_neg (by omega), unit?_unit (by omega),
      Option.bind_some, hpair]
    rfl

theorem char?_escapedChar (c : Char) : char? (escapedChar c ++ rest) = some (c, rest) := by
  unfold escapedChar
  split_ifs with hquote hline hreturn htab hback hfeed hvisible
  · obtain rfl | rfl := hquote <;> rfl
  · subst hline
    rfl
  · subst hreturn
    rfl
  · subst htab
    rfl
  · obtain rfl : c = Char.ofNat 8 := by rw [← hback, Char.ofNat_toNat]
    rfl
  · obtain rfl : c = Char.ofNat 12 := by rw [← hfeed, Char.ofNat_toNat]
    rfl
  · have hplain : c ≠ '\\' := fun h => hquote (.inr h)
    have hmark : c ≠ '"' := fun h => hquote (.inl h)
    rw [List.singleton_append, char?]
    · rw [if_pos ⟨hvisible.1, hmark, hplain⟩]
    · rintro rest' rfl rfl
      exact hplain rfl
    · rintro d rest' rfl rfl
      exact hplain rfl
  · exact char?_units c

/-- No character is written with a quote in front, so none ends the text it stands in. -/
theorem escapedChar_eq_cons (c : Char) : ∃ d ds, escapedChar c = d :: ds ∧ d ≠ '"' := by
  unfold escapedChar
  split_ifs with hquote hline hreturn htab hback hfeed hvisible
  · exact ⟨_, _, rfl, by decide⟩
  · exact ⟨_, _, rfl, by decide⟩
  · exact ⟨_, _, rfl, by decide⟩
  · exact ⟨_, _, rfl, by decide⟩
  · exact ⟨_, _, rfl, by decide⟩
  · exact ⟨_, _, rfl, by decide⟩
  · exact ⟨_, _, rfl, fun h => hquote (.inl h)⟩
  · unfold units
    split <;> exact ⟨_, _, rfl, by decide⟩

theorem body?_escaped (h : (cs.flatMap escapedChar).length < n) :
    body? n (cs.flatMap escapedChar ++ '"' :: rest) = some (cs, rest) := by
  obtain ⟨n, rfl⟩ := Nat.exists_eq_add_one.2 (Nat.zero_lt_of_lt h)
  induction cs generalizing n with
  | nil => rfl
  | cons c cs ih =>
    obtain ⟨d, ds, hd, hne⟩ := escapedChar_eq_cons c
    have hhead : (escapedChar c ++ (cs.flatMap escapedChar ++ '"' :: rest)).head? ≠ some '"' := by
      rw [hd]
      simpa using hne
    obtain ⟨n, rfl⟩ : ∃ k, n = k + 1 := by
      rw [List.flatMap_cons, List.length_append, hd, List.length_cons] at h
      exact ⟨n - 1, by omega⟩
    have hrest : (cs.flatMap escapedChar).length < n + 1 := by
      rw [List.flatMap_cons, List.length_append, hd, List.length_cons] at h
      omega
    rw [List.flatMap_cons, List.append_assoc, body?, if_neg hhead, char?_escapedChar,
      Option.bind_some, ih n hrest, Option.map_some]

theorem toList_escaped_append (s : String) (rest : List Char) :
    (escaped s).toList ++ rest = '"' :: (s.toList.flatMap escapedChar ++ '"' :: rest) := by
  simp [escaped]

theorem text?_escaped (s : String) (rest : List Char) :
    text? ((escaped s).toList ++ rest) = some (s, rest) := by
  have hlength : (s.toList.flatMap escapedChar).length <
      (s.toList.flatMap escapedChar ++ '"' :: rest).length := by
    rw [List.length_append, List.length_cons]
    omega
  rw [toList_escaped_append, text?, body?_escaped hlength, Option.map_some, String.ofList_toList]

section

variable {α : Type} {one : List Char → Option (α × List Char)} {back : Char}
  {ms : List (List Char)} {as : List α}

theorem length_le_intercalate (ms : List (List Char)) :
    ms.length ≤ ([',', ' '].intercalate ms).length + 1 := by
  induction ms with
  | nil => exact Nat.zero_le _
  | cons m ms ih =>
    cases ms with
    | nil => exact Nat.le_add_left _ _
    | cons n ms =>
      rw [List.intercalate_cons_cons, List.length_append, List.length_append, List.length_cons]
      simp only [List.length_cons, List.length_nil] at ih ⊢
      omega

theorem length_le_of_mem_intercalate {m : List Char} (sep : List Char) (h : m ∈ ms) :
    m.length ≤ (sep.intercalate ms).length := by
  induction ms with
  | nil => cases h
  | cons n ms ih =>
    cases ms with
    | nil =>
      rw [List.intercalate_singleton, List.mem_singleton.1 h]
    | cons n' ms =>
      rw [List.intercalate_cons_cons, List.length_append, List.length_append]
      obtain rfl | h := List.mem_cons.1 h
      · omega
      · have hle := ih h
        omega

theorem separated?_last {a : α} (hcomma : back ≠ ',') (h : one cs = some (a, back :: rest)) :
    separated? one back (n + 1) cs = some ([a], rest) := by
  rw [separated?, h, Option.bind_some]
  split
  · rename_i heq
    exact absurd (List.cons.inj heq).1 hcomma
  · rename_i heq
    obtain ⟨rfl, rfl⟩ := List.cons.inj heq
    exact if_pos rfl
  · rename_i heq
    cases heq

theorem separated?_more {a : α} (h : one cs = some (a, ',' :: ' ' :: rest)) :
    separated? one back (n + 1) cs =
      (separated? one back n rest).map fun q => (a :: q.1, q.2) := by
  rw [separated?, h, Option.bind_some]
  rfl

theorem separated?_intercalate (hback : isWordChar back = false) (hcomma : back ≠ ',')
    {m : List Char} {a : α} (hm : Reads one m a) (hms : List.Forall₂ (Reads one) ms as)
    (hn : ms.length < n) :
    separated? one back n ([',', ' '].intercalate (m :: ms) ++ back :: rest) =
      some (a :: as, rest) := by
  obtain ⟨n, rfl⟩ := Nat.exists_eq_add_one.2 (Nat.zero_lt_of_lt hn)
  induction hms generalizing m a n with
  | nil =>
    rw [List.intercalate_singleton]
    exact separated?_last hcomma (hm _ (by simpa using hback))
  | @cons m' a' ms as hm' hms ih =>
    obtain ⟨n, rfl⟩ := Nat.exists_eq_add_one.2 (Nat.zero_lt_of_lt (Nat.lt_of_succ_lt_succ hn))
    rw [List.intercalate_cons_cons, List.append_assoc, List.append_assoc, List.cons_append,
      List.cons_append, List.nil_append, separated?_more (hm _ (by simp [isWordChar])),
      ih hm' n (Nat.lt_of_succ_lt_succ hn)]
    rfl

theorem Reads.eq_cons {m : List Char} {a : α} (hm : Reads one m a) (hnil : one [] = none)
    (hclosed : ∀ cs, one (back :: cs) = none) : ∃ c cs, m = c :: cs ∧ c ≠ back := by
  have hsome : one m = some (a, []) := by
    have h := hm [] (by simp)
    rwa [List.append_nil] at h
  cases m with
  | nil =>
    rw [hnil] at hsome
    cases hsome
  | cons c cs =>
    refine ⟨c, cs, rfl, ?_⟩
    rintro rfl
    rw [hclosed] at hsome
    cases hsome

theorem enclosed?_intercalate (hback : isWordChar back = false) (hcomma : back ≠ ',')
    (hnil : one [] = none) (hclosed : ∀ cs, one (back :: cs) = none)
    (hms : List.Forall₂ (Reads one) ms as) :
    enclosed? one back ([',', ' '].intercalate ms ++ back :: rest) = some (as, rest) := by
  cases hms with
  | nil =>
    rw [List.intercalate_nil]
    exact if_pos rfl
  | @cons m a ms as hm hms =>
    obtain ⟨c, cs, rfl, hc⟩ := hm.eq_cons hnil hclosed
    have hlength := length_le_intercalate ((c :: cs) :: ms)
    rw [List.length_cons] at hlength
    have hhead : ([',', ' '].intercalate ((c :: cs) :: ms) ++ back :: rest).head? ≠ some back := by
      cases ms with
      | nil => simpa [List.intercalate_singleton] using hc
      | cons m ms => simpa [List.intercalate_cons_cons] using hc
    rw [enclosed?, if_neg hhead]
    apply separated?_intercalate hback hcomma hm hms
    rw [List.length_append, List.length_cons]
    omega

end

end Pipeline.Log.Json
