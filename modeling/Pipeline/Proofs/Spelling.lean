import Pipeline.Proofs.Capitals
import Pipeline.Proofs.Merge
import Pipeline.Settings.Load

namespace Pipeline.Settings

def names : List String := ["tie_break", "log_level", "json_logs"]

namespace Names

open Text

variable {cs ds : List Char} {f g : Fields} {k x : String}

/-- A name that leads into no table. -/
def Flat (k : String) : Prop := '.' ∉ pointed k.toList

instance (k : String) : Decidable (Flat k) := inferInstanceAs (Decidable ('.' ∉ pointed k.toList))

def kept (k : String) : String := Case.upper (Blank.strip k)

/-- The name of the field that a name spells, in any case and with blanks around it. -/
def spelled (k : String) : String := Case.lower (kept k)

theorem pointed_of_flat (h : '.' ∉ pointed cs) :
    pointed cs = cs ∧ beforePair cs = cs := by
  induction cs using pointed.induct with
  | case1 rest ih => simp [pointed] at h
  | case2 c rest hpair ih =>
    have hpointed : pointed (c :: rest) = c :: pointed rest := by
      rw [pointed]
      exact hpair
    rw [hpointed, List.mem_cons, not_or] at h
    obtain ⟨hrest, hbefore⟩ := ih h.2
    rw [hpointed, hrest, beforePair, hbefore]
    · exact ⟨rfl, rfl⟩
    · exact hpair
  | case3 => exact ⟨rfl, rfl⟩

theorem point_notMem_pointed_cons {c : Char} :
    '.' ∉ pointed (c :: cs) ↔
      c ≠ '.' ∧ ¬(c = '_' ∧ cs.head? = some '_') ∧ '.' ∉ pointed cs := by
  by_cases hpair : c = '_' ∧ cs.head? = some '_'
  · obtain ⟨rfl, hhead⟩ := hpair
    obtain ⟨rest, rfl⟩ := List.head?_eq_some_iff.1 hhead
    simp [pointed]
  · have hpointed : pointed (c :: cs) = c :: pointed cs := by
      rw [pointed]
      rintro rest rfl rfl
      exact hpair ⟨rfl, rfl⟩
    rw [hpointed, List.mem_cons, not_or]
    simp [hpair, eq_comm]

theorem point_notMem_pointed_append (hds : ∀ d ∈ ds, d ≠ '.' ∧ d ≠ '_')
    (hcs : '.' ∉ pointed cs) : '.' ∉ pointed (ds ++ cs) := by
  induction ds with
  | nil => exact hcs
  | cons d ds ih =>
    obtain ⟨hpoint, hbar⟩ := hds d List.mem_cons_self
    rw [List.cons_append, point_notMem_pointed_cons]
    exact ⟨hpoint, fun h => hbar h.1, ih fun e he => hds e (List.mem_cons_of_mem _ he)⟩

theorem eq_iff_of_mem_upperChar {c d e : Char} (hm : Case.IsMark d) (he : e ∈ Case.upperChar c) :
    e = d ↔ c = d := by
  have h := Case.mark_congr (p := (· == d)) (fun c hc => (beq_iff_eq.1 hc) ▸ hm) he
  simpa using Bool.eq_iff_iff.1 h

theorem head?_of_head?_flatMap (h : (cs.flatMap Case.upperChar).head? = some '_') :
    cs.head? = some '_' := by
  cases cs with
  | nil => exact h
  | cons c cs =>
    obtain ⟨d, ds, hd⟩ := List.exists_cons_of_ne_nil (Case.upperChar_ne_nil c)
    rw [List.flatMap_cons, hd, List.cons_append, List.head?_cons, Option.some.injEq] at h
    rw [List.head?_cons, Option.some.injEq]
    exact (eq_iff_of_mem_upperChar (Case.isMark_iff.2 (by simp)) (hd ▸ List.mem_cons_self)).1 h

theorem Flat.upper (h : Flat k) : Flat (Case.upper k) := by
  unfold Flat Case.upper at *
  rw [String.toList_ofList]
  generalize k.toList = cs at h
  induction cs with
  | nil => exact h
  | cons c cs ih =>
    obtain ⟨hpoint, hpair, hcs⟩ := point_notMem_pointed_cons.1 h
    rw [List.flatMap_cons]
    by_cases hbar : c = '_'
    · subst hbar
      rw [Case.upperChar_of_isMark (Case.isMark_iff.2 (by simp)), List.singleton_append,
        point_notMem_pointed_cons]
      exact ⟨hpoint, fun hp => hpair ⟨rfl, head?_of_head?_flatMap hp.2⟩, ih hcs⟩
    · refine point_notMem_pointed_append (fun d hd => ⟨?_, ?_⟩) (ih hcs)
      · exact mt (eq_iff_of_mem_upperChar (Case.isMark_iff.2 (by simp)) hd).1 hpoint
      · exact mt (eq_iff_of_mem_upperChar (Case.isMark_iff.2 (by simp)) hd).1 hbar

theorem inCapitals_of_flat (h : Flat k) : inCapitals k = Case.upper k := by
  simp [inCapitals, (pointed_of_flat h).2]

theorem set_of_flat (nested : Bool) (f : Fields) (h : Flat k) (v : Value) :
    set nested f k v = f.put (kept k) v := by
  have hno : '.' ∉ k.toList := (pointed_of_flat h).1 ▸ h
  simp [set, kept, (pointed_of_flat h).1, hno]

def renamed (h : String → String) (f : Fields) : Fields := f.map fun e => (h e.1, e.2)

theorem mem_keys_renamed {h : String → String} :
    x ∈ (renamed h f).map (·.1) ↔ ∃ k ∈ f.map (·.1), h k = x := by
  simp [renamed]

theorem last?_renamed (p : String → Bool) (h : String → String) (f : Fields) :
    (renamed h f).last? p = f.last? fun k => p (h k) := by
  rw [Fields.last?, renamed, List.filter_map, List.getLast?_map, Option.map_map]
  rfl

theorem setAll_of_flat (nested : Bool) (f : Fields) (hg : ∀ e ∈ g, Flat e.1) :
    setAll nested f g = f.update (renamed kept g) := by
  induction g generalizing f with
  | nil => rfl
  | cons e g ih =>
    show setAll nested (set nested f e.1 e.2) g = _
    rw [set_of_flat nested f (hg e List.mem_cons_self),
      ih _ fun d hd => hg d (List.mem_cons_of_mem _ hd)]
    rfl

theorem merged_of_flat (hf : ∀ e ∈ f, Flat e.1) :
    merged f = Fields.update [] (renamed Case.upper f) := by
  unfold merged Fields.update renamed
  rw [List.foldl_map]
  apply List.foldl_ext
  intro kept e he
  rw [inCapitals_of_flat (hf e he)]

theorem get?_fields (f : Fields) (x : String) :
    (fields f).get? x = f.last? fun k => Case.lower k = x := by
  have hfields : fields f = Fields.update [] (renamed Case.lower f) := by
    unfold fields Fields.update renamed
    rw [List.foldl_map]
  rw [hfields, Fields.get?_update, last?_renamed, Fields.get?, Option.or_none]

/-- Entries that lead into no table and have one spelling for a field, be it in any case. -/
structure Plain (f : Fields) : Prop where
  flat : ∀ e ∈ f, Flat e.1
  once : ∀ e ∈ f, ∀ d ∈ f, spelled e.1 ∈ Settings.names → spelled e.1 = spelled d.1 →
    Case.upper e.1 = Case.upper d.1

theorem kept_eq (k : String) : kept k = Blank.strip (Case.upper k) := Case.upper_strip k

theorem kept_upper (k : String) : kept (Case.upper k) = kept k := by
  rw [kept_eq, Case.upper_upper, ← kept_eq]

theorem spelled_upper (k : String) : spelled (Case.upper k) = spelled k := by
  rw [spelled, kept_upper, spelled]

theorem Plain.exists_upper (hf : Plain f) (hx : x ∈ Settings.names) :
    ∃ k, ∀ e ∈ f, spelled e.1 = x → Case.upper e.1 = k := by
  by_cases h : ∃ d ∈ f, spelled d.1 = x
  · obtain ⟨d, hd, hdx⟩ := h
    exact ⟨Case.upper d.1, fun e he hex => hf.once e he d hd (hex ▸ hx) (hex.trans hdx.symm)⟩
  · exact ⟨x, fun e he hex => absurd ⟨e, he, hex⟩ h⟩

theorem mem_keys_merged (hf : Plain f) {k : String} :
    k ∈ (merged f).map (·.1) ↔ ∃ d ∈ f, Case.upper d.1 = k := by
  rw [merged_of_flat hf.flat, Fields.mem_keys_update, mem_keys_renamed]
  simp

theorem Plain.last?_merged (hf : Plain f) (hx : x ∈ Settings.names) :
    (merged f).last? (spelled · = x) = f.last? (spelled · = x) := by
  obtain ⟨k, hk⟩ := hf.exists_upper hx
  have hsame : ∀ e ∈ renamed Case.upper f, decide (spelled e.1 = x) = true → e.1 = k := by
    intro e he hex
    obtain ⟨d, hd, rfl⟩ := List.mem_map.1 he
    rw [decide_eq_true_eq, spelled_upper] at hex
    exact hk d hd hex
  rw [merged_of_flat hf.flat,
    Fields.last?_update_of_same (p := (spelled · = x)) (Nat.zero_le _) hsame, last?_renamed,
    Fields.last?_nil, Option.or_none]
  simp only [spelled_upper]

theorem Plain.ofFile (hf : Plain f) :
    Names.ofFile f = Fields.update [] (renamed kept (merged f)) := by
  apply setAll_of_flat
  intro e he
  obtain ⟨d, hd, hde⟩ := (mem_keys_merged hf).1 (List.mem_map_of_mem he)
  exact hde ▸ (hf.flat d hd).upper

theorem Plain.last?_ofFile (hf : Plain f) (hx : x ∈ Settings.names) :
    ((Names.ofFile f).filter (Case.lower ·.1 = x)).length ≤ 1 ∧
      (Names.ofFile f).last? (Case.lower · = x) = f.last? (spelled · = x) := by
  obtain ⟨k, hk⟩ := hf.exists_upper hx
  have hsame : ∀ e ∈ renamed kept (merged f),
      decide (Case.lower e.1 = x) = true → e.1 = Blank.strip k := by
    intro e he hex
    obtain ⟨c, hc, rfl⟩ := List.mem_map.1 he
    obtain ⟨d, hd, hdc⟩ := (mem_keys_merged hf).1 (List.mem_map_of_mem hc)
    have hdx : spelled d.1 = x := by
      rw [← spelled_upper, hdc]
      exact of_decide_eq_true hex
    show kept c.1 = _
    rw [← hdc, kept_upper, kept_eq, hk d hd hdx]
  rw [hf.ofFile]
  refine ⟨Fields.length_filter_update_of_same (p := (Case.lower · = x)) hsame, ?_⟩
  rw [Fields.last?_update_of_same (p := (Case.lower · = x)) (Nat.zero_le _) hsame, last?_renamed,
    Fields.last?_nil, Option.or_none, ← hf.last?_merged hx]
  rfl

theorem get?_fields_setAll (hf : Plain f) (hg : Plain g) (hx : x ∈ Settings.names) :
    (fields (setAll true (Names.ofFile f) g)).get? x =
      (g.last? (spelled · = x)).or (f.last? (spelled · = x)) := by
  -- The variables that spell the field are kept under one name, so the last of them is left; the
  -- file's entry may stand under another spelling, in front of it.
  obtain ⟨k, hk⟩ := hg.exists_upper hx
  obtain ⟨hlength, hlast⟩ := hf.last?_ofFile hx
  have hsame : ∀ e ∈ renamed kept g,
      decide (Case.lower e.1 = x) = true → e.1 = Blank.strip k := by
    intro e he hex
    obtain ⟨d, hd, rfl⟩ := List.mem_map.1 he
    rw [← hk d hd (of_decide_eq_true hex)]
    exact kept_eq d.1
  rw [get?_fields, setAll_of_flat _ _ hg.flat,
    Fields.last?_update_of_same (p := (Case.lower · = x)) hlength hsame, last?_renamed, hlast]
  rfl

end Names

end Pipeline.Settings
