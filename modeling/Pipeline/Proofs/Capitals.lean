import Mathlib
import Pipeline.Text.Blank
import Pipeline.Text.Case

namespace Pipeline.Text.Case

/-- Whether no mapping to capitals moves a code point that lies `step` by `step` between `a`
and `b`. -/
def untouched (a b step : Nat) : Bool :=
  (Nat.blt b 0xd800 || Nat.blt 0xdfff a && Nat.blt b 0x110000) &&
    (upperRuns.all fun r => Nat.blt b r.first || Nat.blt r.last a ||
      (Nat.beq a b || Nat.beq step 2) && Nat.beq r.step 2 && Nat.beq ((a + r.first) % 2) 1) &&
    upperLong.all fun p => Nat.blt b p.1 || Nat.blt p.1 a

variable {a b step n : Nat} {c d : Char}

theorem upperChar_cases (c : Char) :
    upperChar c = [c] ∨
      (∃ p ∈ upperLong, p.1 = c.toNat ∧ upperChar c = p.2.map Char.ofNat) ∨
      ∃ r ∈ upperRuns, r.covers c.toNat ∧ upperChar c = [Char.ofNat (r.apply c.toNat)] := by
  unfold upperChar mapChar
  cases hl : upperLong.lookup c.toNat with
  | some image =>
    obtain ⟨l, m, hlm, -⟩ := List.lookup_eq_some_iff.1 hl
    exact .inr (.inl ⟨(c.toNat, image), by simp [hlm], rfl, rfl⟩)
  | none =>
    cases hr : upperRuns.find? (·.covers c.toNat) with
    | none => exact .inl rfl
    | some r =>
      have hc := List.find?_some (p := fun r => Run.covers r c.toNat) hr
      exact .inr (.inr ⟨r, List.mem_of_find?_eq_some hr, hc, rfl⟩)

theorem Run.covers_iff {r : Run} :
    r.covers n = true ↔ r.first ≤ n ∧ n ≤ r.last ∧ (n - r.first) % r.step = 0 := by
  simp [Run.covers, and_assoc]

theorem toNat_of_untouched (h : untouched a b step = true) (ha : a ≤ n) (hb : n ≤ b) :
    (Char.ofNat n).toNat = n := by
  simp only [untouched, Bool.and_eq_true, Bool.or_eq_true, Nat.blt_eq] at h
  have hvalid : n.isValidChar := by
    unfold Nat.isValidChar
    omega
  rw [Char.ofNat, dif_pos hvalid]
  rfl

theorem upperChar_of_untouched (h : untouched a b step = true) (ha : a ≤ n) (hb : n ≤ b)
    (hn : (n - a) % step = 0) : upperChar (Char.ofNat n) = [Char.ofNat n] := by
  have hv := toNat_of_untouched h ha hb
  simp only [untouched, Bool.and_eq_true, Bool.or_eq_true, List.all_eq_true, Nat.blt_eq,
    Nat.beq_eq] at h
  obtain ⟨⟨-, hruns⟩, hlong⟩ := h
  obtain h | ⟨p, hp, hpn, -⟩ | ⟨r, hr, hc, -⟩ := upperChar_cases (Char.ofNat n)
  · exact h
  · have := hlong p hp
    omega
  · obtain ⟨hfirst, hlast, hstep⟩ := Run.covers_iff.1 hc
    obtain (hlt | hlt) | ⟨⟨htwo, hrtwo⟩, hodd⟩ := hruns r hr
    · omega
    · omega
    · -- The code points lie between those that the run covers.
      rw [hrtwo] at hstep
      obtain rfl | rfl := htwo <;> omega

def images : List (Nat × Nat × Nat) :=
  (upperRuns.map fun r => (r.image, r.image + (r.last - r.first), r.step)) ++
    upperLong.flatMap fun p => p.2.map fun n => (n, n, 1)

theorem exists_image (hd : d ∈ upperChar c) :
    upperChar c = [c] ∨ ∃ i ∈ images, ∃ n, d = Char.ofNat n ∧ i.1 ≤ n ∧ n ≤ i.2.1 ∧
      (n - i.1) % i.2.2 = 0 := by
  obtain h | ⟨p, hp, -, h⟩ | ⟨r, hr, hc, h⟩ := upperChar_cases c
  · exact .inl h
  · rw [h] at hd
    obtain ⟨n, hn, rfl⟩ := List.mem_map.1 hd
    refine .inr ⟨(n, n, 1), List.mem_append_right _ ?_, n, rfl, Nat.le_refl n, Nat.le_refl n, ?_⟩
    · exact List.mem_flatMap.2 ⟨p, hp, List.mem_map.2 ⟨n, hn, rfl⟩⟩
    · exact Nat.mod_one _
  · rw [h, List.mem_singleton] at hd
    obtain ⟨hfirst, hlast, hstep⟩ := Run.covers_iff.1 hc
    refine .inr ⟨_, List.mem_append_left _ (List.mem_map.2 ⟨r, hr, rfl⟩), _, hd, ?_, ?_, ?_⟩
    · exact Nat.le_add_right _ _
    · exact Nat.add_le_add_left (Nat.sub_le_sub_right hlast _) _
    · rw [Run.apply, Nat.add_sub_cancel_left]
      exact hstep

theorem untouched_images :
    (images.all fun i => untouched i.1 i.2.1 i.2.2) = true := by
  decide +kernel

theorem upperChar_of_mem (hd : d ∈ upperChar c) : upperChar d = [d] := by
  obtain h | ⟨i, hi, n, rfl, hfirst, hlast, hstep⟩ := exists_image hd
  · rw [h, List.mem_singleton] at hd
    rw [hd, h]
  · exact upperChar_of_untouched (List.all_eq_true.1 untouched_images i hi) hfirst hlast hstep

theorem upper_upper (s : String) : upper (upper s) = upper s := by
  unfold upper
  rw [String.toList_ofList, List.flatMap_assoc]
  congr 1
  refine List.flatMap_congr fun c _ => ?_
  rw [List.flatMap_congr fun d hd => upperChar_of_mem hd, List.flatMap_singleton']

def markSpans : List (Nat × Nat) :=
  [(9, 13), (28, 32), (46, 46), (95, 95), (0x85, 0x85), (0xa0, 0xa0), (0x1680, 0x1680),
    (0x2000, 0x200a), (0x2028, 0x2029), (0x202f, 0x202f), (0x205f, 0x205f), (0x3000, 0x3000)]

def IsMark (c : Char) : Prop := ∃ p ∈ markSpans, p.1 ≤ c.toNat ∧ c.toNat ≤ p.2

theorem isMark_iff : IsMark c ↔ Blank.isBlank c = true ∨ c = '.' ∨ c = '_' := by
  have hpoint : c = '.' ↔ c.toNat = 46 := (Char.toNat_inj (d := '.')).symm
  have hbar : c = '_' ↔ c.toNat = 95 := (Char.toNat_inj (d := '_')).symm
  simp only [IsMark, markSpans, Blank.isBlank, List.mem_cons, List.not_mem_nil, or_false,
    exists_eq_or_imp, exists_eq_left, hpoint, hbar, Bool.or_eq_true, Bool.and_eq_true,
    decide_eq_true_eq, beq_iff_eq]
  omega

theorem untouched_marks : (markSpans.all fun p => untouched p.1 p.2 1) = true := by
  decide +kernel

theorem upperChar_of_isMark (hc : IsMark c) : upperChar c = [c] := by
  obtain ⟨p, hp, hfirst, hlast⟩ := hc
  have h := upperChar_of_untouched (List.all_eq_true.1 untouched_marks p hp) hfirst hlast
    (Nat.mod_one _)
  rwa [Char.ofNat_toNat] at h

def unmarked (a b : Nat) : Bool := markSpans.all fun p => Nat.blt b p.1 || Nat.blt p.2 a

theorem unmarked_images : (images.all fun i => unmarked i.1 i.2.1) = true := by
  decide +kernel

theorem not_isMark_of_mem (hc : ¬IsMark c) (hd : d ∈ upperChar c) : ¬IsMark d := by
  obtain h | ⟨i, hi, n, rfl, hfirst, hlast, -⟩ := exists_image hd
  · rw [h, List.mem_singleton] at hd
    rwa [hd]
  · rintro ⟨p, hp, hpfirst, hplast⟩
    have hn := toNat_of_untouched (List.all_eq_true.1 untouched_images i hi) hfirst hlast
    have hspan := List.all_eq_true.1 (List.all_eq_true.1 unmarked_images i hi) p hp
    simp only [Bool.or_eq_true, Nat.blt_eq] at hspan
    omega

theorem upperChar_ne_nil (c : Char) : upperChar c ≠ [] := by
  have hlong : ∀ p ∈ upperLong, p.2 ≠ [] := by decide
  obtain h | ⟨p, hp, -, h⟩ | ⟨r, -, -, h⟩ := upperChar_cases c
  · simp [h]
  · simpa [h] using hlong p hp
  · simp [h]

theorem mark_congr {p : Char → Bool} (hp : ∀ c, p c = true → IsMark c) (hd : d ∈ upperChar c) :
    p d = p c := by
  by_cases hc : IsMark c
  · rw [upperChar_of_isMark hc, List.mem_singleton] at hd
    rw [hd]
  · have hpc : p c = false := Bool.eq_false_iff.2 (mt (hp c) hc)
    have hpd : p d = false := Bool.eq_false_iff.2 (mt (hp d) (not_isMark_of_mem hc hd))
    rw [hpc, hpd]

theorem dropWhile_flatMap {f : Char → List Char} {p : Char → Bool} (hne : ∀ c, f c ≠ [])
    (hp : ∀ c, ∀ d ∈ f c, p d = p c) (l : List Char) :
    (l.flatMap f).dropWhile p = (l.dropWhile p).flatMap f := by
  induction l with
  | nil => rfl
  | cons c l ih =>
    rw [List.flatMap_cons, List.dropWhile_cons]
    split
    · rename_i hc
      rw [List.dropWhile_append_of_pos fun d hd => (hp c d hd).trans hc, ih]
    · rename_i hc
      obtain ⟨d, ds, hf⟩ := List.exists_cons_of_ne_nil (hne c)
      have hd : ¬p d = true := by rwa [hp c d (hf ▸ List.mem_cons_self)]
      rw [List.flatMap_cons, hf, List.cons_append, List.dropWhile_cons_of_neg hd]

/-- Blanks at the ends of a text are the same before and after. -/
theorem upper_strip (s : String) : upper (Blank.strip s) = Blank.strip (upper s) := by
  have hblank : ∀ c, ∀ d ∈ upperChar c, Blank.isBlank d = Blank.isBlank c :=
    fun c d hd => mark_congr (fun c hc => isMark_iff.2 (.inl hc)) hd
  have hreverse : ∀ c, ∀ d ∈ (List.reverse ∘ upperChar) c, Blank.isBlank d = Blank.isBlank c :=
    fun c d hd => hblank c d (List.mem_reverse.1 hd)
  have hne : ∀ c, (List.reverse ∘ upperChar) c ≠ [] :=
    fun c => mt List.reverse_eq_nil_iff.1 (upperChar_ne_nil c)
  unfold upper Blank.strip Blank.stripFront
  rw [String.toList_ofList, String.toList_ofList, dropWhile_flatMap upperChar_ne_nil hblank,
    List.reverse_flatMap, dropWhile_flatMap hne hreverse, List.flatMap_reverse]

end Pipeline.Text.Case
