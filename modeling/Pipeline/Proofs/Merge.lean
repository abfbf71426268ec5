import Pipeline.Proofs.Record
import Mathlib.Data.List.Induction

namespace Pipeline.Fields

variable {f g : Fields} {k l : String} {v : Value}

theorem filter_put (p : String → Bool) (f : Fields) (k : String) (v : Value) :
    (f.put k v).filter (p ·.1) =
      if p k then Fields.put (f.filter (p ·.1)) k v else f.filter (p ·.1) := by
  induction f with
  | nil => by_cases hp : p k = true <;> simp [put, hp]
  | cons e f ih =>
    rw [put]
    by_cases he : e.1 = k
    · subst he
      by_cases hp : p e.1 = true <;> simp [put, hp]
    · by_cases hp : p e.1 = true <;> by_cases hk : p k = true <;>
        simp [put, he, hp, hk, ih]

theorem filter_update (p : String → Bool) (f g : Fields) :
    (f.update g).filter (p ·.1) = Fields.update (f.filter (p ·.1)) (g.filter (p ·.1)) := by
  induction g generalizing f with
  | nil => rfl
  | cons e g ih =>
    show ((f.put e.1 e.2).update g).filter (p ·.1) = _
    rw [ih, filter_put, List.filter_cons]
    split <;> rfl

theorem update_concat (f g : Fields) (e : String × Value) :
    f.update (g ++ [e]) = (f.update g).put e.1 e.2 := by
  simp [update]

/-- The value that stands last under names of a kind. -/
def last? (f : Fields) (p : String → Bool) : Option Value :=
  ((f.filter (p ·.1)).getLast?).map (·.2)

theorem last?_nil (p : String → Bool) : last? [] p = none := rfl

theorem last?_cons (e : String × Value) (f : Fields) (p : String → Bool) :
    last? (e :: f) p = (f.last? p).or (if p e.1 then some e.2 else none) := by
  unfold last?
  rw [List.filter_cons]
  split
  · cases h : (f.filter (p ·.1)).getLast? <;> simp [List.getLast?_cons, h]
  · rw [Option.or_none]

theorem get?_update (f g : Fields) (k : String) :
    (f.update g).get? k = (g.last? (· = k)).or (f.get? k) := by
  induction g generalizing f with
  | nil => rfl
  | cons e g ih =>
    show ((f.put e.1 e.2).update g).get? k = _
    rw [ih, get?_put, last?_cons, Option.or_assoc]
    by_cases he : e.1 = k <;> simp [he]

theorem last?_eq_get? (hf : Keyed f) : f.last? (· = k) = f.get? k := by
  induction f with
  | nil => rfl
  | cons e f ih =>
    obtain ⟨he, hf⟩ := List.nodup_cons.1 hf
    rw [last?_cons, ih hf, get?]
    by_cases hk : e.1 = k
    · subst hk
      simp [get?_eq_none_iff.2 he]
    · simp [hk]

theorem Keyed.update (hf : Keyed f) (g : Fields) : Keyed (f.update g) := by
  induction g generalizing f with
  | nil => exact hf
  | cons e g ih => exact ih (hf.put e.1 e.2)

theorem put_concat {w : Value} (hk : k ∉ f.map (·.1)) :
    Fields.put (f ++ [(k, w)]) k v = f ++ [(k, v)] := by
  induction f with
  | nil => simp [put]
  | cons e f ih =>
    rw [List.map_cons, List.mem_cons, not_or] at hk
    rw [List.cons_append, put, if_neg (Ne.symm hk.1), ih hk.2, List.cons_append]

theorem update_of_same (hf : f.length ≤ 1) (hg : ∀ e ∈ g, e.1 = k) :
    f.update g = (g.getLast?).elim f fun e => f.erase k ++ [(k, e.2)] := by
  have hk : k ∉ (f.erase k).map (·.1) := by simp [erase]
  induction g using List.reverseRecOn with
  | nil => rfl
  | append_singleton g e ih =>
    have he : e.1 = k := hg e (by simp)
    rw [update_concat, ih fun d hd => hg d (by simp [hd]), he, List.getLast?_concat,
      Option.elim_some]
    cases g.getLast? with
    | some d => exact put_concat hk
    | none =>
      obtain rfl | ⟨d, rfl⟩ : f = [] ∨ ∃ d, f = [d] := by
        rwa [← List.length_eq_zero_iff, ← List.length_eq_one_iff,
          ← Nat.le_one_iff_eq_zero_or_eq_one]
      · rfl
      · by_cases hd : d.1 = k <;> simp [put, erase, hd]

theorem length_filter_update_of_same {p : String → Bool} (hg : ∀ e ∈ g, p e.1 = true → e.1 = k) :
    ((Fields.update [] g).filter (p ·.1)).length ≤ 1 := by
  have hsame : ∀ e ∈ g.filter (p ·.1), e.1 = k :=
    fun e he => hg e (List.mem_filter.1 he).1 (List.mem_filter.1 he).2
  rw [filter_update, List.filter_nil, update_of_same (Nat.zero_le _) hsame]
  cases (g.filter (p ·.1)).getLast? <;> simp [erase]

theorem last?_update_of_same {p : String → Bool} (hf : (f.filter (p ·.1)).length ≤ 1)
    (hg : ∀ e ∈ g, p e.1 = true → e.1 = k) :
    (f.update g).last? p = (g.last? p).or (f.last? p) := by
  have hsame : ∀ e ∈ g.filter (p ·.1), e.1 = k :=
    fun e he => hg e (List.mem_filter.1 he).1 (List.mem_filter.1 he).2
  rw [last?, last?, last?, filter_update, update_of_same hf hsame]
  cases (g.filter (p ·.1)).getLast? <;> simp

theorem mem_keys_update : k ∈ (f.update g).map (·.1) ↔ k ∈ f.map (·.1) ∨ k ∈ g.map (·.1) := by
  induction g generalizing f with
  | nil => simp [update]
  | cons e g ih =>
    show k ∈ ((f.put e.1 e.2).update g).map (·.1) ↔ _
    rw [ih, mem_keys_put, List.map_cons, List.mem_cons, or_assoc, or_left_comm]

end Pipeline.Fields
