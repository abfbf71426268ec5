import Pipeline.Graph.Build
import Mathlib.Data.List.Forall2

namespace Pipeline

namespace Connection

variable {v : Value} {c : Connection} {items : List Value} {cs : List Connection}

/-- What an item comes apart into. A text is not taken apart. -/
def parts? : Value → Option (List Value)
  | .connection t h => some [t, h]
  | .text _ => none
  | v => v.items?

/-- An item stands for a connection when its parts are two texts that are not empty. -/
def Denotes (v : Value) (c : Connection) : Prop :=
  parts? v = some [.text c.tail, .text c.head] ∧ c.tail ≠ "" ∧ c.head ≠ ""

theorem ends_eq_ok_iff {t h : Value} : ends v = .ok (t, h) ↔ parts? v = some [t, h] := by
  cases v
  case text s => simp [ends, parts?]
  case connection t' h' => simp [ends, parts?]
  case foreign f => cases f <;> simp [ends, parts?, Value.items?]
  all_goals
    simp only [ends, parts?]
    split
    · rename_i hi
      simp [hi]
    · rename_i hi
      refine ⟨fun he => by simp at he, fun he => absurd he (hi t h)⟩

theorem ofItem_eq_ok_iff : ofItem v = .ok c ↔ Denotes v c := by
  unfold ofItem Denotes
  cases he : ends v with
  | error f =>
    refine ⟨fun h => by simp [bind, Except.bind] at h, fun h => ?_⟩
    rw [ends_eq_ok_iff.2 h.1] at he
    cases he
  | ok parts =>
    obtain ⟨t, h⟩ := parts
    rw [ends_eq_ok_iff.1 he]
    simp only [bind, Except.bind, Option.some.injEq, List.cons.injEq, and_true]
    constructor
    · intro hc
      cases ht : t.stageName? with
      | none => simp [ht, throw, throwThe, MonadExceptOf.throw] at hc
      | some tail =>
        cases hh : h.stageName? with
        | none => simp [ht, hh, throw, throwThe, MonadExceptOf.throw] at hc
        | some head =>
          simp only [ht, hh, pure, Except.pure, Except.ok.injEq] at hc
          subst hc
          obtain ⟨rfl, htail⟩ := Value.stageName?_eq_some_iff.1 ht
          obtain ⟨rfl, hhead⟩ := Value.stageName?_eq_some_iff.1 hh
          exact ⟨⟨rfl, rfl⟩, htail, hhead⟩
    · rintro ⟨⟨rfl, rfl⟩, ht, hh⟩
      simp [Value.stageName?, ht, hh, pure, Except.pure]

theorem bind_eq_ok_iff {α β ε : Type} {x : Except ε α} {go : α → Except ε β} {b : β} :
    (x >>= go) = .ok b ↔ ∃ a, x = .ok a ∧ go a = .ok b := by
  cases x <;> simp [bind, Except.bind]

theorem mapError_eq_ok_iff {α ε δ : Type} {x : Except ε α} {go : ε → δ} {a : α} :
    x.mapError go = .ok a ↔ x = .ok a := by
  cases x <;> simp [Except.mapError]

theorem mapM_eq_ok_iff {α β ε : Type} {f : α → Except ε β} {xs : List α} {ys : List β} :
    xs.mapM f = .ok ys ↔ List.Forall₂ (fun x y => f x = .ok y) xs ys := by
  induction xs generalizing ys with
  | nil => cases ys <;> simp [pure, Except.pure]
  | cons x xs ih =>
    rw [List.mapM_cons, List.forall₂_cons_left_iff]
    cases hx : f x with
    | error e => simp [bind, Except.bind]
    | ok y =>
      simp only [← ih, Except.ok.injEq]
      cases hxs : xs.mapM f with
      | error e => simp [bind, Except.bind]
      | ok zs => simp [bind, Except.bind, pure, Except.pure, eq_comm]

theorem mapM_ofItem_eq_ok_iff :
    items.mapM ofItem = .ok cs ↔ List.Forall₂ Denotes items cs := by
  simp only [mapM_eq_ok_iff, ofItem_eq_ok_iff]

end Connection

namespace Graph

open Connection

variable {t : TieBreak} {g : Graph} {items : List Value} {cs : List Connection}

theorem ofItems_eq (t : TieBreak) (h : List.Forall₂ Denotes items cs) :
    ofItems t items = ofConnections t cs := by
  simp [ofItems, mapM_ofItem_eq_ok_iff.2 h, Except.mapError, bind, Except.bind]

theorem ofItems_eq_badItem (t : TieBreak) (h : ¬∃ cs, List.Forall₂ Denotes items cs) :
    ∃ f, ofItems t items = .error (.badItem f) := by
  cases hm : items.mapM ofItem with
  | error f => exact ⟨f, by simp [ofItems, hm, Except.mapError, bind, Except.bind]⟩
  | ok cs => exact absurd ⟨cs, mapM_ofItem_eq_ok_iff.1 hm⟩ h

theorem exists_of_ofItems_eq_ok (h : ofItems t items = .ok g) :
    ∃ cs, List.Forall₂ Denotes items cs ∧ ofConnections t cs = .ok g := by
  by_cases hcs : ∃ cs, List.Forall₂ Denotes items cs
  · obtain ⟨cs, hcs⟩ := hcs
    exact ⟨cs, hcs, ofItems_eq t hcs ▸ h⟩
  · obtain ⟨f, hf⟩ := ofItems_eq_badItem t hcs
    rw [hf] at h
    cases h

end Graph

end Pipeline
