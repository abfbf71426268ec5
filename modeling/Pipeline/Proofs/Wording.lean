import Pipeline.Proofs.Item
import Mathlib.Algebra.Group.Nat.Defs
import Mathlib.Logic.Function.Iterate
import Mathlib.Order.Lattice

namespace Pipeline

namespace Value

open Connection

variable {room : Room} {calls : List String} {n : Nat} {v : Value}

/-- Whether so many calls may be nested. -/
def Room.Allows (room : Room) (n : Nat) : Prop := ∀ m, room = some m → n ≤ m

def Room.less (room : Room) (n : Nat) : Room := room.map (· - n)

namespace Room

theorem allows_some_iff {m : Nat} : Allows (some m) n ↔ n ≤ m := by simp [Allows]

theorem allows_zero (room : Room) : room.Allows 0 := fun _ _ => Nat.zero_le _

theorem Allows.mono {m n : Nat} (h : room.Allows n) (hmn : m ≤ n) : room.Allows m :=
  fun k hk => hmn.trans (h k hk)

theorem allows_max_iff {m n : Nat} : room.Allows (max m n) ↔ room.Allows m ∧ room.Allows n := by
  simp only [Allows, Nat.max_le, imp_and, forall_and]

theorem allows_less_iff {k : Nat} (h : room.Allows k) :
    (room.less k).Allows n ↔ room.Allows (n + k) := by
  cases room with
  | none => simp [less, Allows]
  | some m =>
    rw [less, Option.map_some, allows_some_iff, allows_some_iff]
    rw [allows_some_iff] at h
    omega

theorem inside_eq_ok_iff {r : Room} :
    room.inside calls = .ok r ↔ room.Allows calls.length ∧ r = room.less calls.length := by
  cases room with
  | none => simp [inside, Allows, less, eq_comm]
  | some n =>
    rw [allows_some_iff]
    induction calls generalizing n with
    | nil => simp [inside, less, eq_comm]
    | cons doing calls ih =>
      cases n with
      | zero => simp [inside]
      | succ n =>
        rw [inside, ih, List.length_cons, Nat.add_le_add_iff_right, less, less, Option.map_some,
          Option.map_some, Nat.add_sub_add_right]

/-- What needs room inside calls needs room for these calls besides. -/
theorem exists_inside_iff {α : Type} {go : Room → Except Fault α} {P : Prop}
    (h : ∀ r, (∃ a, go r = .ok a) ↔ P ∧ r.Allows n) :
    (∃ a, (room.inside calls >>= go) = .ok a) ↔ P ∧ room.Allows (n + calls.length) := by
  simp only [bind_eq_ok_iff, inside_eq_ok_iff]
  constructor
  · rintro ⟨a, r, ⟨hcalls, rfl⟩, ha⟩
    obtain ⟨hP, hn⟩ := (h _).1 ⟨a, ha⟩
    exact ⟨hP, (allows_less_iff hcalls).1 hn⟩
  · rintro ⟨hP, hn⟩
    have hcalls := hn.mono (Nat.le_add_left _ n)
    obtain ⟨a, ha⟩ := (h _).2 ⟨hP, (allows_less_iff hcalls).2 hn⟩
    exact ⟨a, _, ⟨hcalls, rfl⟩, ha⟩

end Room

mutual

/-- How many calls are nested inside the one that makes the literal of a value. -/
def nesting : Value → Nat
  | tuple items => nestingOf items
  | list items => nestingOf items
  | set [] => 0
  | set items => nestingOf items + 1
  | frozenSet [] => 0
  | frozenSet items => nestingOf items + 1
  | dict entries => nestingOfEntries entries
  | mapping entries => nestingOfPairs entries
  | connection t h => max (nesting t) (nesting h) + 3
  | _ => 0

def nestingOf : List Value → Nat
  | [] => 0
  | v :: rest => max (nesting v + 1) (nestingOf rest)

def nestingOfEntries : List (String × Value) → Nat
  | [] => 0
  | (_, v) :: rest => max (nesting v + 1) (nestingOfEntries rest)

def nestingOfPairs : List (Value × Value) → Nat
  | [] => 0
  | (k, v) :: rest => max (max (nesting k) (nesting v) + 1) (nestingOfPairs rest)

end

mutual

/-- Whether no whole number in a value is too long and every object in it has a literal. -/
def Spellable : Value → Prop
  | int n => (Nat.toDigits 10 n.natAbs).length ≤ Number.Read.digitLimit
  | tuple items => SpellableAll items
  | list items => SpellableAll items
  | set items => SpellableAll items
  | frozenSet items => SpellableAll items
  | dict entries => SpellableEntries entries
  | mapping entries => SpellablePairs entries
  | connection t h => Spellable t ∧ Spellable h
  | foreign (.object _ (.inl _)) => False
  | _ => True

def SpellableAll : List Value → Prop
  | [] => True
  | v :: rest => Spellable v ∧ SpellableAll rest

def SpellableEntries : List (String × Value) → Prop
  | [] => True
  | (_, v) :: rest => Spellable v ∧ SpellableEntries rest

def SpellablePairs : List (Value × Value) → Prop
  | [] => True
  | (k, v) :: rest => (Spellable k ∧ Spellable v) ∧ SpellablePairs rest

end

theorem exists_digits_iff {n : Int} :
    (∃ s, digits n = .ok s) ↔ (Nat.toDigits 10 n.natAbs).length ≤ Number.Read.digitLimit := by
  unfold digits
  split
  · simp_all
  · simp_all

section

variable {α β γ ε : Type} {x : Except ε α} {y : Except ε β}

theorem exists_map_iff {f : α → β} :
    (∃ b, (x >>= fun a => pure (f a)) = .ok b) ↔ ∃ a, x = .ok a := by
  cases x <;> simp [bind, Except.bind, pure, Except.pure]

theorem exists_both_iff {f : α → β → γ} :
    (∃ c, (x >>= fun a => y >>= fun b => pure (f a b)) = .ok c) ↔
      (∃ a, x = .ok a) ∧ ∃ b, y = .ok b := by
  cases x <;> cases y <;> simp [bind, Except.bind, pure, Except.pure]

theorem exists_three_iff {δ : Type} {z : Except ε γ} {f : α → β → γ → δ} :
    (∃ d, (x >>= fun a => y >>= fun b => z >>= fun c => pure (f a b c)) = .ok d) ↔
      ((∃ a, x = .ok a) ∧ ∃ b, y = .ok b) ∧ ∃ c, z = .ok c := by
  cases x <;> cases y <;> cases z <;> simp [bind, Except.bind, pure, Except.pure]

end

mutual

/-- A value has a literal exactly when nothing in it speaks against it and its calls have room. -/
theorem exists_spell_iff (v : Value) (room : Room) :
    (∃ s, v.spell room = .ok s) ↔ v.Spellable ∧ room.Allows v.nesting := by
  have hleaf : ∀ {s : String}, (∃ t, Except.ok s = (.ok t : Except Fault String)) ↔
      True ∧ room.Allows 0 := by
    intro s
    exact iff_of_true ⟨s, rfl⟩ ⟨trivial, room.allows_zero⟩
  cases v with
  | int n =>
    rw [spell, exists_digits_iff]
    exact (and_iff_left room.allows_zero).symm
  | tuple items => exact exists_map_iff.trans (exists_spellAll_iff items room)
  | list items => exact exists_map_iff.trans (exists_spellAll_iff items room)
  | set items =>
    cases items with
    | nil => exact hleaf
    | cons w ws =>
      exact Room.exists_inside_iff fun r => exists_map_iff.trans (exists_spellAll_iff (w :: ws) r)
  | frozenSet items =>
    cases items with
    | nil => exact hleaf
    | cons w ws =>
      exact Room.exists_inside_iff fun r => exists_map_iff.trans (exists_spellAll_iff (w :: ws) r)
  | dict entries => exact exists_map_iff.trans (exists_spellEntries_iff entries room)
  | mapping entries => exact exists_map_iff.trans (exists_spellPairs_iff entries room)
  | connection t h =>
    refine Room.exists_inside_iff fun r => Room.exists_inside_iff fun r => ?_
    rw [exists_both_iff, exists_spell_iff t r, exists_spell_iff h r, Room.allows_max_iff]
    exact and_and_and_comm
  | foreign f =>
    cases f with
    | object kind literal =>
      cases literal with
      | inl r => exact iff_of_false (by simp [spell]) fun h => h.1
      | inr s => exact hleaf
    | _ => exact hleaf
  | _ => exact hleaf

theorem exists_spellAll_iff (vs : List Value) (room : Room) :
    (∃ ss, spellAll vs room = .ok ss) ↔ SpellableAll vs ∧ room.Allows (nestingOf vs) := by
  cases vs with
  | nil => exact iff_of_true ⟨[], rfl⟩ ⟨trivial, room.allows_zero⟩
  | cons v vs =>
    rw [SpellableAll, nestingOf, Room.allows_max_iff, and_and_and_comm,
      ← exists_spellAll_iff vs room, and_right_comm]
    refine Room.exists_inside_iff fun r => ?_
    rw [exists_both_iff, exists_spell_iff v r, and_right_comm]

theorem exists_spellEntries_iff (es : List (String × Value)) (room : Room) :
    (∃ ss, spellEntries es room = .ok ss) ↔
      SpellableEntries es ∧ room.Allows (nestingOfEntries es) := by
  match es with
  | [] => exact iff_of_true ⟨[], rfl⟩ ⟨trivial, room.allows_zero⟩
  | (k, v) :: es =>
    rw [SpellableEntries, nestingOfEntries, Room.allows_max_iff, and_and_and_comm,
      ← exists_spellEntries_iff es room, and_right_comm]
    refine Room.exists_inside_iff fun r => ?_
    rw [exists_both_iff, exists_spell_iff v r, and_right_comm]

theorem exists_spellPairs_iff (es : List (Value × Value)) (room : Room) :
    (∃ ss, spellPairs es room = .ok ss) ↔
      SpellablePairs es ∧ room.Allows (nestingOfPairs es) := by
  match es with
  | [] => exact iff_of_true ⟨[], rfl⟩ ⟨trivial, room.allows_zero⟩
  | (k, v) :: es =>
    rw [SpellablePairs, nestingOfPairs, Room.allows_max_iff, and_and_and_comm,
      ← exists_spellPairs_iff es room, and_right_comm]
    refine Room.exists_inside_iff fun r => ?_
    rw [exists_three_iff, exists_spell_iff k r, exists_spell_iff v r, Room.allows_max_iff,
      and_and_and_comm, and_right_comm]

end

end Value

namespace Connection

open Value

variable {room : Room} {v : Value}

end Connection

end Pipeline
