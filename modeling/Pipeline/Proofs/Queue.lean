import Pipeline.Graph.Frontier
import Mathlib.Data.List.Basic

namespace Pipeline

namespace Entry

variable {a b c : Entry}

theorem le_iff : a.le b ↔ a.rank < b.rank ∨ a.rank = b.rank ∧ a.name ≤ b.name := by
  simp [le]

theorem le_refl (a : Entry) : a.le a := le_iff.2 (.inr ⟨rfl, String.le_refl _⟩)

theorem le_trans (hab : a.le b) (hbc : b.le c) : a.le c := by
  rw [le_iff] at *
  obtain hab | ⟨hab, hn⟩ := hab <;> obtain hbc | ⟨hbc, hm⟩ := hbc
  · exact .inl (by omega)
  · exact .inl (by omega)
  · exact .inl (by omega)
  · exact .inr ⟨by omega, String.le_trans hn hm⟩

theorem le_total (a b : Entry) : a.le b ∨ b.le a := by
  rw [le_iff, le_iff]
  obtain h | h | h := Nat.lt_trichotomy a.rank b.rank
  · exact .inl (.inl h)
  · obtain hn | hn := String.le_total a.name b.name
    · exact .inl (.inr ⟨h, hn⟩)
    · exact .inr (.inr ⟨h.symm, hn⟩)
  · exact .inr (.inl h)

theorem sorted_insert {q : List Entry} (e : Entry) (h : q.Pairwise fun x y => x.le y) :
    (e.insert q).Pairwise fun x y => x.le y := by
  induction q with
  | nil => exact List.pairwise_singleton _ _
  | cons x rest ih =>
    have hp := List.pairwise_cons.1 h
    simp only [insert]
    split
    · rename_i hex
      refine List.pairwise_cons.2 ⟨fun y hy => ?_, h⟩
      obtain rfl | hy := List.mem_cons.1 hy
      · exact hex
      · exact le_trans hex (hp.1 y hy)
    · rename_i hex
      refine List.pairwise_cons.2 ⟨fun y hy => ?_, ih hp.2⟩
      obtain rfl | hy := mem_insert.1 hy
      · exact (le_total x y).resolve_right hex
      · exact hp.1 y hy

end Entry

namespace Frontier

variable {entry entry' : String → Entry} {f : Frontier} {s : String}

/-- The queue ascends and holds every member under its present entry. -/
structure InOrder (entry : String → Entry) (f : Frontier) : Prop where
  ascending : f.queue.Pairwise fun x y => x.le y
  held : ∀ s ∈ f.members, entry s ∈ f.queue

theorem InOrder.empty : InOrder entry .empty := ⟨.nil, by simp [Frontier.empty]⟩

theorem InOrder.congr (h : f.InOrder entry) (he : ∀ s ∈ f.members, entry s = entry' s) :
    f.InOrder entry' :=
  ⟨h.ascending, fun s hs => he s hs ▸ h.held s hs⟩

theorem InOrder.discard (h : f.InOrder entry) (s : String) : (f.discard s).InOrder entry :=
  ⟨h.ascending, fun t ht => h.held t (mem_members_discard.1 ht).1⟩

theorem nodup_add (h : f.members.Nodup) (e : Entry) : (f.add e).members.Nodup := by
  unfold add
  split
  · exact h
  · rename_i he
    exact List.nodup_cons.2 ⟨he, h⟩

theorem nodup_addAll (h : f.members.Nodup) (es : List Entry) : (f.addAll es).members.Nodup := by
  induction es generalizing f with
  | nil => exact h
  | cons e es ih => exact ih (nodup_add h e)

theorem nodup_discard (h : f.members.Nodup) (s : String) : (f.discard s).members.Nodup :=
  h.filter _

theorem mem_queue_add {e x : Entry} (h : x ∈ (f.add e).queue) : x = e ∨ x ∈ f.queue := by
  unfold add at h
  split at h
  · exact .inr h
  · exact Entry.mem_insert.1 h

theorem queue_subset_add (f : Frontier) (e : Entry) : f.queue ⊆ (f.add e).queue := by
  intro x hx
  unfold add
  split
  · exact hx
  · exact Entry.mem_insert.2 (.inr hx)

theorem mem_queue_addAll {es : List Entry} {x : Entry} (h : x ∈ (f.addAll es).queue) :
    x ∈ es ∨ x ∈ f.queue := by
  induction es generalizing f with
  | nil => exact .inr h
  | cons e es ih =>
    obtain hx | hx := ih (f := f.add e) h
    · exact .inl (List.mem_cons_of_mem _ hx)
    · obtain rfl | hx := mem_queue_add hx
      · exact .inl List.mem_cons_self
      · exact .inr hx

theorem mem_members_addAll {es : List Entry} :
    s ∈ (f.addAll es).members ↔ (∃ e ∈ es, e.name = s) ∨ s ∈ f.members := by
  induction es generalizing f with
  | nil => simp [addAll]
  | cons e es ih =>
    rw [addAll, List.foldl_cons, ← addAll, ih, mem_members_add]
    simp only [List.mem_cons, exists_eq_or_imp, eq_comm (a := s)]
    rw [or_left_comm, or_assoc]

theorem ascending_add {e : Entry} (h : f.queue.Pairwise fun x y => x.le y) :
    (f.add e).queue.Pairwise fun x y => x.le y := by
  unfold add
  split
  · exact h
  · exact Entry.sorted_insert _ h

theorem entry_mem_queue_add (hs : (entry s).name = s) {t : String}
    (ht : t ∈ (f.add (entry s)).members) (hf : t ∉ f.members) :
    entry t ∈ (f.add (entry s)).queue := by
  have hts : t = s := hs ▸ (mem_members_add.1 ht).resolve_right hf
  subst hts
  rw [add, hs, if_neg hf]
  exact Entry.mem_insert.2 (.inl rfl)

theorem InOrder.add (h : f.InOrder entry) (hs : (entry s).name = s) :
    (f.add (entry s)).InOrder entry := by
  refine ⟨ascending_add h.ascending, fun t ht => ?_⟩
  by_cases hf : t ∈ f.members
  · exact queue_subset_add _ _ (h.held t hf)
  · exact entry_mem_queue_add hs ht hf

theorem InOrder.add_discard (h : (f.discard s).InOrder entry) {t : String}
    (ht : (entry t).name = t) : ((f.add (entry t)).discard s).InOrder entry := by
  refine ⟨ascending_add h.ascending, fun u hu => ?_⟩
  obtain ⟨hu, hus⟩ := mem_members_discard.1 hu
  by_cases hf : u ∈ f.members
  · exact queue_subset_add _ _ (h.held u (mem_members_discard.2 ⟨hf, hus⟩))
  · exact entry_mem_queue_add ht hu hf

theorem InOrder.addAll_discard (h : (f.discard s).InOrder entry)
    (hn : ∀ t, (entry t).name = t) (ts : List String) :
    ((f.addAll (ts.map entry)).discard s).InOrder entry := by
  induction ts generalizing f with
  | nil => exact h
  | cons t ts ih => exact ih (h.add_discard (hn t))

/-- What a pop does: the entries in front belong to no member, the next one to the stage that is
taken. -/
theorem next_cases (members : List String) (q : List Entry) :
    ((∀ x ∈ q, x.name ∉ members) ∧ next members q = (none, [])) ∨
      ∃ gone x rest, q = gone ++ x :: rest ∧ (∀ y ∈ gone, y.name ∉ members) ∧
        x.name ∈ members ∧ next members q = (some x.name, rest) := by
  induction q with
  | nil => exact .inl ⟨by simp, rfl⟩
  | cons e q ih =>
    by_cases he : e.name ∈ members
    · exact .inr ⟨[], e, q, rfl, by simp, he, by simp [next, he]⟩
    · obtain ⟨hq, hn⟩ | ⟨gone, x, rest, rfl, hg, hx, hn⟩ := ih
      · exact .inl ⟨by simpa [he] using hq, by simp [next, he, hn]⟩
      · refine .inr ⟨e :: gone, x, rest, rfl, ?_, hx, by simp [next, he, hn]⟩
        simpa [he] using hg

theorem InOrder.pop_eq_none_iff (h : f.InOrder entry) (hn : ∀ t, (entry t).name = t) :
    f.pop.1 = none ↔ f.members = [] := by
  constructor
  · intro hp
    obtain ⟨hq, -⟩ | ⟨_, x, _, -, -, -, hs⟩ := next_cases f.members f.queue
    · apply List.eq_nil_iff_forall_not_mem.2
      intro s hs
      exact hq _ (h.held s hs) ((hn s).symm ▸ hs)
    · simp [pop, hs] at hp
  · intro hm
    obtain ⟨-, hs⟩ | ⟨_, x, _, -, -, hx, -⟩ := next_cases f.members f.queue
    · simp [pop, hs]
    · simp [hm] at hx

theorem pop_snd_of_none (h : f.pop.1 = none) : f.pop.2 = ⟨f.members, []⟩ := by
  obtain ⟨-, hn⟩ | ⟨_, x, _, -, -, -, hn⟩ := next_cases f.members f.queue
  · show Frontier.mk f.members (next f.members f.queue).2 = _
    rw [hn]
  · simp [pop, hn] at h

theorem members_pop (f : Frontier) : f.pop.2.members = f.members := rfl

theorem queue_pop_sublist (f : Frontier) : f.pop.2.queue.Sublist f.queue := by
  obtain ⟨-, h⟩ | ⟨gone, x, rest, hq, -, -, h⟩ := next_cases f.members f.queue
  · simp [pop, h]
  · show (next f.members f.queue).2.Sublist f.queue
    rw [h, hq]
    exact (List.sublist_cons_self x rest).trans (List.sublist_append_right gone (x :: rest))

theorem InOrder.pop_discard (h : f.InOrder entry) (hn : ∀ t, (entry t).name = t)
    (hs : f.pop.1 = some s) : (f.pop.2.discard s).InOrder entry := by
  refine ⟨h.ascending.sublist (queue_pop_sublist f), fun t ht => ?_⟩
  obtain ⟨ht, hne⟩ := mem_members_discard.1 ht
  show entry t ∈ (next f.members f.queue).2
  obtain ⟨-, hp⟩ | ⟨gone, x, rest, hq, hg, -, hp⟩ := next_cases f.members f.queue
  · simp [pop, hp] at hs
  · have hx : x.name = s := by simpa [pop, hp] using hs
    have hmem := h.held t ht
    rw [hq, List.mem_append, List.mem_cons] at hmem
    rw [hp]
    obtain hmem | hmem | hmem := hmem
    · exact absurd ((hn t).symm ▸ ht) (hg _ hmem)
    · exact absurd (by rw [← hx, ← hmem, hn]) hne
    · exact hmem

theorem InOrder.pop_le (h : f.InOrder entry) (hn : ∀ t, (entry t).name = t)
    (hs : f.pop.1 = some s) :
    ∃ x ∈ f.queue, x.name = s ∧ s ∈ f.members ∧ ∀ t ∈ f.members, x.le (entry t) := by
  obtain ⟨-, hp⟩ | ⟨gone, x, rest, hq, hg, hx, hp⟩ := next_cases f.members f.queue
  · simp [pop, hp] at hs
  · have hxs : x.name = s := by simpa [pop, hp] using hs
    refine ⟨x, by simp [hq], hxs, hxs ▸ hx, fun t ht => ?_⟩
    have hmem := h.held t ht
    have hasc := h.ascending
    rw [hq] at hmem hasc
    obtain hmem | hmem := List.mem_append.1 hmem
    · exact absurd ((hn t).symm ▸ ht) (hg _ hmem)
    · obtain hmem | hmem := List.mem_cons.1 hmem
      · exact hmem ▸ Entry.le_refl x
      · exact (List.pairwise_cons.1 (List.pairwise_append.1 hasc).2.1).1 _ hmem

end Frontier

end Pipeline
