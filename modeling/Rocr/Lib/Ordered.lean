import Mathlib

/-!
# Strictly increasing lists

Ordered containers keep their keys in a strictly increasing list.  The
iterator walks of such a container (`begin`, `rbegin`, `lower_bound`,
`upper_bound`, a backward scan with `--it`) are then searches of that list,
and each search is pinned down by an order statement: `find?` returns the
least element with a property and a search of the reversed list the greatest.

Every later invariant is phrased with membership and order only, never with
positions in a list, and these lemmas are the bridge.
-/

namespace Ordered

variable {α : Type} [LinearOrder α]

/-- `find?` on a strictly increasing list returns its least element
satisfying the predicate. -/
theorem find?_eq_some_iff {l : List α} (hl : l.Pairwise (· < ·))
    {p : α → Bool} {a : α} :
    l.find? p = some a ↔ a ∈ l ∧ p a ∧ ∀ b ∈ l, p b → a ≤ b := by
  induction l with
  | nil => simp
  | cons x xs ih =>
      rw [List.pairwise_cons] at hl
      by_cases hx : p x
      · rw [List.find?_cons_of_pos hx, Option.some.injEq]
        constructor
        · rintro rfl
          refine ⟨List.mem_cons_self, hx, ?_⟩
          intro b hb _
          rcases List.mem_cons.mp hb with rfl | hb
          · exact le_rfl
          · exact (hl.1 b hb).le
        · rintro ⟨ha, _, hle⟩
          have hax : a ≤ x := hle x List.mem_cons_self hx
          rcases List.mem_cons.mp ha with rfl | ha
          · rfl
          · exact absurd hax (not_le.mpr (hl.1 a ha))
      · rw [List.find?_cons_of_neg hx, ih hl.2]
        constructor
        · rintro ⟨ha, hp, hle⟩
          refine ⟨List.mem_cons_of_mem _ ha, hp, ?_⟩
          intro b hb hpb
          rcases List.mem_cons.mp hb with rfl | hb
          · exact absurd hpb hx
          · exact hle b hb hpb
        · rintro ⟨ha, hp, hle⟩
          rcases List.mem_cons.mp ha with rfl | ha
          · exact absurd hp hx
          · exact ⟨ha, hp, fun b hb => hle b (List.mem_cons_of_mem _ hb)⟩

/-- A search of the reversed list returns the greatest element satisfying the
predicate: the loop `while (!p(*it)) --it;` started at the last element. -/
theorem find?_reverse_eq_some_iff {l : List α} (hl : l.Pairwise (· < ·))
    {p : α → Bool} {a : α} :
    l.reverse.find? p = some a ↔ a ∈ l ∧ p a ∧ ∀ b ∈ l, p b → b ≤ a := by
  induction l generalizing a with
  | nil => simp
  | cons x xs ih =>
      rw [List.pairwise_cons] at hl
      rw [List.reverse_cons, List.find?_append]
      cases h : xs.reverse.find? p with
      | some c =>
          obtain ⟨hc, hpc, hlec⟩ := (ih hl.2).mp h
          rw [Option.some_or, Option.some.injEq]
          constructor
          · rintro rfl
            refine ⟨List.mem_cons_of_mem _ hc, hpc, ?_⟩
            intro b hb hpb
            rcases List.mem_cons.mp hb with rfl | hb
            · exact (hl.1 _ hc).le
            · exact hlec b hb hpb
          · rintro ⟨ha, _, hle⟩
            have hca : c ≤ a := hle c (List.mem_cons_of_mem _ hc) hpc
            rcases List.mem_cons.mp ha with rfl | ha
            · exact absurd hca (not_le.mpr (hl.1 c hc))
            · exact le_antisymm hca (hlec a ha ‹_›)
      | none =>
          have hnone : ∀ b ∈ xs, ¬ p b := by
            simpa [List.find?_eq_none] using h
          rw [Option.none_or, List.find?_singleton]
          by_cases hx : p x
          · rw [if_pos hx, Option.some.injEq]
            constructor
            · rintro rfl
              refine ⟨List.mem_cons_self, hx, ?_⟩
              intro b hb hpb
              rcases List.mem_cons.mp hb with rfl | hb
              · exact le_rfl
              · exact absurd hpb (hnone b hb)
            · rintro ⟨ha, hp, _⟩
              rcases List.mem_cons.mp ha with rfl | ha
              · rfl
              · exact absurd hp (hnone a ha)
          · rw [if_neg hx]
            simp only [reduceCtorEq, false_iff, not_and]
            intro ha hp
            rcases List.mem_cons.mp ha with rfl | ha
            · exact absurd hp hx
            · exact absurd hp (hnone a ha)

/-- The head of a strictly increasing list is its minimum. -/
theorem head?_eq_some_iff {l : List α} (hl : l.Pairwise (· < ·)) {a : α} :
    l.head? = some a ↔ a ∈ l ∧ ∀ b ∈ l, a ≤ b := by
  have h := find?_eq_some_iff hl (p := fun _ => true) (a := a)
  rw [← List.head?_filter, List.filter_true] at h
  simpa using h

/-- The last element of a strictly increasing list is its maximum. -/
theorem getLast?_eq_some_iff {l : List α} (hl : l.Pairwise (· < ·)) {a : α} :
    l.getLast? = some a ↔ a ∈ l ∧ ∀ b ∈ l, b ≤ a := by
  have h := find?_reverse_eq_some_iff hl (p := fun _ => true) (a := a)
  rw [← List.head?_filter, List.filter_true, List.head?_reverse] at h
  simpa using h


/-- `foldr min b l` is `b` or a member of `l`. -/
theorem foldr_min_mem (l : List α) (b : α) : l.foldr min b = b ∨ l.foldr min b ∈ l := by
  induction l with
  | nil => exact Or.inl rfl
  | cons x xs ih =>
      rw [List.foldr_cons]
      rcases min_choice x (xs.foldr min b) with hx | hx
      · rw [hx]
        exact Or.inr List.mem_cons_self
      · rw [hx]
        rcases ih with ih | ih
        · exact Or.inl ih
        · exact Or.inr (List.mem_cons_of_mem x ih)

/-- `foldr min b l` lies below `b` and below every member of `l`. -/
theorem foldr_min_le (l : List α) (b : α) : l.foldr min b ≤ b ∧ ∀ a ∈ l, l.foldr min b ≤ a := by
  induction l with
  | nil => exact ⟨le_rfl, fun _ ha => absurd ha List.not_mem_nil⟩
  | cons x xs ih =>
      rw [List.foldr_cons]
      refine ⟨(min_le_right _ _).trans ih.1, ?_⟩
      intro a ha
      rcases List.mem_cons.mp ha with rfl | ha
      · exact min_le_left _ _
      · exact (min_le_right _ _).trans (ih.2 a ha)

end Ordered
