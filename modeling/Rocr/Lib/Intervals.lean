import Mathlib

/-!
# Sorted lists of closed intervals

A list of closed intervals `[lo, hi]` of natural numbers is kept in increasing
order when each interval is nonempty and starts after the one before it ends
(`SortedFrom b l`: all of them from `b` on).  Its cover is the set of numbers
that lie in one of the intervals (`Covers`).  The intervals of a sorted list
are disjoint: a number covered by one interval is covered by none before or
after it (`SortedFrom.not_covers_pre`, `SortedFrom.not_covers_post`).

An allocator that hands out ranges of an address space and keeps the ranges in
use as such a list changes it in two ways: it puts a new interval into a gap,
or grows the interval before the gap into it (`sortedFrom_insert`); and it
removes a range from the one interval that holds it, leaving nothing, a shorter
interval or two intervals in its place (`sortedFrom_replace`,
`covers_replace`).  Both keep the list sorted; the cover gains, or loses,
exactly the range.

Positions in such a list are what a linked list's links encode, so the lemmas
are stated for a list cut at a position, `pre ++ i :: post`; `take_append_cons`
and `insertIdx_eq_take_append` give that form for `set`, `eraseIdx` and
`insertIdx`.
-/

namespace Intervals

/-- Closed intervals, each nonempty, in increasing order, the first from `b` on. -/
def SortedFrom : Nat → List (Nat × Nat) → Prop
  | _, [] => True
  | b, i :: rest => b ≤ i.1 ∧ i.1 ≤ i.2 ∧ SortedFrom (i.2 + 1) rest

instance decSortedFrom : (b : Nat) → (l : List (Nat × Nat)) → Decidable (SortedFrom b l)
  | _, [] => isTrue trivial
  | _, i :: rest =>
      have := decSortedFrom (i.2 + 1) rest
      inferInstanceAs (Decidable (_ ∧ _ ∧ _))

/-- Where an interval after the list may start: one past the end of the last,
`b` for an empty list. -/
def next : Nat → List (Nat × Nat) → Nat
  | b, [] => b
  | _, i :: rest => next (i.2 + 1) rest

/-- `x` lies in an interval of the list. -/
def Covers (l : List (Nat × Nat)) (x : Nat) : Prop := ∃ i ∈ l, i.1 ≤ x ∧ x ≤ i.2

/-- The half-open range `[lo, hi)` lies in one interval of the list. -/
def Inside (l : List (Nat × Nat)) (lo hi : Nat) : Prop := ∃ i ∈ l, i.1 ≤ lo ∧ hi ≤ i.2 + 1

/-- What is left of `i` once `[s, t]` is taken out of it: the part below `s`
and the part above `t`, each where it is nonempty. -/
def cut (i : Nat × Nat) (s t : Nat) : List (Nat × Nat) :=
  (if i.1 < s then [(i.1, s - 1)] else []) ++ (if t < i.2 then [(t + 1, i.2)] else [])

variable {b c x s t lo hi : Nat} {i j : Nat × Nat} {l pre post mid : List (Nat × Nat)}

@[simp] theorem sortedFrom_nil : SortedFrom b [] := trivial

@[simp] theorem sortedFrom_cons :
    SortedFrom b (i :: l) ↔ b ≤ i.1 ∧ i.1 ≤ i.2 ∧ SortedFrom (i.2 + 1) l := Iff.rfl

@[simp] theorem next_nil : next b [] = b := rfl

@[simp] theorem next_cons : next b (i :: l) = next (i.2 + 1) l := rfl

@[simp] theorem covers_nil : ¬ Covers [] x := by
  simp [Covers]

@[simp] theorem covers_cons : Covers (i :: l) x ↔ (i.1 ≤ x ∧ x ≤ i.2) ∨ Covers l x := by
  simp [Covers]

@[simp] theorem covers_append : Covers (pre ++ post) x ↔ Covers pre x ∨ Covers post x := by
  simp only [Covers, List.mem_append]
  constructor
  · rintro ⟨j, hj | hj, hx⟩
    · exact Or.inl ⟨j, hj, hx⟩
    · exact Or.inr ⟨j, hj, hx⟩
  · rintro (⟨j, hj, hx⟩ | ⟨j, hj, hx⟩)
    · exact ⟨j, Or.inl hj, hx⟩
    · exact ⟨j, Or.inr hj, hx⟩

@[simp] theorem next_append : next b (pre ++ post) = next (next b pre) post := by
  induction pre generalizing b with
  | nil => rfl
  | cons j pre ih => exact ih

theorem sortedFrom_append :
    SortedFrom b (pre ++ post) ↔ SortedFrom b pre ∧ SortedFrom (next b pre) post := by
  induction pre generalizing b with
  | nil => simp
  | cons j pre ih =>
    simp only [List.cons_append, sortedFrom_cons, ih, next_cons]
    tauto

/-! ## Bounds and disjointness -/

/-- Only the first interval sees the lower bound. -/
theorem SortedFrom.mono (h : SortedFrom b l) (hcb : c ≤ b) : SortedFrom c l := by
  cases l with
  | nil => trivial
  | cons j rest =>
    obtain ⟨hb, hj, hrest⟩ := h
    exact ⟨by omega, hj, hrest⟩

/-- A list may start lower whenever its first interval does. -/
theorem SortedFrom.rebase (h : SortedFrom b l) (hc : ∀ j ∈ l.head?, c ≤ j.1) : SortedFrom c l := by
  cases l with
  | nil => trivial
  | cons j rest =>
    obtain ⟨-, hj, hrest⟩ := h
    exact ⟨hc j rfl, hj, hrest⟩

theorem SortedFrom.le_next (h : SortedFrom b l) : b ≤ next b l := by
  induction l generalizing b with
  | nil => exact le_rfl
  | cons j rest ih =>
    obtain ⟨hb, hj, hrest⟩ := h
    have := ih hrest
    simp only [next_cons]
    omega

/-- Every covered number lies in `[b, next b l)`. -/
theorem SortedFrom.covers_bounds (h : SortedFrom b l) (hx : Covers l x) : b ≤ x ∧ x < next b l := by
  induction l generalizing b with
  | nil => exact absurd hx covers_nil
  | cons j rest ih =>
    obtain ⟨hb, hj, hrest⟩ := h
    have hnext := hrest.le_next
    rcases covers_cons.mp hx with hx | hx
    · simp only [next_cons]
      omega
    · have := ih hrest hx
      simp only [next_cons]
      omega

/-- An interval of a sorted list is disjoint from the intervals before it. -/
theorem SortedFrom.not_covers_pre (h : SortedFrom b (pre ++ i :: post)) (hx : i.1 ≤ x) :
    ¬ Covers pre x := by
  intro hpre
  obtain ⟨hp, hi, -, -⟩ := sortedFrom_append.mp h
  have := (hp.covers_bounds hpre).2
  omega

/-- An interval of a sorted list is disjoint from the intervals after it. -/
theorem SortedFrom.not_covers_post (h : SortedFrom b (pre ++ i :: post)) (hx : x ≤ i.2) :
    ¬ Covers post x := by
  intro hpost
  obtain ⟨-, -, -, hrest⟩ := sortedFrom_append.mp h
  have := (hrest.covers_bounds hpost).1
  omega

/-- Every interval of a sorted list is nonempty and starts at or above the bound. -/
theorem SortedFrom.le_of_mem (h : SortedFrom b l) (hi : i ∈ l) : b ≤ i.1 ∧ i.1 ≤ i.2 := by
  induction l generalizing b with
  | nil => cases hi
  | cons j rest ih =>
    obtain ⟨hb, hj, hrest⟩ := h
    rcases List.mem_cons.mp hi with rfl | hi
    · exact ⟨hb, hj⟩
    · have := ih hrest hi
      omega

/-- Every number a sorted list covers lies at or above its first interval. -/
theorem SortedFrom.head_le (h : SortedFrom b l) (hx : Covers l x) : ∀ j ∈ l.head?, j.1 ≤ x := by
  intro j hj
  cases l with
  | nil => cases hj
  | cons k rest =>
    obtain rfl : k = j := by simpa using hj
    have hk : SortedFrom k.1 (k :: rest) := h.rebase fun j' hj' => by
      obtain rfl : k = j' := by simpa using hj'
      exact le_rfl
    exact (hk.covers_bounds hx).1

/-- After a nonempty list the next interval may start one past its last. -/
theorem next_le (hb : b ≤ s) (hl : ∀ j ∈ l.getLast?, j.2 < s) : next b l ≤ s := by
  rcases List.eq_nil_or_concat l with rfl | ⟨l', j, rfl⟩
  · exact hb
  · rw [List.concat_eq_append] at hl ⊢
    have hj := hl j (by simp)
    simp only [next_append, next_cons, next_nil]
    omega

/-- A range between the end of `pre` and the start of `post` is covered by
neither. -/
theorem SortedFrom.not_covers_gap (h : SortedFrom b (pre ++ post)) (hs : next b pre ≤ x)
    (hfit : ∀ j ∈ post.head?, t < j.1) (hx : x ≤ t) : ¬ Covers (pre ++ post) x := by
  obtain ⟨hpre, hpost⟩ := sortedFrom_append.mp h
  rw [covers_append]
  rintro (hc | hc)
  · have := (hpre.covers_bounds hc).2
    omega
  · cases post with
    | nil => exact covers_nil hc
    | cons j rest =>
      have hj := hpost.head_le hc j rfl
      have := hfit j rfl
      omega

/-! ## Changing the list at one position -/

/-- **Insertion.**  An interval that starts after the intervals before it and
ends before the intervals after it keeps the list sorted. -/
theorem sortedFrom_insert (hpre : SortedFrom b pre) (hpost : SortedFrom c post)
    (hs : next b pre ≤ i.1) (hi : i.1 ≤ i.2) (hfit : ∀ j ∈ post.head?, i.2 < j.1) :
    SortedFrom b (pre ++ i :: post) :=
  sortedFrom_append.mpr ⟨hpre, hs, hi, hpost.rebase fun j hj => hfit j hj⟩

/-- **Replacement.**  Intervals `mid` that lie between the end of `pre` and
the end of `i` may take the place of `i`. -/
theorem sortedFrom_replace (h : SortedFrom b (pre ++ i :: post)) (hmid : SortedFrom (next b pre) mid)
    (hnext : next (next b pre) mid ≤ i.2 + 1) : SortedFrom b (pre ++ (mid ++ post)) := by
  obtain ⟨hp, -, -, hrest⟩ := sortedFrom_append.mp h
  exact sortedFrom_append.mpr ⟨hp, sortedFrom_append.mpr ⟨hmid, hrest.mono hnext⟩⟩

/-- What replacing `i` by `mid` does to the cover: when `mid` covers exactly
the part of `i` outside `[s, t]` and `[s, t]` lies in `i`, the cover loses
exactly `[s, t]`. -/
theorem covers_replace (h : SortedFrom b (pre ++ i :: post)) {s t : Nat} (hs : i.1 ≤ s) (ht : t ≤ i.2)
    (hmid : ∀ y, Covers mid y ↔ (i.1 ≤ y ∧ y ≤ i.2) ∧ ¬ (s ≤ y ∧ y ≤ t)) :
    Covers (pre ++ (mid ++ post)) x ↔ Covers (pre ++ i :: post) x ∧ ¬ (s ≤ x ∧ x ≤ t) := by
  simp only [covers_append, covers_cons, hmid]
  by_cases hx : s ≤ x ∧ x ≤ t
  · have hpre := h.not_covers_pre (x := x) (by omega)
    have hpost := h.not_covers_post (x := x) (by omega)
    simp [hx, hpre, hpost]
  · simp only [hx, not_false_eq_true, and_true]

/-- An inserted interval adds exactly itself to the cover. -/
theorem covers_insert : Covers (pre ++ i :: post) x ↔ Covers (pre ++ post) x ∨ (i.1 ≤ x ∧ x ≤ i.2) := by
  simp only [covers_append, covers_cons]
  tauto

/-- Growing `i` up to `e` adds exactly `(i.2, e]` to the cover. -/
theorem covers_grow {e : Nat} (hi : i.1 ≤ i.2) (he : i.2 ≤ e) :
    Covers (pre ++ (i.1, e) :: post) x ↔ Covers (pre ++ i :: post) x ∨ (i.2 + 1 ≤ x ∧ x ≤ e) := by
  simp only [covers_append, covers_cons]
  by_cases hx : i.1 ≤ x ∧ x ≤ e
  · -- `x` lies in the grown interval: in `i` or in the part added to it
    have : (i.1 ≤ x ∧ x ≤ i.2) ∨ (i.2 + 1 ≤ x ∧ x ≤ e) := by omega
    tauto
  · have h1 : ¬ (i.1 ≤ x ∧ x ≤ i.2) := by omega
    have h2 : ¬ (i.2 + 1 ≤ x ∧ x ≤ e) := by omega
    tauto

/-! ## Ranges inside one interval -/

theorem Inside.insert (h : Inside (pre ++ post) lo hi) (j : Nat × Nat) : Inside (pre ++ j :: post) lo hi := by
  obtain ⟨k, hk, hlo, hhi⟩ := h
  refine ⟨k, ?_, hlo, hhi⟩
  simp only [List.mem_append, List.mem_cons] at hk ⊢
  tauto

theorem Inside.grow (h : Inside (pre ++ i :: post) lo hi) (hj : j.1 ≤ i.1) (hj' : i.2 ≤ j.2) :
    Inside (pre ++ j :: post) lo hi := by
  obtain ⟨k, hk, hlo, hhi⟩ := h
  simp only [List.mem_append, List.mem_cons] at hk
  rcases hk with hk | rfl | hk
  · exact ⟨k, by simp [hk], hlo, hhi⟩
  · exact ⟨j, by simp, by omega, by omega⟩
  · exact ⟨k, by simp [hk], hlo, hhi⟩

/-- A range inside the list stays inside when `i` is replaced by `mid`,
provided `mid` holds every range inside `i` that is left. -/
theorem Inside.replace (h : Inside (pre ++ i :: post) lo hi)
    (hmid : i.1 ≤ lo → hi ≤ i.2 + 1 → Inside mid lo hi) : Inside (pre ++ (mid ++ post)) lo hi := by
  obtain ⟨k, hk, hlo, hhi⟩ := h
  simp only [List.mem_append, List.mem_cons] at hk
  rcases hk with hk | rfl | hk
  · exact ⟨k, by simp [hk], hlo, hhi⟩
  · obtain ⟨m, hm, hmlo, hmhi⟩ := hmid hlo hhi
    exact ⟨m, by simp [hm], hmlo, hmhi⟩
  · exact ⟨k, by simp [hk], hlo, hhi⟩

/-! ## Taking a range out of an interval -/

/-- The pieces `cut` leaves are sorted from wherever `i` could start, and end
by the end of `i`. -/
theorem sortedFrom_cut (hb : b ≤ i.1) (hs : i.1 ≤ s) (hst : s ≤ t) (ht : t ≤ i.2) :
    SortedFrom b (cut i s t) ∧ next b (cut i s t) ≤ i.2 + 1 := by
  unfold cut
  split_ifs <;> simp <;> omega

/-- The pieces `cut` leaves cover what `i` covers outside `[s, t]`. -/
theorem covers_cut (hs : i.1 ≤ s) (hst : s ≤ t) (ht : t ≤ i.2) :
    Covers (cut i s t) x ↔ (i.1 ≤ x ∧ x ≤ i.2) ∧ ¬ (s ≤ x ∧ x ≤ t) := by
  unfold cut
  split_ifs <;> simp <;> omega

/-- A range inside `i` that misses `[s, t]` lies inside one of the pieces. -/
theorem inside_cut (hs : i.1 ≤ s) (ht : t ≤ i.2) (hlo : i.1 ≤ lo) (hhi : hi ≤ i.2 + 1) (hne : lo < hi)
    (hmiss : hi ≤ s ∨ t < lo) : Inside (cut i s t) lo hi := by
  unfold cut
  rcases hmiss with hmiss | hmiss
  · -- the range lies below `s`: the lower piece is there
    refine ⟨(i.1, s - 1), ?_, hlo, by dsimp only; omega⟩
    simp [show i.1 < s by omega]
  · refine ⟨(t + 1, i.2), ?_, by dsimp only; omega, hhi⟩
    simp [show t < i.2 by omega]

/-- Two ranges that share no number lie one after the other. -/
theorem le_or_lt_of_disjoint (hst : s ≤ t) (hne : lo < hi) (h : ∀ x, s ≤ x ∧ x ≤ t → ¬ (lo ≤ x ∧ x < hi)) :
    hi ≤ s ∨ t < lo := by
  by_contra hc
  simp only [not_or, not_le, not_lt] at hc
  exact h (max s lo) ⟨le_max_left _ _, by omega⟩ ⟨le_max_right _ _, by omega⟩

section Family

variable {α β : Type} [BEq α] [LawfulBEq α] {H : α → β → Prop} {live : List α} {r q : α}

/-- In a family whose members pairwise share no point, a member shares none
with the members left after erasing it. -/
theorem apart_of_mem_erase (hdis : live.Pairwise fun p q => ∀ y, H p y → ¬ H q y) (hr : r ∈ live)
    (hq : q ∈ live.erase r) : ∀ y, H r y → ¬ H q y := by
  have hsymm : ∀ {p q : α}, (∀ y, H p y → ¬ H q y) → ∀ y, H q y → ¬ H p y :=
    fun h y hq hp => h y hp hq
  -- with `r` moved to the front, it is apart from every member after it
  have hcons := ((List.perm_cons_erase hr).pairwise_iff hsymm).1 hdis
  exact (List.pairwise_cons.1 hcons).1 q hq

/-- The members left after erasing `r` hold exactly the points all of them
held outside `r`. -/
theorem exists_mem_erase_iff (hdis : live.Pairwise fun p q => ∀ y, H p y → ¬ H q y) (hr : r ∈ live)
    (y : β) : (∃ q ∈ live.erase r, H q y) ↔ (∃ q ∈ live, H q y) ∧ ¬ H r y := by
  constructor
  · rintro ⟨q, hq, hqy⟩
    exact ⟨⟨q, List.mem_of_mem_erase hq, hqy⟩, fun hry => apart_of_mem_erase hdis hr hq y hry hqy⟩
  · rintro ⟨⟨q, hq, hqy⟩, hry⟩
    have hne : q ≠ r := by
      rintro rfl
      exact hry hqy
    exact ⟨q, (List.mem_erase_of_ne hne).2 hq, hqy⟩

end Family

/-! ## Positions -/

/-- A list cut at a position it has. -/
theorem take_append_cons {α : Type} (l : List α) {k : Nat} (hk : k < l.length) :
    l = l.take k ++ l[k] :: l.drop (k + 1) := by
  rw [List.cons_getElem_drop_succ, List.take_append_drop]

/-- `insertIdx` at a position of the list, or just past its end. -/
theorem insertIdx_eq_take_append {α : Type} (l : List α) (a : α) {k : Nat} (hk : k ≤ l.length) :
    l.insertIdx k a = l.take k ++ a :: l.drop k := by
  induction l generalizing k with
  | nil =>
    have hk0 : k = 0 := by simpa using hk
    subst hk0
    rfl
  | cons y l ih =>
    cases k with
    | zero => rfl
    | succ k =>
      rw [List.insertIdx_succ_cons, ih (by simpa using hk)]
      rfl

/-- Inserting at the end of a prefix puts the element between the prefix and the rest. -/
theorem insertIdx_length_append {α : Type} (pre post : List α) (a : α) :
    (pre ++ post).insertIdx pre.length a = pre ++ a :: post := by
  rw [insertIdx_eq_take_append _ _ (by simp)]
  simp

/-- Inserting right after the element at the end of a prefix. -/
theorem insertIdx_succ_length_append {α : Type} (pre post : List α) (a b : α) :
    (pre ++ a :: post).insertIdx (pre.length + 1) b = pre ++ a :: b :: post := by
  have h := insertIdx_length_append (pre ++ [a]) post b
  simpa using h

theorem eraseIdx_length_append {α : Type} (pre post : List α) (a : α) :
    (pre ++ a :: post).eraseIdx pre.length = pre ++ post := by
  rw [List.eraseIdx_append_of_length_le le_rfl]
  simp

end Intervals
