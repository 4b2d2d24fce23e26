import Mathlib
import Rocr.Lib.Ordered

/-!
# Successors in an ordered set, and the lists that thread them

A doubly linked list kept in key order links every member of a set of keys to
the next larger member.  `IsSucc S a b` says that `b` is that member for `a`:
both are in `S`, `a < b`, and no member of `S` lies strictly between them.
The tiling of an allocator's address range and its free list are both of
this form, over different sets.

Adding a member to the set, or removing one, changes only the links around
it; `isSucc_insert_left`, `isSucc_insert_right`, `IsSucc.insert_of_ne`,
`isSucc_erase` and `IsSucc.erase_of_ne` say which.  A walk that follows the
links from a member lists the members above it in increasing order
(`walk_eq_filter`), and a first-fit search along the links can start one
link later when the current member does not fit (`find?_ge_of_isSucc`).
-/

namespace Chain

variable {α : Type} [LinearOrder α]

/-- `b` is the least member of `S` above the member `a`. -/
def IsSucc (S : α → Prop) (a b : α) : Prop :=
  S a ∧ S b ∧ a < b ∧ ∀ c, S c → a < c → b ≤ c

section Succ

variable {S : α → Prop} {a b c p q r : α}

theorem IsSucc.lt (h : IsSucc S a b) : a < b := h.2.2.1

theorem IsSucc.le_of_lt (h : IsSucc S a b) (hc : S c) (hac : a < c) : b ≤ c := h.2.2.2 c hc hac

/-- No member lies strictly between a member and its successor. -/
theorem IsSucc.not_between (h : IsSucc S a b) (hc : S c) (hac : a < c) (hcb : c < b) : False :=
  absurd (h.le_of_lt hc hac) (not_le.mpr hcb)

theorem IsSucc.right_unique (h : IsSucc S a b) (h' : IsSucc S a c) : b = c :=
  le_antisymm (h.le_of_lt h'.2.1 h'.lt) (h'.le_of_lt h.2.1 h.lt)

theorem IsSucc.left_unique (h : IsSucc S a b) (h' : IsSucc S c b) : a = c := by
  rcases lt_trichotomy a c with hac | rfl | hca
  · exact (h.not_between h'.1 hac h'.lt).elim
  · rfl
  · exact (h'.not_between h.1 hca h.lt).elim

/-- Successors depend on the set only through its members. -/
theorem IsSucc.congr {T : α → Prop} (hST : ∀ x, S x ↔ T x) (h : IsSucc S a b) : IsSucc T a b :=
  ⟨(hST a).mp h.1, (hST b).mp h.2.1, h.lt, fun x hx hax => h.le_of_lt ((hST x).mpr hx) hax⟩

/-! ## Adding a member between `p` and its successor `q` -/

theorem isSucc_insert_left (h : IsSucc S p q) (hpr : p < r) (hrq : r < q) :
    IsSucc (fun x => S x ∨ x = r) p r := by
  refine ⟨Or.inl h.1, Or.inr rfl, hpr, ?_⟩
  rintro x (hx | rfl) hpx
  · exact hrq.le.trans (h.le_of_lt hx hpx)
  · exact le_rfl

theorem isSucc_insert_right (h : IsSucc S p q) (hpr : p < r) (hrq : r < q) :
    IsSucc (fun x => S x ∨ x = r) r q := by
  refine ⟨Or.inr rfl, Or.inl h.2.1, hrq, ?_⟩
  rintro x (hx | rfl) hrx
  · exact h.le_of_lt hx (hpr.trans hrx)
  · exact absurd hrx (lt_irrefl _)

/-- Links away from the insertion point are kept. -/
theorem IsSucc.insert_of_ne (hab : IsSucc S a b) (h : IsSucc S p q) (hpr : p < r)
    (hrq : r < q) (hap : a ≠ p) : IsSucc (fun x => S x ∨ x = r) a b := by
  refine ⟨Or.inl hab.1, Or.inl hab.2.1, hab.lt, ?_⟩
  rintro x (hx | rfl) hax
  · exact hab.le_of_lt hx hax
  · -- a member above `p` is at least `q`, beyond the new member, so `a < p`
    rcases lt_or_gt_of_ne hap with hlt | hgt
    · exact (hab.le_of_lt h.1 hlt).trans hpr.le
    · exact absurd (h.le_of_lt hab.1 hgt) (not_le.mpr (hax.trans hrq))

/-! ## Removing a member `c` between its neighbours `p` and `q` -/

theorem isSucc_erase (hp : IsSucc S p c) (hq : IsSucc S c q) :
    IsSucc (fun x => S x ∧ x ≠ c) p q := by
  refine ⟨⟨hp.1, hp.lt.ne⟩, ⟨hq.2.1, hq.lt.ne'⟩, hp.lt.trans hq.lt, ?_⟩
  rintro x ⟨hx, hxc⟩ hpx
  rcases lt_or_gt_of_ne hxc with hlt | hgt
  · exact (hp.not_between hx hpx hlt).elim
  · exact hq.le_of_lt hx hgt

/-- Links that neither start at `c` nor end at it are kept. -/
theorem IsSucc.erase_of_ne (hab : IsSucc S a b) (hp : IsSucc S p c) (hac : a ≠ c)
    (hap : a ≠ p) : IsSucc (fun x => S x ∧ x ≠ c) a b := by
  have hbc : b ≠ c := by
    rintro rfl
    exact hap (hab.left_unique hp)
  refine ⟨⟨hab.1, hac⟩, ⟨hab.2.1, hbc⟩, hab.lt, ?_⟩
  rintro x ⟨hx, -⟩ hax
  exact hab.le_of_lt hx hax

end Succ

/-! ## Searches and walks along the links -/

section Walk

variable {l : List α} {P Q : α → Bool} {a b : α}

/-- The members of a key list `l` that satisfy `P`. -/
abbrev Mem (l : List α) (P : α → Bool) (x : α) : Prop := x ∈ l ∧ P x = true

/-- Fewer keys lie above a larger bound. -/
theorem length_filter_le_lt (ha : a ∈ l) (hab : a < b) :
    (l.filter fun x => decide (b ≤ x)).length < (l.filter fun x => decide (a ≤ x)).length := by
  have hsub : l.filter (fun x => decide (b ≤ x)) =
      (l.filter fun x => decide (a ≤ x)).filter fun x => decide (b ≤ x) := by
    rw [List.filter_filter]
    apply List.filter_congr
    intro x _
    by_cases hbx : b ≤ x
    · simp [hbx, hab.le.trans hbx]
    · simp [hbx]
  rw [hsub, List.length_filter_lt_length_iff_exists]
  exact ⟨a, List.mem_filter.mpr ⟨ha, by simp⟩, by simp [hab]⟩

/-- Fewer keys lie below a smaller bound. -/
theorem length_filter_ge_lt (ha : a ∈ l) (hba : b < a) :
    (l.filter fun x => decide (x ≤ b)).length < (l.filter fun x => decide (x ≤ a)).length := by
  have hsub : l.filter (fun x => decide (x ≤ b)) =
      (l.filter fun x => decide (x ≤ a)).filter fun x => decide (x ≤ b) := by
    rw [List.filter_filter]
    apply List.filter_congr
    intro x _
    by_cases hxb : x ≤ b
    · simp [hxb, hxb.trans hba.le]
    · simp [hxb]
  rw [hsub, List.length_filter_lt_length_iff_exists]
  exact ⟨a, List.mem_filter.mpr ⟨ha, by simp⟩, by simp [hba]⟩

/-- A first-fit search over the members at or above `a` may skip `a` when it
does not fit, and start again at its successor. -/
theorem find?_ge_of_isSucc (hs : IsSucc (Mem l P) a b) (hQP : ∀ x ∈ l, Q x = true → P x = true)
    (ha : Q a = false) :
    l.find? (fun x => decide (a ≤ x) && Q x) = l.find? (fun x => decide (b ≤ x) && Q x) := by
  apply List.find?_congr
  intro x hx
  rcases lt_trichotomy x a with hxa | rfl | hax
  · simp [not_le.mpr hxa, not_le.mpr (hxa.trans hs.lt)]
  · simp [ha]
  · cases hQ : Q x with
    | false => simp
    | true => simp [hax.le, hs.le_of_lt ⟨hx, hQP x hx hQ⟩ hax]

/-- The same for a search downwards from `a`, which may restart at the
member whose successor `a` is. -/
theorem find?_reverse_le_of_isSucc (hs : IsSucc (Mem l P) b a)
    (hQP : ∀ x ∈ l, Q x = true → P x = true) (ha : Q a = false) :
    l.reverse.find? (fun x => decide (x ≤ a) && Q x) =
      l.reverse.find? (fun x => decide (x ≤ b) && Q x) := by
  apply List.find?_congr
  intro x hx
  rw [List.mem_reverse] at hx
  rcases lt_trichotomy x a with hxa | rfl | hax
  · cases hQ : Q x with
    | false => simp
    | true =>
        have hxb : x ≤ b := by
          by_contra hbx
          exact hs.not_between ⟨hx, hQP x hx hQ⟩ (not_le.mp hbx) hxa
        simp [hxa.le, hxb]
  · simp [ha]
  · simp [not_le.mpr hax, not_le.mpr (hs.lt.trans hax)]

/-- Follow the `next` links from `a`, visiting at most `fuel` nodes, and list
the nodes visited. -/
def walk (next : α → Option α) : Nat → α → List α
  | 0, _ => []
  | fuel + 1, a =>
      a :: match next a with
        | some b => walk next fuel b
        | none => []

/-- Following the links from a member of a strictly increasing key list
visits the members above it in increasing order, as long as every member has
its successor as `next` (or no `next`, at the greatest member) and there is
fuel for every key above the start. -/
theorem walk_eq_filter (hl : l.Pairwise (· < ·)) {next : α → Option α}
    (hnext : ∀ x, Mem l P x →
      (next x = none ∧ ∀ y, Mem l P y → y ≤ x) ∨ ∃ y, next x = some y ∧ IsSucc (Mem l P) x y) :
    ∀ fuel a, Mem l P a → (l.filter fun x => decide (a ≤ x)).length ≤ fuel →
      walk next fuel a = l.filter fun x => decide (a ≤ x) && P x := by
  intro fuel
  induction fuel with
  | zero =>
      intro a ha hfuel
      have hpos : 0 < (l.filter fun x => decide (a ≤ x)).length :=
        List.length_pos_of_mem (List.mem_filter.mpr ⟨ha.1, by simp⟩)
      omega
  | succ n ih =>
      intro a ha hfuel
      have hsorted : (l.filter fun x => decide (a ≤ x) && P x).Pairwise (· < ·) :=
        hl.filter _
      rcases hnext a ha with ⟨hnone, hmax⟩ | ⟨b, hsome, hsucc⟩
      · -- the greatest member: the walk stops after `a`
        rw [walk, hnone]
        apply List.Pairwise.eq_of_mem_iff (List.pairwise_singleton _ a) hsorted
        intro x
        simp only [List.mem_singleton, List.mem_filter, Bool.and_eq_true, decide_eq_true_eq]
        constructor
        · rintro rfl
          exact ⟨ha.1, le_rfl, ha.2⟩
        · rintro ⟨hx, hax, hPx⟩
          exact le_antisymm (hmax x ⟨hx, hPx⟩) hax
      · -- one link on: the members above `a` are `a` and those from `b` on
        have hfuel' : (l.filter fun x => decide (b ≤ x)).length ≤ n := by
          have := length_filter_le_lt ha.1 hsucc.lt
          omega
        rw [walk, hsome]
        dsimp only
        rw [ih b hsucc.2.1 hfuel']
        have hcons : (a :: l.filter fun x => decide (b ≤ x) && P x).Pairwise (· < ·) := by
          refine List.pairwise_cons.mpr ⟨?_, hl.filter _⟩
          intro x hx
          simp only [List.mem_filter, Bool.and_eq_true, decide_eq_true_eq] at hx
          exact lt_of_lt_of_le hsucc.lt hx.2.1
        apply List.Pairwise.eq_of_mem_iff hcons hsorted
        intro x
        simp only [List.mem_cons, List.mem_filter, Bool.and_eq_true, decide_eq_true_eq]
        constructor
        · rintro (rfl | ⟨hx, hbx, hPx⟩)
          · exact ⟨ha.1, le_rfl, ha.2⟩
          · exact ⟨hx, hsucc.lt.le.trans hbx, hPx⟩
        · rintro ⟨hx, hax, hPx⟩
          rcases eq_or_lt_of_le hax with rfl | hlt
          · exact Or.inl rfl
          · exact Or.inr ⟨hx, hsucc.le_of_lt ⟨hx, hPx⟩ hlt, hPx⟩

end Walk

/-! ## Doubly linked lists in key order -/

section Threaded

variable {S T : α → Prop} {next prior next' prior' : α → Option α} {lo hi a b c p q x : α}

/-- `next` and `prior` thread the members of `S` in increasing order, from its
least member `lo` to its greatest member `hi`: every member but `hi` links
forward to its successor and every member but `lo` back to its predecessor. -/
structure Threaded (S : α → Prop) (next prior : α → Option α) (lo hi : α) : Prop where
  lo_mem : S lo
  hi_mem : S hi
  lo_le : ∀ y, S y → lo ≤ y
  le_hi : ∀ y, S y → y ≤ hi
  prior_lo : prior lo = none
  next_hi : next hi = none
  next_link : ∀ a, S a → a ≠ hi → ∃ b, next a = some b ∧ IsSucc S a b
  prior_link : ∀ b, S b → b ≠ lo → ∃ a, prior b = some a ∧ IsSucc S a b

namespace Threaded

theorem next_eq (ht : Threaded S next prior lo hi) (hab : IsSucc S a b) : next a = some b := by
  have hahi : a ≠ hi := (hab.lt.trans_le (ht.le_hi b hab.2.1)).ne
  obtain ⟨b', hb', hab'⟩ := ht.next_link a hab.1 hahi
  rw [hb', hab'.right_unique hab]

theorem prior_eq (ht : Threaded S next prior lo hi) (hab : IsSucc S a b) : prior b = some a := by
  have hblo : b ≠ lo := ((ht.lo_le a hab.1).trans_lt hab.lt).ne'
  obtain ⟨a', ha', ha'b⟩ := ht.prior_link b hab.2.1 hblo
  rw [ha', ha'b.left_unique hab]

/-- The links matter only on the members. -/
theorem congr (ht : Threaded S next prior lo hi) (hST : ∀ y, S y ↔ T y)
    (hnext : ∀ y, S y → next' y = next y) (hprior : ∀ y, S y → prior' y = prior y) :
    Threaded T next' prior' lo hi where
  lo_mem := (hST lo).mp ht.lo_mem
  hi_mem := (hST hi).mp ht.hi_mem
  lo_le y hy := ht.lo_le y ((hST y).mpr hy)
  le_hi y hy := ht.le_hi y ((hST y).mpr hy)
  prior_lo := by rw [hprior lo ht.lo_mem, ht.prior_lo]
  next_hi := by rw [hnext hi ht.hi_mem, ht.next_hi]
  next_link a ha hahi := by
    obtain ⟨b, hb, hab⟩ := ht.next_link a ((hST a).mpr ha) hahi
    exact ⟨b, (hnext a ((hST a).mpr ha)).trans hb, hab.congr hST⟩
  prior_link b hb hblo := by
    obtain ⟨a, ha, hab⟩ := ht.prior_link b ((hST b).mpr hb) hblo
    exact ⟨a, (hprior b ((hST b).mpr hb)).trans ha, hab.congr hST⟩

/-- Unlinking the member `c` that sits between `p` and `q`: `p` now links
forward to `q` and `q` back to `p`, and no other link of a member changes. -/
theorem unlink (ht : Threaded S next prior lo hi) (hp : IsSucc S p c) (hq : IsSucc S c q)
    (hnp : next' p = some q) (hpq : prior' q = some p)
    (hnext : ∀ y, S y → y ≠ c → y ≠ p → next' y = next y)
    (hprior : ∀ y, S y → y ≠ c → y ≠ q → prior' y = prior y) :
    Threaded (fun y => S y ∧ y ≠ c) next' prior' lo hi where
  lo_mem := ⟨ht.lo_mem, ((ht.lo_le p hp.1).trans_lt hp.lt).ne⟩
  hi_mem := ⟨ht.hi_mem, (hq.lt.trans_le (ht.le_hi q hq.2.1)).ne'⟩
  lo_le y hy := ht.lo_le y hy.1
  le_hi y hy := ht.le_hi y hy.1
  prior_lo := by
    have hlop : lo ≤ p := ht.lo_le p hp.1
    rw [hprior lo ht.lo_mem (hlop.trans_lt hp.lt).ne ((hlop.trans_lt (hp.lt.trans hq.lt)).ne),
      ht.prior_lo]
  next_hi := by
    have hqhi : q ≤ hi := ht.le_hi q hq.2.1
    rw [hnext hi ht.hi_mem (hq.lt.trans_le hqhi).ne' ((hp.lt.trans hq.lt).trans_le hqhi).ne',
      ht.next_hi]
  next_link a ha hahi := by
    by_cases hap : a = p
    · subst hap
      exact ⟨q, hnp, isSucc_erase hp hq⟩
    · obtain ⟨b, hb, hab⟩ := ht.next_link a ha.1 hahi
      exact ⟨b, (hnext a ha.1 ha.2 hap).trans hb, hab.erase_of_ne hp ha.2 hap⟩
  prior_link b hb hblo := by
    by_cases hbq : b = q
    · subst hbq
      exact ⟨p, hpq, isSucc_erase hp hq⟩
    · obtain ⟨a, ha, hab⟩ := ht.prior_link b hb.1 hblo
      have hac : a ≠ c := by
        rintro rfl
        exact hbq (hab.right_unique hq)
      have hap : a ≠ p := by
        rintro rfl
        exact hb.2 (hab.right_unique hp)
      exact ⟨a, (hprior b hb.1 hb.2 hbq).trans ha, hab.erase_of_ne hp hac hap⟩

/-- Linking a new member `x` between the member `b` and its successor `q`. -/
theorem link (ht : Threaded S next prior lo hi) (hbq : IsSucc S b q) (hbx : b < x) (hxq : x < q)
    (hnb : next' b = some x) (hnx : next' x = some q)
    (hpx : prior' x = some b) (hpq : prior' q = some x)
    (hnext : ∀ y, S y → y ≠ b → next' y = next y)
    (hprior : ∀ y, S y → y ≠ q → prior' y = prior y) :
    Threaded (fun y => S y ∨ y = x) next' prior' lo hi where
  lo_mem := Or.inl ht.lo_mem
  hi_mem := Or.inl ht.hi_mem
  lo_le y := by
    rintro (hy | rfl)
    · exact ht.lo_le y hy
    · exact (ht.lo_le b hbq.1).trans hbx.le
  le_hi y := by
    rintro (hy | rfl)
    · exact ht.le_hi y hy
    · exact hxq.le.trans (ht.le_hi q hbq.2.1)
  prior_lo := by
    have hloq : lo < q := (ht.lo_le b hbq.1).trans_lt hbq.lt
    rw [hprior lo ht.lo_mem hloq.ne, ht.prior_lo]
  next_hi := by
    have hbhi : b < hi := hbq.lt.trans_le (ht.le_hi q hbq.2.1)
    rw [hnext hi ht.hi_mem hbhi.ne', ht.next_hi]
  next_link a := by
    rintro (ha | rfl) hahi
    · by_cases hab : a = b
      · subst hab
        exact ⟨x, hnb, isSucc_insert_left hbq hbx hxq⟩
      · obtain ⟨c, hc, hac⟩ := ht.next_link a ha hahi
        exact ⟨c, (hnext a ha hab).trans hc, hac.insert_of_ne hbq hbx hxq hab⟩
    · exact ⟨q, hnx, isSucc_insert_right hbq hbx hxq⟩
  prior_link y := by
    rintro (hy | rfl) hylo
    · by_cases hyq : y = q
      · subst hyq
        exact ⟨x, hpq, isSucc_insert_right hbq hbx hxq⟩
      · obtain ⟨a, ha, hay⟩ := ht.prior_link y hy hylo
        have hab : a ≠ b := by
          rintro rfl
          exact hyq (hay.right_unique hbq)
        exact ⟨a, (hprior y hy hyq).trans ha, hay.insert_of_ne hbq hbx hxq hab⟩
    · exact ⟨b, hpx, isSucc_insert_left hbq hbx hxq⟩

/-- Walking the `next` links from the least member of a strictly increasing
key list lists all the members, in order. -/
theorem walk_eq {l : List α} {P : α → Bool} (ht : Threaded (Mem l P) next prior lo hi)
    (hl : l.Pairwise (· < ·)) {fuel : Nat} (hfuel : l.length ≤ fuel) :
    walk next fuel lo = l.filter P := by
  have hnext : ∀ y, Mem l P y →
      (next y = none ∧ ∀ z, Mem l P z → z ≤ y) ∨ ∃ z, next y = some z ∧ IsSucc (Mem l P) y z := by
    intro y hy
    by_cases hyhi : y = hi
    · subst hyhi
      exact Or.inl ⟨ht.next_hi, ht.le_hi⟩
    · exact Or.inr (ht.next_link y hy hyhi)
  rw [walk_eq_filter hl hnext fuel lo ht.lo_mem ((List.length_filter_le _ l).trans hfuel)]
  apply List.filter_congr
  intro y hy
  cases hPy : P y with
  | false => simp
  | true => simp [ht.lo_le y ⟨hy, hPy⟩]

end Threaded

end Threaded

end Chain
