import Mathlib
import Rocr.Lib.OrdMap

/-!
# Address ranges

A sub-allocator cuts blocks of address space into pieces and gets its blocks
from an allocator of its own.  Three notions describe such a layout, over
ranges `(base, length)`, each standing for the half-open `[base, base + length)`:

* `Apart r q`: the two ranges share no address; `Inside r q`: `r` lies in `q`.
* `Tiles sz look lo hi`: the pieces of a lookup from offsets, the piece found
  at `k` being `sz v` long, tile `[lo, hi)`.  The first starts at `lo`; each
  is nonempty, lies in the range, and ends at `hi` or where another starts;
  no piece starts inside another.  Two pieces are apart (`Tiles.apart`); in
  an ordered map the piece below a key ends at it (`Tiles.below_end`) and the
  piece after a key starts where that key's piece ends (`Tiles.upperBound_eq`).
  Cutting a piece in two (`Tiles.split`), merging a piece with the next one
  (`Tiles.merge`) and relabelling pieces without changing their sizes
  (`Tiles.congr`) keep the tiling.
* `Lawful allocate release Out`: the contract of an allocator of ranges whose
  outstanding ranges in state `s` are `Out s`.  A range it hands out is apart
  from every outstanding one and outstanding from then on; a release takes
  back that range and no other.

A lookup is any `Nat → Option ν`, so that the map after an edit is described
by what it finds at each offset and the lemmas never look at entry lists.
-/

namespace Ranges

/-! ## Apart and inside -/

/-- `[r.1, r.1 + r.2)` and `[q.1, q.1 + q.2)` share no address. -/
def Apart (r q : Nat × Nat) : Prop := r.1 + r.2 ≤ q.1 ∨ q.1 + q.2 ≤ r.1

instance (r q : Nat × Nat) : Decidable (Apart r q) := inferInstanceAs (Decidable (_ ∨ _))

/-- `[r.1, r.1 + r.2)` lies in `[q.1, q.1 + q.2)`. -/
def Inside (r q : Nat × Nat) : Prop := q.1 ≤ r.1 ∧ r.1 + r.2 ≤ q.1 + q.2

instance (r q : Nat × Nat) : Decidable (Inside r q) := inferInstanceAs (Decidable (_ ∧ _))

variable {r q r' q' : Nat × Nat}

theorem Apart.symm (h : Apart r q) : Apart q r := Or.symm h

/-- Ranges inside two apart ranges are apart. -/
theorem Apart.mono (h : Apart q q') (hr : Inside r q) (hr' : Inside r' q') : Apart r r' := by
  unfold Apart Inside at *
  omega

/-- A nonempty range is not apart from itself. -/
theorem not_apart_self (h : 0 < r.2) : ¬ Apart r r := by
  unfold Apart
  omega

/-! ## Tilings -/

section Tiling

variable {ν : Type} (sz : ν → Nat)

/-- The pieces of `look`, the one at `k` being `sz v` long, tile `[lo, hi)`. -/
structure Tiles (look : Nat → Option ν) (lo hi : Nat) : Prop where
  first : (look lo).isSome
  pos : ∀ k v, look k = some v → 0 < sz v
  inside : ∀ k v, look k = some v → lo ≤ k ∧ k + sz v ≤ hi
  next : ∀ k v, look k = some v → k + sz v = hi ∨ (look (k + sz v)).isSome
  gap : ∀ k v, look k = some v → ∀ j, (look j).isSome → k < j → k + sz v ≤ j

variable {sz} {look look' : Nat → Option ν} {lo hi k j i : Nat} {v w u v₁ v₂ v' : ν}

theorem Tiles.lt_hi (h : Tiles sz look lo hi) (hk : look k = some v) : k < hi := by
  have hpos := h.pos k v hk
  have hin := h.inside k v hk
  omega

/-- Every piece lies in the tiled range. -/
theorem Tiles.piece_inside (h : Tiles sz look lo hi) (hk : look k = some v) :
    Inside (k, sz v) (lo, hi - lo) := by
  have hin := h.inside k v hk
  unfold Inside
  dsimp only
  omega

/-- Two pieces at different offsets are apart. -/
theorem Tiles.apart (h : Tiles sz look lo hi) (hk : look k = some v) (hj : look j = some w)
    (hne : k ≠ j) : Apart (k, sz v) (j, sz w) := by
  rcases Nat.lt_or_gt_of_ne hne with hlt | hlt
  · exact Or.inl (h.gap k v hk j (by rw [hj]; rfl) hlt)
  · exact Or.inr (h.gap j w hj k (by rw [hk]; rfl) hlt)

/-- A tiling with a single piece: it starts at `lo` and ends at `hi`. -/
theorem Tiles.single (h : Tiles sz look lo hi) (hk : look k = some v)
    (honly : ∀ j, (look j).isSome → j = k) : k = lo ∧ k + sz v = hi := by
  have hlo : lo = k := honly lo h.first
  refine ⟨hlo.symm, ?_⟩
  rcases h.next k v hk with hend | hnext
  · exact hend
  · have := honly _ hnext
    have := h.pos k v hk
    omega

/-- One nonempty piece tiles its own range. -/
theorem tiles_one (hv : 0 < sz v) (hl : ∀ j, look j = if j = lo then some v else none) :
    Tiles sz look lo (lo + sz v) := by
  have hat : ∀ j u, look j = some u → j = lo ∧ u = v := by
    intro j u hj
    rw [hl] at hj
    split_ifs at hj with hjl
    · exact ⟨hjl, (Option.some.inj hj).symm⟩
  constructor
  · simp [hl]
  · intro k u hk
    obtain ⟨-, rfl⟩ := hat k u hk
    exact hv
  · intro k u hk
    obtain ⟨rfl, rfl⟩ := hat k u hk
    omega
  · intro k u hk
    obtain ⟨rfl, rfl⟩ := hat k u hk
    exact Or.inl rfl
  · intro k u hk j hj hlt
    obtain ⟨rfl, rfl⟩ := hat k u hk
    have hjl : j = k := by
      rw [hl] at hj
      split_ifs at hj with hjl
      · exact hjl
      · exact absurd hj (by simp)
    omega

/-- Relabelling the pieces without changing their sizes keeps the tiling. -/
theorem Tiles.congr (h : Tiles sz look lo hi) (hl : ∀ j, (look' j).map sz = (look j).map sz) :
    Tiles sz look' lo hi := by
  have hsome : ∀ j, (look' j).isSome = (look j).isSome := by
    intro j
    rw [← Option.isSome_map (f := sz), hl, Option.isSome_map]
  have hof : ∀ k v', look' k = some v' → ∃ v, look k = some v ∧ sz v' = sz v := by
    intro k v' hk
    have hm := hl k
    rw [hk] at hm
    cases hlk : look k with
    | none => simp [hlk] at hm
    | some v => exact ⟨v, rfl, by simpa [hlk] using hm⟩
  constructor
  · rw [hsome]
    exact h.first
  · intro k v' hk
    obtain ⟨v, hv, hs⟩ := hof k v' hk
    rw [hs]
    exact h.pos k v hv
  · intro k v' hk
    obtain ⟨v, hv, hs⟩ := hof k v' hk
    rw [hs]
    exact h.inside k v hv
  · intro k v' hk
    obtain ⟨v, hv, hs⟩ := hof k v' hk
    rw [hs, hsome]
    exact h.next k v hv
  · intro k v' hk j hj hlt
    obtain ⟨v, hv, hs⟩ := hof k v' hk
    rw [hs]
    exact h.gap k v hv j (by rwa [← hsome]) hlt

/-- No piece starts strictly inside another. -/
theorem Tiles.none_of_inside (h : Tiles sz look lo hi) (hk : look k = some v) (hkj : k < j)
    (hj : j < k + sz v) : look j = none := by
  cases hlj : look j with
  | none => rfl
  | some w =>
      have := h.gap k v hk j (by rw [hlj]; rfl) hkj
      omega

/-- Cutting the piece at `k` in two, `v₁` at `k` and `v₂` right after it. -/
theorem Tiles.split (h : Tiles sz look lo hi) (hk : look k = some v) (hn : 0 < sz v₁)
    (hlt : sz v₁ < sz v) (hv₂ : sz v₂ = sz v - sz v₁)
    (hl : ∀ j, look' j = if j = k then some v₁ else if j = k + sz v₁ then some v₂ else look j) :
    Tiles sz look' lo hi := by
  have hmid : look (k + sz v₁) = none := h.none_of_inside hk (by omega) (by omega)
  have hin := h.inside k v hk
  -- what `look'` finds: the two halves, or what `look` found elsewhere
  have hcases : ∀ j u, look' j = some u →
      (j = k ∧ u = v₁) ∨ (j = k + sz v₁ ∧ u = v₂) ∨ (j ≠ k ∧ j ≠ k + sz v₁ ∧ look j = some u) := by
    intro j u hj
    rw [hl] at hj
    split_ifs at hj with h1 h2
    · exact Or.inl ⟨h1, (Option.some.inj hj).symm⟩
    · exact Or.inr (Or.inl ⟨h2, (Option.some.inj hj).symm⟩)
    · exact Or.inr (Or.inr ⟨h1, h2, hj⟩)
  have hsup : ∀ j, (look j).isSome → (look' j).isSome := by
    intro j hj
    rw [hl]
    split_ifs <;> simp_all
  have hsome : ∀ j, (look' j).isSome → j = k ∨ j = k + sz v₁ ∨ (look j).isSome := by
    intro j hj
    rw [hl] at hj
    split_ifs at hj with h1 h2
    · exact Or.inl h1
    · exact Or.inr (Or.inl h2)
    · exact Or.inr (Or.inr hj)
  constructor
  · exact hsup lo h.first
  · intro j u hj
    rcases hcases j u hj with ⟨-, rfl⟩ | ⟨-, rfl⟩ | ⟨-, -, hj⟩
    · exact hn
    · omega
    · exact h.pos j u hj
  · intro j u hj
    rcases hcases j u hj with ⟨rfl, rfl⟩ | ⟨rfl, rfl⟩ | ⟨-, -, hj⟩
    · omega
    · omega
    · exact h.inside j u hj
  · intro j u hj
    rcases hcases j u hj with ⟨hjk, hu⟩ | ⟨hjk, hu⟩ | ⟨-, -, hj⟩
    · subst u
      refine Or.inr ?_
      rw [hl]
      split_ifs <;> simp_all
    · subst u
      have hend : j + sz v₂ = k + sz v := by omega
      rw [hend]
      exact (h.next k v hk).imp_right (hsup _)
    · exact (h.next j u hj).imp_right (hsup _)
  · intro j u hj j' hj' hlt'
    have hgap := h.gap k v hk
    rcases hcases j u hj with ⟨rfl, rfl⟩ | ⟨rfl, rfl⟩ | ⟨hjk, hjk', hj⟩
    · rcases hsome j' hj' with rfl | rfl | hj'
      · omega
      · omega
      · have := hgap j' hj' hlt'
        omega
    · rcases hsome j' hj' with rfl | rfl | hj'
      · omega
      · omega
      · have := hgap j' hj' (by omega)
        omega
    · have hother := h.gap j u hj
      have hk' : (look k).isSome := by rw [hk]; rfl
      rcases hsome j' hj' with rfl | rfl | hj'
      · exact hother _ hk' hlt'
      · -- `j` lies below `k`: it cannot start inside the piece being cut
        have hjk'' : j < k := by
          rcases Nat.lt_or_gt_of_ne hjk with hlt'' | hgt
          · exact hlt''
          · have := hgap j (by rw [hj]; rfl) hgt
            omega
        have := hother k hk' hjk''
        omega
      · exact hother j' hj' hlt'

/-- Merging the piece at `k` with the piece right after it into `v'`. -/
theorem Tiles.merge (h : Tiles sz look lo hi) (hk : look k = some v)
    (hn : look (k + sz v) = some w) (hsz : sz v' = sz v + sz w)
    (hl : ∀ j, look' j = if j = k then some v' else if j = k + sz v then none else look j) :
    Tiles sz look' lo hi := by
  have hpv := h.pos k v hk
  have hpw := h.pos _ w hn
  have hin := h.inside k v hk
  have hinw := h.inside _ w hn
  have hcases : ∀ j u, look' j = some u →
      (j = k ∧ u = v') ∨ (j ≠ k ∧ j ≠ k + sz v ∧ look j = some u) := by
    intro j u hj
    rw [hl] at hj
    split_ifs at hj with h1 h2
    · exact Or.inl ⟨h1, (Option.some.inj hj).symm⟩
    · exact Or.inr ⟨h1, h2, hj⟩
  have hsome : ∀ j, (look' j).isSome → j = k ∨ (j ≠ k + sz v ∧ (look j).isSome) := by
    intro j hj
    rw [hl] at hj
    split_ifs at hj with h1 h2
    · exact Or.inl h1
    · simp at hj
    · exact Or.inr ⟨h2, hj⟩
  -- a piece other than the two merged ones ends neither inside nor at the second
  have hend : ∀ j u, j ≠ k → j ≠ k + sz v → look j = some u → j + sz u ≠ k + sz v := by
    intro j u hjk _ hj heq
    have hpu := h.pos j u hj
    rcases Nat.lt_or_gt_of_ne hjk with hlt | hgt
    · have := h.gap j u hj k (by rw [hk]; rfl) hlt
      omega
    · have := h.gap k v hk j (by rw [hj]; rfl) hgt
      omega
  have hsup : ∀ j, j ≠ k + sz v → (look j).isSome → (look' j).isSome := by
    intro j hj hs
    rw [hl]
    split_ifs <;> simp_all
  constructor
  · have hlo : lo ≠ k + sz v := by omega
    exact hsup lo hlo h.first
  · intro j u hj
    rcases hcases j u hj with ⟨-, rfl⟩ | ⟨-, -, hj⟩
    · omega
    · exact h.pos j u hj
  · intro j u hj
    rcases hcases j u hj with ⟨rfl, rfl⟩ | ⟨-, -, hj⟩
    · omega
    · exact h.inside j u hj
  · intro j u hj
    rcases hcases j u hj with ⟨rfl, rfl⟩ | ⟨hjk, hjk', hj⟩
    · have hnext := h.next _ w hn
      rw [hsz, ← Nat.add_assoc]
      exact hnext.imp_right (hsup _ (by omega))
    · exact (h.next j u hj).imp_right (hsup _ (hend j u hjk hjk' hj))
  · intro j u hj j' hj' hlt
    rcases hcases j u hj with ⟨rfl, rfl⟩ | ⟨-, -, hj⟩
    · rcases hsome j' hj' with rfl | ⟨hj'k, hj'⟩
      · omega
      · have h1 := h.gap j v hk j' hj' hlt
        have h2 := h.gap _ w hn j' hj' (by omega)
        omega
    · rcases hsome j' hj' with rfl | ⟨-, hj'⟩
      · exact h.gap j u hj _ (by rw [hk]; rfl) hlt
      · exact h.gap j u hj j' hj' hlt

section OrdMap

variable {m : OrdMap Nat ν}

/-- The piece below a key ends at that key. -/
theorem Tiles.below_end (h : Tiles sz m.find? lo hi) (hj : (m.find? j).isSome)
    (hb : m.below j = some i) (hu : m.find? i = some u) : i + sz u = j := by
  obtain ⟨-, hij, hgreatest⟩ := (OrdMap.below_eq_some_iff m j i).mp hb
  have hgap := h.gap i u hu j hj hij
  have hpos := h.pos i u hu
  obtain ⟨w, hw⟩ := Option.isSome_iff_exists.mp hj
  have hjhi := h.lt_hi hw
  rcases h.next i u hu with hend | hnext
  · omega
  · have hle : i + sz u ≤ j := hgap
    by_contra hne
    have := hgreatest _ ((OrdMap.mem_keys_iff m _).mpr hnext) (by omega)
    omega

/-- The piece after the one at `k` starts where that one ends. -/
theorem Tiles.upperBound_eq (h : Tiles sz m.find? lo hi) (hk : m.find? k = some v)
    (hu : m.upperBound k = some j) : j = k + sz v := by
  obtain ⟨hj, hkj, hleast⟩ := (OrdMap.upperBound_eq_some_iff m k j).mp hu
  have hgap := h.gap k v hk j ((OrdMap.mem_keys_iff m j).mp hj) hkj
  have hjhi : j < hi := by
    obtain ⟨w, hw⟩ := OrdMap.find?_of_mem_keys hj
    exact h.lt_hi hw
  have hpos := h.pos k v hk
  rcases h.next k v hk with hend | hnext
  · omega
  · have := hleast _ ((OrdMap.mem_keys_iff m _).mpr hnext) (by omega)
    omega

end OrdMap

end Tiling

/-! ## Allocators of ranges -/

section Allocator

variable {σ : Type} {allocate : σ → Nat → Nat × σ} {release : σ → Nat → Nat → σ}
  {Out : σ → Nat × Nat → Prop}

/-- The contract of an allocator of ranges over states `σ`, the ranges
outstanding in `s` being `Out s`: what `allocate s n` hands out is `n` long,
apart from every outstanding range, and outstanding from then on;
`release s p n` takes back `(p, n)` and leaves every other range outstanding. -/
structure Lawful (allocate : σ → Nat → Nat × σ) (release : σ → Nat → Nat → σ)
    (Out : σ → Nat × Nat → Prop) : Prop where
  apart : ∀ s n r, 0 < n → Out s r → Apart ((allocate s n).1, n) r
  out_new : ∀ s n, Out (allocate s n).2 ((allocate s n).1, n)
  out_keep : ∀ s n r, Out s r → Out (allocate s n).2 r
  release_keep : ∀ s p n r, Out s r → r ≠ (p, n) → Out (release s p n) r

/-- Releasing a list of ranges leaves outstanding every range not among them. -/
theorem Lawful.foldl_release (hl : Lawful allocate release Out) {s : σ} {r : Nat × Nat}
    (rs : List (Nat × Nat)) (hr : Out s r) (hnot : r ∉ rs) :
    Out (rs.foldl (fun s q => release s q.1 q.2) s) r := by
  induction rs generalizing s with
  | nil => exact hr
  | cons q rs ih =>
      rw [List.mem_cons, not_or] at hnot
      exact ih (hl.release_keep s q.1 q.2 r hr hnot.1) hnot.2

end Allocator

end Ranges
