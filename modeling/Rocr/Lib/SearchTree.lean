import Mathlib

/-!
# Binary search trees addressed by paths

A node of a binary tree is named by its path from the root (`false` for a left
turn, `true` for a right one), so that two searches can be asked whether they
stopped at the same node.  Each node has an in-order index, its position in
`toList`, and every search below is pinned down by that index:

* `nearest` is the nearest-key descent: it stops at a node whose key equals the
  one sought, and otherwise returns the last node it passed on its way left
  (`Side.right`, the least key above) or on its way right (`Side.left`, the
  greatest key below); `nearest_right_some` and `nearest_left_some` say what
  it returns on a tree sorted in order;
* `minPath` and `maxPath` are the leftmost and the rightmost node;
* `prev` is the in-order predecessor found through the left subtree or the
  parents: its index is one less (`prev_index`).

Nothing here depends on a balancing scheme: the lemmas hold for every shape.
-/

namespace SearchTree

inductive Tree (α : Type) where
  | leaf
  | node (left : Tree α) (key : α) (right : Tree α)
deriving Repr

/-- The side a nearest search falls back to when no key matches. -/
inductive Side where
  | left
  | right
deriving DecidableEq, Repr

/-- A node's turns from the root: `false` left, `true` right. -/
abbrev Path := List Bool

namespace Tree

variable {α : Type}

def toList : Tree α → List α
  | leaf => []
  | node l x r => l.toList ++ x :: r.toList

def leftChild : Tree α → Tree α
  | leaf => leaf
  | node l _ _ => l

def get? : Tree α → Path → Option α
  | leaf, _ => none
  | node _ x _, [] => some x
  | node l _ _, false :: p => l.get? p
  | node _ _ r, true :: p => r.get? p

def subtree : Tree α → Path → Tree α
  | leaf, _ => leaf
  | node l x r, [] => node l x r
  | node l _ _, false :: p => l.subtree p
  | node _ _ r, true :: p => r.subtree p

/-- The in-order position of the node at a path. -/
def index : Tree α → Path → Nat
  | leaf, _ => 0
  | node l _ _, [] => l.toList.length
  | node l _ _, false :: p => l.index p
  | node l _ r, true :: p => l.toList.length + 1 + r.index p

/-- The nearest-key descent; `cut x` is how the key sought compares with the
node's. -/
def nearest (cut : α → Ordering) (side : Side) : Tree α → Option Path
  | leaf => none
  | node l x r =>
    match cut x with
    | .lt =>
      match l.nearest cut side with
      | some p => some (false :: p)
      | none => if side = .right then some [] else none
    | .gt =>
      match r.nearest cut side with
      | some p => some (true :: p)
      | none => if side = .left then some [] else none
    | .eq => some []

def minPath : Tree α → Option Path
  | leaf => none
  | node l _ _ => some ((l.minPath.map (false :: ·)).getD [])

def maxPath : Tree α → Option Path
  | leaf => none
  | node _ _ r => some ((r.maxPath.map (true :: ·)).getD [])

/-- The parent of the deepest node of a path that is a right child. -/
def upRight : Path → Option Path
  | [] => none
  | b :: p =>
    match upRight p with
    | some q => some (b :: q)
    | none => if b then some [] else none

/-- The in-order predecessor: the rightmost node of the left subtree, or else
the nearest ancestor of which the node lies in the right subtree. -/
def prev (t : Tree α) (p : Path) : Option Path :=
  match ((t.subtree p).leftChild).maxPath with
  | some q => some (p ++ false :: q)
  | none => upRight p

@[simp] theorem toList_leaf : (leaf : Tree α).toList = [] := rfl

@[simp] theorem toList_node (l : Tree α) (x : α) (r : Tree α) :
    (node l x r).toList = l.toList ++ x :: r.toList := rfl

/-! ## Paths and in-order indices -/

theorem getElem?_index {t : Tree α} {p : Path} {x : α} (h : t.get? p = some x) :
    t.toList[t.index p]? = some x := by
  induction t generalizing p with
  | leaf => cases h
  | node l y r ihl ihr =>
    match p with
    | [] =>
      cases h
      simp [index]
    | false :: p =>
      have hl := ihl h
      have hlt : l.index p < l.toList.length := (List.getElem?_eq_some_iff.mp hl).1
      simpa [index, List.getElem?_append_left hlt] using hl
    | true :: p =>
      have hr := ihr h
      rw [index, toList_node, List.getElem?_append_right (by omega)]
      simpa [Nat.add_sub_cancel_left, Nat.add_assoc, Nat.add_comm 1] using hr

theorem index_lt {t : Tree α} {p : Path} {x : α} (h : t.get? p = some x) :
    t.index p < t.toList.length :=
  (List.getElem?_eq_some_iff.mp (getElem?_index h)).1

/-- Two nodes with one in-order index are one node. -/
theorem eq_of_index_eq {t : Tree α} {p q : Path} {x y : α} (hp : t.get? p = some x)
    (hq : t.get? q = some y) (h : t.index p = t.index q) : p = q := by
  induction t generalizing p q with
  | leaf => cases hp
  | node l z r ihl ihr =>
    match p, q with
    | [], [] => rfl
    | [], false :: q =>
      have := index_lt (t := l) hq
      simp only [index] at h
      omega
    | [], true :: q =>
      simp only [index] at h
      omega
    | false :: p, [] =>
      have := index_lt (t := l) hp
      simp only [index] at h
      omega
    | false :: p, false :: q => rw [ihl hp hq h]
    | false :: p, true :: q =>
      have := index_lt (t := l) hp
      simp only [index] at h
      omega
    | true :: p, [] =>
      simp only [index] at h
      omega
    | true :: p, false :: q =>
      have := index_lt (t := l) hq
      simp only [index] at h
      omega
    | true :: p, true :: q =>
      simp only [index] at h
      rw [ihr hp hq (by omega)]

/-- The in-order list cut at a node. -/
theorem toList_split {t : Tree α} {p : Path} {x : α} (h : t.get? p = some x) :
    t.toList = t.toList.take (t.index p) ++ x :: t.toList.drop (t.index p + 1) := by
  have hx := getElem?_index h
  obtain ⟨hlt, hget⟩ := List.getElem?_eq_some_iff.mp hx
  have hdrop : t.toList.drop (t.index p) = x :: t.toList.drop (t.index p + 1) := by
    rw [List.drop_eq_getElem_cons hlt, hget]
  rw [← hdrop, List.take_append_drop]

theorem mem_take_of_getElem? {l : List α} {i j : Nat} {y : α} (hy : l[j]? = some y)
    (hji : j < i) : y ∈ l.take i :=
  List.mem_of_getElem? (by rwa [List.getElem?_take_of_lt hji])

theorem mem_drop_of_getElem? {l : List α} {i j : Nat} {y : α} (hy : l[j]? = some y)
    (hij : i ≤ j) : y ∈ l.drop i :=
  List.mem_of_getElem? (i := j - i) (by rwa [List.getElem?_drop, Nat.add_sub_cancel' hij])

/-- A relation that holds pairwise in order relates every node before a node
to it. -/
theorem rel_of_mem_take {R : α → α → Prop} {t : Tree α} {p : Path} {x y : α}
    (hR : t.toList.Pairwise R) (h : t.get? p = some x) (hy : y ∈ t.toList.take (t.index p)) :
    R y x := by
  rw [toList_split h, List.pairwise_append] at hR
  exact hR.2.2 y hy x List.mem_cons_self

/-- A relation that holds pairwise in order relates a node to every node after
it. -/
theorem rel_of_mem_drop {R : α → α → Prop} {t : Tree α} {p : Path} {x y : α}
    (hR : t.toList.Pairwise R) (h : t.get? p = some x) (hy : y ∈ t.toList.drop (t.index p + 1)) :
    R x y := by
  rw [toList_split h, List.pairwise_append, List.pairwise_cons] at hR
  exact hR.2.1.1 y hy

theorem minPath_eq_none {t : Tree α} : t.minPath = none ↔ t.toList = [] := by
  cases t <;> simp [minPath]

theorem minPath_spec {t : Tree α} {p : Path} (h : t.minPath = some p) :
    ∃ x, t.get? p = some x ∧ t.index p = 0 := by
  induction t generalizing p with
  | leaf => cases h
  | node l y r ihl _ =>
    simp only [minPath, Option.some.injEq] at h
    subst h
    cases hl : l.minPath with
    | none =>
      have : l.toList = [] := minPath_eq_none.mp hl
      exact ⟨y, rfl, by simp [index, this]⟩
    | some q =>
      obtain ⟨x, hx, hidx⟩ := ihl hl
      exact ⟨x, hx, by simpa [index] using hidx⟩

theorem maxPath_eq_none {t : Tree α} : t.maxPath = none ↔ t.toList = [] := by
  cases t <;> simp [maxPath]

theorem maxPath_spec {t : Tree α} {p : Path} (h : t.maxPath = some p) :
    ∃ x, t.get? p = some x ∧ t.index p + 1 = t.toList.length := by
  induction t generalizing p with
  | leaf => cases h
  | node l y r _ ihr =>
    simp only [maxPath, Option.some.injEq] at h
    subst h
    cases hr : r.maxPath with
    | none =>
      have : r.toList = [] := maxPath_eq_none.mp hr
      exact ⟨y, rfl, by simp [index, this]⟩
    | some q =>
      obtain ⟨x, hx, hidx⟩ := ihr hr
      refine ⟨x, hx, ?_⟩
      simp only [Option.map_some, Option.getD_some, index, toList_node, List.length_append,
        List.length_cons]
      omega

/-! ## The predecessor -/

theorem prev_nil (l : Tree α) (x : α) (r : Tree α) :
    (node l x r).prev [] = l.maxPath.map (false :: ·) := by
  simp only [prev, subtree, leftChild]
  split <;> simp_all [upRight]

theorem prev_false (l : Tree α) (x : α) (r : Tree α) (p : Path) :
    (node l x r).prev (false :: p) = (l.prev p).map (false :: ·) := by
  unfold prev
  simp only [subtree]
  split
  · simp
  · simp only [upRight]
    split <;> simp_all

theorem prev_true (l : Tree α) (x : α) (r : Tree α) (p : Path) :
    (node l x r).prev (true :: p) = some (((r.prev p).map (true :: ·)).getD []) := by
  unfold prev
  simp only [subtree]
  split
  · simp
  · simp only [upRight]
    split <;> simp_all

/-- The predecessor of a node is the node one place before it in order, and
there is none before the first. -/
theorem prev_index {t : Tree α} {p : Path} {x : α} (hp : t.get? p = some x) :
    (∀ q, t.prev p = some q → ∃ y, t.get? q = some y ∧ t.index q + 1 = t.index p) ∧
      (t.prev p = none → t.index p = 0) := by
  induction t generalizing p x with
  | leaf => cases hp
  | node l z r ihl ihr =>
    match p with
    | [] =>
      rw [prev_nil]
      cases hl : l.maxPath with
      | none =>
        have : l.toList = [] := maxPath_eq_none.mp hl
        simp [index, this]
      | some q =>
        obtain ⟨y, hy, hidx⟩ := maxPath_spec hl
        refine ⟨?_, by simp⟩
        rintro _ ⟨⟩
        exact ⟨y, hy, by simpa [index] using hidx⟩
    | false :: p =>
      obtain ⟨hsome, hnone⟩ := ihl hp
      rw [prev_false]
      refine ⟨?_, fun h => by simpa [index] using hnone (by simpa using h)⟩
      intro q hq
      obtain ⟨q', hq', rfl⟩ := Option.map_eq_some_iff.mp hq
      obtain ⟨y, hy, hidx⟩ := hsome q' hq'
      exact ⟨y, hy, by simpa [index] using hidx⟩
    | true :: p =>
      obtain ⟨hsome, hnone⟩ := ihr hp
      rw [prev_true]
      refine ⟨?_, by simp⟩
      rintro _ ⟨⟩
      cases hr : r.prev p with
      | none =>
        have := hnone hr
        exact ⟨z, rfl, by simp [index, this]⟩
      | some q' =>
        obtain ⟨y, hy, hidx⟩ := hsome q' hr
        refine ⟨y, hy, ?_⟩
        simp only [Option.map_some, Option.getD_some, index]
        omega

/-! ## The nearest-key descent on a sorted tree -/

section Nearest

variable {κ : Type} [LinearOrder κ] (key : α → κ) (q : κ)

theorem nearest_right_none {t : Tree α} (hs : t.toList.Pairwise fun x y => key x ≤ key y)
    (h : t.nearest (fun x => compare q (key x)) .right = none) :
    ∀ y ∈ t.toList, key y < q := by
  induction t with
  | leaf => simp
  | node l x r ihl ihr =>
    rw [toList_node, List.pairwise_append, List.pairwise_cons] at hs
    obtain ⟨hl, ⟨_, hr⟩, hlx⟩ := hs
    simp only [nearest] at h
    split at h
    · split at h <;> simp_all
    · next hc =>
      have hxq : key x < q := compare_gt_iff_gt.mp hc
      split at h
      · cases h
      · next hr' =>
        intro y hy
        rcases List.mem_append.mp hy with hy | hy
        · exact lt_of_le_of_lt (hlx y hy x List.mem_cons_self) hxq
        · rcases List.mem_cons.mp hy with rfl | hy
          · exact hxq
          · exact ihr hr hr' y hy
    · cases h

theorem nearest_left_none {t : Tree α} (hs : t.toList.Pairwise fun x y => key x ≤ key y)
    (h : t.nearest (fun x => compare q (key x)) .left = none) :
    ∀ y ∈ t.toList, q < key y := by
  induction t with
  | leaf => simp
  | node l x r ihl ihr =>
    rw [toList_node, List.pairwise_append, List.pairwise_cons] at hs
    obtain ⟨hl, ⟨hxr, _⟩, hlx⟩ := hs
    simp only [nearest] at h
    split at h
    · next hc =>
      have hqx : q < key x := compare_lt_iff_lt.mp hc
      split at h
      · cases h
      · next hl' =>
        intro y hy
        rcases List.mem_append.mp hy with hy | hy
        · exact ihl hl hl' y hy
        · rcases List.mem_cons.mp hy with rfl | hy
          · exact hqx
          · exact lt_of_lt_of_le hqx (hxr y hy)
    · split at h <;> simp_all
    · cases h

/-- A search to the right stops at a node whose key is the one sought, or at
the first node in order whose key lies above it. -/
theorem nearest_right_some {t : Tree α} {p : Path}
    (hs : t.toList.Pairwise fun x y => key x ≤ key y)
    (h : t.nearest (fun x => compare q (key x)) .right = some p) :
    ∃ x, t.get? p = some x ∧ q ≤ key x ∧
      (key x = q ∨ ∀ y ∈ t.toList.take (t.index p), key y < q) := by
  induction t generalizing p with
  | leaf => cases h
  | node l x r ihl ihr =>
    have hs' := hs
    rw [toList_node, List.pairwise_append, List.pairwise_cons] at hs'
    obtain ⟨hl, ⟨_, hr⟩, hlx⟩ := hs'
    simp only [nearest] at h
    split at h
    · next hc =>
      have hqx : q < key x := compare_lt_iff_lt.mp hc
      split at h
      · next p' hp' =>
        cases h
        obtain ⟨y, hy, hqy, hor⟩ := ihl hl hp'
        have hlt : l.index p' ≤ l.toList.length := Nat.le_of_lt (index_lt hy)
        refine ⟨y, hy, hqy, ?_⟩
        rw [index, toList_node, List.take_append_of_le_length hlt]
        exact hor
      · next hl' =>
        cases h
        refine ⟨x, rfl, hqx.le, Or.inr ?_⟩
        simpa [index] using nearest_right_none key q hl hl'
    · next hc =>
      have hxq : key x < q := compare_gt_iff_gt.mp hc
      split at h
      · next p' hp' =>
        cases h
        obtain ⟨y, hy, hqy, hor⟩ := ihr hr hp'
        refine ⟨y, hy, hqy, hor.imp_right fun hall z hz => ?_⟩
        simp only [index, toList_node, List.take_append, List.mem_append] at hz
        -- the nodes before the right subtree are at most `x`, below the key
        rcases hz with hz | hz
        · exact lt_of_le_of_lt (hlx z (List.mem_of_mem_take hz) x List.mem_cons_self) hxq
        · rw [show l.toList.length + 1 + r.index p' - l.toList.length = r.index p' + 1 by omega,
            List.take_succ_cons, List.mem_cons] at hz
          rcases hz with rfl | hz
          · exact hxq
          · exact hall z hz
      · simp at h
    · next hc =>
      cases h
      exact ⟨x, rfl, (compare_eq_iff_eq.mp hc).le, Or.inl (compare_eq_iff_eq.mp hc).symm⟩

/-- A search to the left stops at a node whose key is the one sought, or at
the last node in order whose key lies below it. -/
theorem nearest_left_some {t : Tree α} {p : Path}
    (hs : t.toList.Pairwise fun x y => key x ≤ key y)
    (h : t.nearest (fun x => compare q (key x)) .left = some p) :
    ∃ x, t.get? p = some x ∧ key x ≤ q ∧
      (key x = q ∨ ∀ y ∈ t.toList.drop (t.index p + 1), q < key y) := by
  induction t generalizing p with
  | leaf => cases h
  | node l x r ihl ihr =>
    have hs' := hs
    rw [toList_node, List.pairwise_append, List.pairwise_cons] at hs'
    obtain ⟨hl, ⟨hxr, hr⟩, hlx⟩ := hs'
    simp only [nearest] at h
    split at h
    · next hc =>
      have hqx : q < key x := compare_lt_iff_lt.mp hc
      split at h
      · next p' hp' =>
        cases h
        obtain ⟨y, hy, hyq, hor⟩ := ihl hl hp'
        have hlt := index_lt hy
        refine ⟨y, hy, hyq, hor.imp_right fun hall z hz => ?_⟩
        simp only [index, toList_node, List.drop_append_of_le_length hlt, List.mem_append] at hz
        -- the nodes after the left subtree are at least `x`, above the key
        rcases hz with hz | hz
        · exact hall z hz
        · rcases List.mem_cons.mp hz with rfl | hz
          · exact hqx
          · exact lt_of_lt_of_le hqx (hxr z hz)
      · simp at h
    · next hc =>
      have hxq : key x < q := compare_gt_iff_gt.mp hc
      split at h
      · next p' hp' =>
        cases h
        obtain ⟨y, hy, hyq, hor⟩ := ihr hr hp'
        refine ⟨y, hy, hyq, ?_⟩
        rw [index, toList_node,
          show l.toList.length + 1 + r.index p' + 1 = l.toList.length + (r.index p' + 1 + 1) by omega,
          List.drop_length_add_append, List.drop_succ_cons]
        exact hor
      · next hr' =>
        cases h
        refine ⟨x, rfl, hxq.le, Or.inr ?_⟩
        simpa [index] using nearest_left_none key q hr hr'
    · next hc =>
      cases h
      exact ⟨x, rfl, (compare_eq_iff_eq.mp hc).ge, Or.inl (compare_eq_iff_eq.mp hc).symm⟩

end Nearest

end Tree

end SearchTree
