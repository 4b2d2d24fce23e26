import Mathlib

/-!
# Byte ranges of a memory

A memory is a function from addresses to bytes.  `read m p n` lists the `n`
bytes from address `p`; `copy m dst src n` is `m` with the `n` bytes
`src 0, …, src (n - 1)` written from `dst` on, as `memcpy` or a DMA copy does.

A range read splits at any point (`read_split`, `read_split_at`), sees a copy's bytes where the
copy wrote (`read_copy_self`) and the old bytes where it did not
(`read_copy_of_disjoint`); a copy made in two pieces is one copy
(`copy_copy`).
-/

namespace Bytes

variable {α : Type}

/-- The `n` bytes of `m` from address `p` on. -/
def read (m : Nat → α) (p n : Nat) : List α :=
  (List.range n).map fun i => m (p + i)

/-- `m` with the bytes `src 0, …, src (n - 1)` written at `dst, …, dst + n - 1`. -/
def copy (m : Nat → α) (dst : Nat) (src : Nat → α) (n : Nat) : Nat → α :=
  fun a => if dst ≤ a ∧ a < dst + n then src (a - dst) else m a

@[simp]
theorem length_read (m : Nat → α) (p n : Nat) : (read m p n).length = n := by
  simp [read]

@[simp]
theorem read_zero (m : Nat → α) (p : Nat) : read m p 0 = [] := rfl

theorem read_add (m : Nat → α) (p a b : Nat) : read m p (a + b) = read m p a ++ read m (p + a) b := by
  simp only [read, List.range_add, List.map_append, List.map_map]
  congr 1
  apply List.map_congr_left
  intro i _
  simp [Nat.add_assoc]

/-- A range read splits where its first part ends. -/
theorem read_split (m : Nat → α) (p : Nat) {a b : Nat} (h : a ≤ b) :
    read m p b = read m p a ++ read m (p + a) (b - a) := by
  rw [← read_add, Nat.add_sub_cancel' h]

/-- The range `[p, e)` splits at any `q` between. -/
theorem read_split_at (m : Nat → α) {p q e : Nat} (hpq : p ≤ q) (hqe : q ≤ e) :
    read m p (e - p) = read m p (q - p) ++ read m q (e - q) := by
  rw [read_split m p (show q - p ≤ e - p by omega), Nat.add_sub_cancel' hpq,
    Nat.sub_sub_sub_cancel_right hpq]

theorem read_congr {m m' : Nat → α} {p n : Nat} (h : ∀ a, p ≤ a → a < p + n → m a = m' a) :
    read m p n = read m' p n := by
  apply List.map_congr_left
  intro i hi
  rw [List.mem_range] at hi
  exact h (p + i) (Nat.le_add_right p i) (by omega)

theorem copy_of_not_mem {m : Nat → α} {dst : Nat} {src : Nat → α} {n a : Nat}
    (h : a < dst ∨ dst + n ≤ a) : copy m dst src n a = m a := by
  have : ¬ (dst ≤ a ∧ a < dst + n) := by omega
  simp only [copy, this, if_false]

@[simp]
theorem copy_zero (m : Nat → α) (dst : Nat) (src : Nat → α) : copy m dst src 0 = m := by
  funext a
  exact copy_of_not_mem (by omega)

/-- The copy's own range reads back the bytes copied. -/
theorem read_copy_self (m : Nat → α) (dst : Nat) (src : Nat → α) (n : Nat) :
    read (copy m dst src n) dst n = read src 0 n := by
  apply List.map_congr_left
  intro i hi
  rw [List.mem_range] at hi
  have : dst ≤ dst + i ∧ dst + i < dst + n := by omega
  simp [copy, this]

/-- A range the copy does not reach reads as before. -/
theorem read_copy_of_disjoint {m : Nat → α} {dst : Nat} {src : Nat → α} {n p k : Nat}
    (h : p + k ≤ dst ∨ dst + n ≤ p) : read (copy m dst src n) p k = read m p k :=
  read_congr fun _ hp hk => copy_of_not_mem (by omega)

/-- Copying `a` bytes and then the next `b` is one copy of `a + b` bytes. -/
theorem copy_copy (m : Nat → α) (dst : Nat) (src : Nat → α) (a b : Nat) :
    copy (copy m dst src a) (dst + a) (fun i => src (a + i)) b = copy m dst src (a + b) := by
  funext x
  simp only [copy]
  by_cases h2 : dst + a ≤ x ∧ x < dst + a + b
  · have h1 : dst ≤ x ∧ x < dst + (a + b) := by omega
    rw [if_pos h2, if_pos h1]
    congr 1
    omega
  · rw [if_neg h2]
    by_cases h1 : dst ≤ x ∧ x < dst + a
    · have h1' : dst ≤ x ∧ x < dst + (a + b) := by omega
      rw [if_pos h1, if_pos h1']
    · have h1' : ¬ (dst ≤ x ∧ x < dst + (a + b)) := by omega
      rw [if_neg h1, if_neg h1']

end Bytes
