/-!
# Sets of characters given by ranges

A character property is a list of ranges of code points, in ascending order and without overlap.
Membership walks the list and stops at the first range that starts above the code point.
-/

set_option autoImplicit false

namespace Stepwise.Text

/-- Ranges of code points, both ends included, ascending and disjoint. -/
abbrev Ranges := List (Nat × Nat)

/-- Whether a code point lies in one of the ranges. -/
def Ranges.has : Ranges → Nat → Bool
  | [], _ => false
  | (lo, hi) :: rest, n => if n < lo then false else n ≤ hi || Ranges.has rest n

/-- Whether the ranges ascend and keep apart, all from `lo` on. -/
def Ranges.ascendFrom : Nat → Ranges → Bool
  | _, [] => true
  | lo, (a, b) :: rest => lo ≤ a && a ≤ b && Ranges.ascendFrom (b + 1) rest

/-- A code point below the start of ascending ranges is in none of them. -/
theorem Ranges.has_eq_false_of_lt {lo n : Nat} {rs : Ranges}
    (h : Ranges.ascendFrom lo rs = true) (hn : n < lo) : Ranges.has rs n = false := by
  cases rs with
  | nil => rfl
  | cons r rest =>
    obtain ⟨a, b⟩ := r
    simp only [ascendFrom, Bool.and_eq_true, decide_eq_true_eq] at h
    have : n < a := by omega
    simp [has, this]

/-- Of ascending ranges, a code point is a member exactly if some range holds it. -/
theorem Ranges.has_iff {lo : Nat} {rs : Ranges} (h : Ranges.ascendFrom lo rs = true) (n : Nat) :
    Ranges.has rs n = true ↔ ∃ r ∈ rs, r.1 ≤ n ∧ n ≤ r.2 := by
  induction rs generalizing lo with
  | nil => simp [has]
  | cons r rest ih =>
    obtain ⟨a, b⟩ := r
    simp only [ascendFrom, Bool.and_eq_true, decide_eq_true_eq] at h
    by_cases hlt : n < a
    · have hout := Ranges.has_eq_false_of_lt h.2 (n := n) (by omega)
      have hnone : ¬ ∃ r ∈ rest, r.1 ≤ n ∧ n ≤ r.2 := by rw [← ih h.2]; simp [hout]
      simp only [has, hlt, if_true, Bool.false_eq_true, List.mem_cons, exists_eq_or_imp,
        false_iff, not_or]
      exact ⟨by omega, hnone⟩
    · have : a ≤ n := by omega
      simp [has, hlt, ih h.2, this]

/-- A member lies in one of the ranges, ascending or not. -/
theorem Ranges.exists_of_has {rs : Ranges} {n : Nat} (h : Ranges.has rs n = true) :
    ∃ r ∈ rs, r.1 ≤ n ∧ n ≤ r.2 := by
  induction rs with
  | nil => simp [has] at h
  | cons r rest ih =>
    obtain ⟨a, b⟩ := r
    by_cases hlt : n < a
    · simp [has, hlt] at h
    · simp only [has, hlt, if_false, Bool.or_eq_true, decide_eq_true_eq] at h
      rcases h with h | h
      · exact ⟨(a, b), by simp, by simp only; omega, h⟩
      · obtain ⟨r, hr, hin⟩ := ih h
        exact ⟨r, List.mem_cons_of_mem _ hr, hin⟩

/-- Whether no range of one set meets a range of the other. -/
def Ranges.apart (xs ys : Ranges) : Bool := xs.all fun x => ys.all fun y => x.2 < y.1 || y.2 < x.1

/-- Sets that are apart have no common member. -/
theorem Ranges.has_eq_false_of_apart {xs ys : Ranges} (h : Ranges.apart xs ys = true) {n : Nat}
    (hn : Ranges.has xs n = true) : Ranges.has ys n = false := by
  cases hy : Ranges.has ys n with
  | false => rfl
  | true =>
    obtain ⟨x, hx, hx1, hx2⟩ := Ranges.exists_of_has hn
    obtain ⟨y, hmem, hy1, hy2⟩ := Ranges.exists_of_has hy
    have := List.all_eq_true.1 (List.all_eq_true.1 h x hx) y hmem
    simp only [Bool.or_eq_true, decide_eq_true_eq] at this
    omega

end Stepwise.Text
