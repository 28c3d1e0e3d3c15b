import Mathlib.Data.List.Basic

/-!
# Times in a sliding window

How many of a list of times lie in an interval of a given length, wherever it
starts, and what one more time at the end changes.
-/

namespace SlidingWindow

variable (length : Int)

def upTo (a : Int) (times : List Int) : List Int := times.filter fun t => a ≤ t ∧ t ≤ a + length

/-- No interval holds more than `n` of the times. -/
def AtMost (n : Nat) (times : List Int) : Prop := ∀ a, (upTo length a times).length ≤ n

theorem atMost_nil (n : Nat) : AtMost length n [] := by
  intro a
  simp [upTo]

theorem recent_le {n : Nat} {a : Int} {times : List Int}
    (h : ∀ before t after, times = before ++ t :: after → n ≤ after.length → t < a) :
    (times.filter fun t => a ≤ t).length ≤ n := by
  induction times with
  | nil => simp
  | cons t times ih =>
    have htail : (times.filter fun t => a ≤ t).length ≤ n := by
      apply ih
      intro before u after heq
      apply h (t :: before) u after
      simp [heq]
    by_cases ht : a ≤ t
    · have hlen : times.length < n := by
        by_cases hn : n ≤ times.length
        · have := h [] t times rfl hn
          omega
        · omega
      have hfilter := List.length_filter_le (fun t => decide (a ≤ t)) times
      simp only [ht, decide_true, List.filter_cons_of_pos, List.length_cons]
      omega
    · simpa [ht] using htail

theorem atMost_snoc {n : Nat} {times : List Int} {t : Int} (h : AtMost length (n + 1) times)
    (hrecent : (times.filter fun u => t - length ≤ u).length ≤ n) : AtMost length (n + 1) (times ++ [t]) := by
  intro a
  unfold upTo
  rw [List.filter_append, List.length_append]
  by_cases ha : a ≤ t ∧ t ≤ a + length
  · have hsub : (times.filter fun u => a ≤ u ∧ u ≤ a + length).length ≤
        (times.filter fun u => t - length ≤ u).length := by
      apply List.Sublist.length_le
      apply List.monotone_filter_right
      intro u hu
      simp only [decide_eq_true_eq] at hu ⊢
      omega
    have hone := List.length_filter_le (fun u => decide (a ≤ u ∧ u ≤ a + length)) [t]
    simp only [List.length_singleton] at hone
    omega
  · have hold := h a
    unfold upTo at hold
    simpa [ha] using hold

end SlidingWindow
