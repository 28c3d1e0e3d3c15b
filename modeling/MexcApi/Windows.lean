import Mathlib.Data.List.Chain
import Mathlib.Tactic.Ring

/-!
# Windows of a time series

A series is a list with a time `t x` for each entry. `inRange` selects a
closed interval of times, `newest` the last entries. A gap-free series has one
entry at every `step` between its ends; in one that is `Apart`, entries are at
least a `step` from each other, with holes of any length.
-/

namespace Windows

variable {α : Type} (t : α → Int)

def inRange (lo hi : Int) (l : List α) : List α := l.filter fun x => lo ≤ t x ∧ t x ≤ hi

def upTo (hi : Int) (l : List α) : List α := l.filter fun x => t x ≤ hi

def newest (n : Nat) (l : List α) : List α := l.drop (l.length - n)

def Ascending (l : List α) : Prop := l.Pairwise fun x y => t x < t y

def GapFree (step : Int) (l : List α) : Prop := l.IsChain fun x y => t y = t x + step

def Apart (step : Int) (l : List α) : Prop := l.Pairwise fun x y => t x + step ≤ t y

/-- `y` comes directly before `x`. -/
def Adjacent (l : List α) (y x : α) : Prop := ∃ a b, l = a ++ y :: x :: b

theorem reverse_flatten_snoc (written : List (List α)) (batch : List α) :
    (written ++ [batch]).reverse.flatten = batch ++ written.reverse.flatten := by
  rw [List.reverse_append, List.reverse_singleton, List.singleton_append, List.flatten_cons]

theorem filter_filter_iff {p q r : α → Bool} (h : ∀ x, q x = true ∧ p x = true ↔ r x = true) (l : List α) :
    (l.filter p).filter q = l.filter r := by
  rw [List.filter_filter]
  apply List.filter_congr
  intro x _
  rw [Bool.eq_iff_iff, Bool.and_eq_true]
  exact h x

/-! ## Closed intervals -/

theorem mem_inRange {lo hi : Int} {l : List α} {x : α} :
    x ∈ inRange t lo hi l ↔ x ∈ l ∧ lo ≤ t x ∧ t x ≤ hi := by
  simp [inRange, List.mem_filter]

theorem inRange_append (lo hi : Int) (a b : List α) :
    inRange t lo hi (a ++ b) = inRange t lo hi a ++ inRange t lo hi b :=
  List.filter_append ..

theorem inRange_eq_self {lo hi : Int} {l : List α} (h : ∀ x ∈ l, lo ≤ t x ∧ t x ≤ hi) :
    inRange t lo hi l = l := by
  unfold inRange
  rw [List.filter_eq_self]
  intro x hx
  simpa using h x hx

theorem inRange_eq_nil {lo hi : Int} {l : List α} (h : ∀ x ∈ l, t x < lo ∨ hi < t x) :
    inRange t lo hi l = [] := by
  unfold inRange
  rw [List.filter_eq_nil_iff]
  intro x hx
  have := h x hx
  simp only [decide_eq_true_eq]
  omega

theorem inRange_inRange {lo hi lo' hi' : Int} (hlo : lo ≤ lo') (hhi : hi' ≤ hi) (l : List α) :
    inRange t lo' hi' (inRange t lo hi l) = inRange t lo' hi' l := by
  apply filter_filter_iff
  intro x
  simp only [decide_eq_true_eq]
  omega

theorem Ascending.inRange {l : List α} (h : Ascending t l) (lo hi : Int) : Ascending t (inRange t lo hi l) :=
  List.Pairwise.filter _ h

theorem Ascending.left {a b : List α} (h : Ascending t (a ++ b)) : Ascending t a :=
  (List.pairwise_append.mp h).1

theorem Ascending.right {a b : List α} (h : Ascending t (a ++ b)) : Ascending t b :=
  (List.pairwise_append.mp h).2.1

theorem Ascending.lt {a b : List α} (h : Ascending t (a ++ b)) {x y : α} (hx : x ∈ a) (hy : y ∈ b) : t x < t y :=
  (List.pairwise_append.mp h).2.2 x hx y hy

/-- A smaller window that ends before `x` selects from what comes before `x`
in the larger window. -/
theorem inRange_before {lo hi lo' hi' : Int} {l a b : List α} {x : α} (hs : Ascending t l)
    (h : inRange t lo hi l = a ++ x :: b) (hlo : lo ≤ lo') (hhi : hi' < t x) :
    inRange t lo' hi' l = inRange t lo' hi' a := by
  have hx : t x ≤ hi := ((mem_inRange t).mp (show x ∈ inRange t lo hi l by rw [h]; simp)).2.2
  have hasc : Ascending t (a ++ x :: b) := h ▸ hs.inRange t lo hi
  have hnil : inRange t lo' hi' (x :: b) = [] := by
    apply inRange_eq_nil
    intro y hy
    right
    rcases List.mem_cons.mp hy with rfl | hy
    · exact hhi
    · have := (List.pairwise_cons.mp (hasc.right t)).1 y hy
      omega
  rw [← inRange_inRange t hlo (show hi' ≤ hi by omega) l, h, inRange_append, hnil, List.append_nil]

/-- In an ascending series an interval is a stretch, with earlier entries
before it and later ones after it. -/
theorem inRange_split (lo hi : Int) : ∀ {l : List α}, Ascending t l →
    ∃ pre post, l = pre ++ inRange t lo hi l ++ post ∧ (∀ x ∈ pre, t x < lo) ∧ ∀ x ∈ post, hi < t x
  | [], _ => ⟨[], [], rfl, by simp, by simp⟩
  | x :: l, hs => by
    obtain ⟨hx, hl⟩ := List.pairwise_cons.mp hs
    obtain ⟨pre, post, heq, hpre, hpost⟩ := inRange_split lo hi hl
    by_cases hlo : t x < lo
    · refine ⟨x :: pre, post, ?_, ?_, hpost⟩
      · rw [show inRange t lo hi (x :: l) = inRange t lo hi l by
          unfold inRange; rw [List.filter_cons_of_neg]; simp only [decide_eq_true_eq]; omega]
        rw [List.cons_append, List.cons_append, ← heq]
      · intro y hy
        rcases List.mem_cons.mp hy with rfl | hy
        · exact hlo
        · exact hpre y hy
    · by_cases hhi : t x ≤ hi
      · -- nothing of `l` comes before the window
        have hnil : pre = [] := by
          cases pre with
          | nil => rfl
          | cons y pre =>
            have h1 := hpre y (by simp)
            have h2 := hx y (by rw [heq]; simp)
            omega
        subst hnil
        refine ⟨[], post, ?_, by simp, hpost⟩
        rw [show inRange t lo hi (x :: l) = x :: inRange t lo hi l by
          unfold inRange; rw [List.filter_cons_of_pos]; simp only [decide_eq_true_eq]; omega]
        rw [List.nil_append, List.cons_append, ← List.nil_append (inRange t lo hi l), ← heq]
      · refine ⟨[], x :: l, ?_, by simp, ?_⟩
        · rw [inRange_eq_nil]
          · rfl
          · intro y hy
            right
            rcases List.mem_cons.mp hy with rfl | hy
            · omega
            · have := hx y hy; omega
        · intro y hy
          rcases List.mem_cons.mp hy with rfl | hy
          · omega
          · have := hx y hy; omega

theorem upTo_split {lo hi : Int} (hlh : lo ≤ hi) {l : List α} (hs : Ascending t l) :
    ∃ pre, upTo t hi l = pre ++ inRange t lo hi l ∧ (∀ x ∈ pre, t x < lo) ∧ ∀ x ∈ l, t x < lo → x ∈ pre := by
  obtain ⟨pre, post, heq, hpre, hpost⟩ := inRange_split t lo hi hs
  refine ⟨pre, ?_, hpre, ?_⟩
  · have h1 : upTo t hi pre = pre := by
      unfold upTo
      rw [List.filter_eq_self]
      intro x hx
      have := hpre x hx
      simp only [decide_eq_true_eq]; omega
    have h2 : upTo t hi (inRange t lo hi l) = inRange t lo hi l := by
      unfold upTo
      rw [List.filter_eq_self]
      intro x hx
      simpa using ((mem_inRange t).mp hx).2.2
    have h3 : upTo t hi post = [] := by
      unfold upTo
      rw [List.filter_eq_nil_iff]
      intro x hx
      have := hpost x hx
      simp only [decide_eq_true_eq]; omega
    calc upTo t hi l = upTo t hi (pre ++ inRange t lo hi l ++ post) := by rw [← heq]
      _ = upTo t hi pre ++ upTo t hi (inRange t lo hi l) ++ upTo t hi post := by
        unfold upTo; rw [List.filter_append, List.filter_append]
      _ = pre ++ inRange t lo hi l := by rw [h1, h2, h3, List.append_nil]
  · intro x hx hlt
    rw [heq, List.append_assoc] at hx
    rcases List.mem_append.mp hx with hx | hx
    · exact hx
    · rcases List.mem_append.mp hx with hx | hx
      · have := ((mem_inRange t).mp hx).2.1; omega
      · have := hpost x hx; omega

/-! ## The last entries -/

theorem newest_length (n : Nat) (l : List α) : (newest n l).length = min n l.length := by
  unfold newest
  rw [List.length_drop]
  omega

theorem newest_append {n : Nat} {a b : List α} (h : n ≤ b.length) : newest n (a ++ b) = newest n b := by
  unfold newest
  rw [List.length_append, List.drop_append, List.drop_eq_nil_of_le (by omega), List.nil_append]
  congr 1
  omega

theorem newest_split (n : Nat) (l : List α) : l = l.take (l.length - n) ++ newest n l :=
  (List.take_append_drop _ _).symm

theorem newest_eq_nil {n : Nat} (hn : 0 < n) {l : List α} (h : newest n l = []) : l = [] := by
  have := newest_length n l
  rw [h, List.length_nil] at this
  exact List.length_eq_zero_iff.mp (by omega)

/-! ## Gap-free series -/

theorem GapFree.ascending {step : Int} (hstep : 0 < step) : ∀ {l : List α}, GapFree t step l → Ascending t l
  | [], _ => List.Pairwise.nil
  | [x], _ => List.pairwise_singleton ..
  | x :: y :: l, h => by
    obtain ⟨hxy, hl⟩ := List.isChain_cons_cons.mp h
    have ih : Ascending t (y :: l) := GapFree.ascending hstep hl
    refine List.pairwise_cons.mpr ⟨?_, ih⟩
    intro z hz
    rcases List.mem_cons.mp hz with rfl | hz
    · omega
    · have := (List.pairwise_cons.mp ih).1 z hz
      omega

theorem GapFree.inRange {step : Int} (hstep : 0 < step) {l : List α} (h : GapFree t step l) (lo hi : Int) :
    GapFree t step (inRange t lo hi l) := by
  obtain ⟨pre, post, heq, -, -⟩ := inRange_split t lo hi (h.ascending t hstep)
  exact List.IsChain.infix h ⟨pre, post, heq.symm⟩

theorem GapFree.adjacent {step : Int} {a b : List α} {x y : α} (h : GapFree t step (a ++ y :: x :: b)) :
    t x = t y + step :=
  (List.isChain_cons_cons.mp (List.IsChain.right_of_append h)).1

/-- Counted back from its last entry `y`, a gap-free series goes down by one
step an entry. -/
theorem GapFree.ge_last {step : Int} (hstep : 0 < step) {y : α} : ∀ {l : List α}, GapFree t step (l ++ [y]) →
    ∀ x ∈ l, t y - l.length * step ≤ t x
  | [], _, _, hx => by cases hx
  | x :: l, h, z, hz => by
    have ih := GapFree.ge_last hstep (List.IsChain.tail h : GapFree t step (l ++ [y]))
    have hlen : ((x :: l).length : Int) * step = l.length * step + step := by
      rw [List.length_cons]; push_cast; ring
    rcases List.mem_cons.mp hz with rfl | hz
    · cases l with
      | nil =>
        have := (List.isChain_cons_cons.mp h).1
        rw [hlen]; simp only [List.length_nil]; push_cast; omega
      | cons w l =>
        have hw := ih w (by simp)
        have := (List.isChain_cons_cons.mp h).1
        rw [hlen]; omega
    · have := ih z hz
      rw [hlen]; omega

/-! ## Series with holes -/

theorem Apart.ascending {step : Int} (hstep : 0 < step) {l : List α} (h : Apart t step l) : Ascending t l :=
  h.imp fun hxy => by omega

theorem Apart.le_of_lt {step : Int} (hstep : 0 < step) {l : List α} (h : Apart t step l) {x y : α} (hx : x ∈ l)
    (hy : y ∈ l) (hlt : t x < t y) : t x + step ≤ t y := by
  induction l with
  | nil => cases hx
  | cons z l ih =>
    obtain ⟨hz, hl⟩ := List.pairwise_cons.mp h
    rcases List.mem_cons.mp hx with rfl | hxl
    · rcases List.mem_cons.mp hy with rfl | hyl
      · omega
      · exact hz y hyl
    · rcases List.mem_cons.mp hy with rfl | hyl
      · have := hz x hxl
        omega
      · exact ih hl hxl hyl

theorem Adjacent.left_mem {l : List α} {y x : α} (h : Adjacent l y x) : y ∈ l := by
  obtain ⟨a, b, rfl⟩ := h
  simp

theorem Adjacent.right_mem {l : List α} {y x : α} (h : Adjacent l y x) : x ∈ l := by
  obtain ⟨a, b, rfl⟩ := h
  simp

theorem Adjacent.lt {l : List α} (hs : Ascending t l) {y x : α} (h : Adjacent l y x) : t y < t x := by
  obtain ⟨a, b, rfl⟩ := h
  exact (List.pairwise_cons.mp (hs.right t)).1 x (by simp)

theorem Adjacent.le_of_lt {l : List α} (hs : Ascending t l) {y x z : α} (h : Adjacent l y x) (hz : z ∈ l)
    (hlt : t z < t x) : t z ≤ t y := by
  obtain ⟨a, b, rfl⟩ := h
  rcases List.mem_append.mp hz with hz | hz
  · have := hs.lt t hz (show y ∈ y :: x :: b by simp)
    omega
  · rcases List.mem_cons.mp hz with rfl | hz
    · exact le_refl _
    · rcases List.mem_cons.mp hz with rfl | hz
      · omega
      · have hxb := (List.pairwise_cons.mp (hs.right t)).2
        have := (List.pairwise_cons.mp hxb).1 z hz
        omega

/-- An entry that something comes before has an entry directly before it. -/
theorem exists_adjacent {l : List α} (hs : Ascending t l) {z x : α} (hz : z ∈ l) (hx : x ∈ l) (hlt : t z < t x) :
    ∃ y, Adjacent l y x ∧ t z ≤ t y := by
  obtain ⟨a, b, rfl⟩ := List.append_of_mem hx
  have hza : z ∈ a := by
    rcases List.mem_append.mp hz with hz | hz
    · exact hz
    · rcases List.mem_cons.mp hz with rfl | hz
      · omega
      · have := (List.pairwise_cons.mp (hs.right t)).1 z hz
        omega
  rcases List.eq_nil_or_concat' a with rfl | ⟨a, y, rfl⟩
  · cases hza
  · have hadj : Adjacent (a ++ [y] ++ x :: b) y x := ⟨a, b, by simp⟩
    exact ⟨y, hadj, hadj.le_of_lt t hs hz hlt⟩

theorem upTo_upTo {hi hi' : Int} (h : hi' ≤ hi) (l : List α) : upTo t hi' (upTo t hi l) = upTo t hi' l := by
  apply filter_filter_iff
  intro x
  simp only [decide_eq_true_eq]
  omega

theorem inRange_upTo (lo hi : Int) (l : List α) : inRange t lo hi (upTo t hi l) = inRange t lo hi l := by
  apply filter_filter_iff
  intro x
  simp only [decide_eq_true_eq]
  omega

theorem upTo_ascending {l : List α} (hs : Ascending t l) (hi : Int) : Ascending t (upTo t hi l) :=
  List.Pairwise.filter _ hs

/-- The newest `n` entries start at or after `x` exactly when there are `n`
entries from `x` on, for an `x` that is not the first entry. -/
theorem newest_front {l ks : List α} {k x y : α} {n : Nat} {hi : Int} (hs : Ascending t l)
    (hnew : newest n (upTo t hi l) = k :: ks) (hxhi : t x ≤ hi) (hy : y ∈ l) (hyx : t y < t x) :
    t x ≤ t k ↔ n ≤ (inRange t (t x) hi l).length := by
  have hasc := upTo_ascending t hs hi
  have hsplit := newest_split n (upTo t hi l)
  have hlen := newest_length n (upTo t hi l)
  rw [hnew] at hsplit hlen
  rw [hsplit] at hasc
  rw [← inRange_upTo, hsplit, inRange_append]
  have hfrom := (List.pairwise_cons.mp (hasc.right t)).1
  have hle : ∀ z ∈ k :: ks, t z ≤ hi := by
    intro z hz
    have hmem : z ∈ upTo t hi l := by rw [hsplit]; exact List.mem_append_right _ hz
    simpa using (List.mem_filter.mp hmem).2
  constructor
  · intro hxk
    -- nothing of the last entries is left out, and they are `n`
    have hall : inRange t (t x) hi (k :: ks) = k :: ks := by
      apply inRange_eq_self
      intro z hz
      refine ⟨?_, hle z hz⟩
      rcases List.mem_cons.mp hz with rfl | hz
      · exact hxk
      · have := hfrom z hz
        omega
    have hearlier : y ∈ (upTo t hi l).take ((upTo t hi l).length - n) := by
      have hmem : y ∈ upTo t hi l := List.mem_filter.mpr ⟨hy, by simp only [decide_eq_true_eq]; omega⟩
      rw [hsplit] at hmem
      rcases List.mem_append.mp hmem with hmem | hmem
      · exact hmem
      · rcases List.mem_cons.mp hmem with rfl | hmem
        · omega
        · have := hfrom y hmem
          omega
    have hpos := List.length_pos_of_mem hearlier
    rw [List.length_take] at hpos
    rw [hall, List.length_append]
    omega
  · intro hn
    refine Int.not_lt.mp fun hkx => ?_
    -- what comes from `x` on is a part of `ks`
    have hnil : inRange t (t x) hi ((upTo t hi l).take ((upTo t hi l).length - n)) = [] := by
      apply inRange_eq_nil
      intro z hz
      have := hasc.lt t hz (show k ∈ k :: ks by simp)
      omega
    have hcons : inRange t (t x) hi (k :: ks) = inRange t (t x) hi ks := by
      unfold inRange
      rw [List.filter_cons_of_neg]
      simp only [decide_eq_true_eq]
      omega
    have hsub : (inRange t (t x) hi ks).length ≤ ks.length := List.length_filter_le _ _
    rw [hnil, hcons, List.nil_append] at hn
    rw [List.length_cons] at hlen
    omega

end Windows
