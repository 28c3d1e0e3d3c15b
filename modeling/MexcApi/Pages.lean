import Mathlib.Data.List.Dedup
import Mathlib.Data.List.Perm.Subperm

/-!
# Pages of a growing list

A list is read in pages of `n` entries, addressed by index, while entries are
put in front of it between the reads. `collect` is what the first pages hold
when page `k` is read from `lists k`.
-/

namespace Pages

variable {α : Type} (n : Nat)

def page (k : Nat) (l : List α) : List α := (l.drop (k * n)).take n

def collect (lists : Nat → List α) (m : Nat) : List α := (List.range m).flatMap fun k => page n k (lists k)

def Grows (lists : Nat → List α) : Prop := ∀ k, ∃ new, lists (k + 1) = new ++ lists k

theorem page_length_le (k : Nat) (l : List α) : (page n k l).length ≤ n := by
  unfold page
  rw [List.length_take]
  exact Nat.min_le_left ..

theorem page_eq_nil {k : Nat} {l : List α} (hn : 0 < n) (h : page n k l = []) : l.length ≤ k * n := by
  unfold page at h
  have := congrArg List.length h
  rw [List.length_take, List.length_drop, List.length_nil] at this
  omega

theorem drop_page (k : Nat) (l : List α) : l.drop (k * n) = page n k l ++ l.drop ((k + 1) * n) := by
  unfold page
  rw [Nat.succ_mul, ← List.drop_drop]
  exact (List.take_append_drop ..).symm

theorem collect_succ (lists : Nat → List α) (m : Nat) :
    collect n lists (m + 1) = collect n lists m ++ page n m (lists m) := by
  unfold collect
  rw [List.range_succ, List.flatMap_append, List.flatMap_singleton]

/-! ## An unchanged list -/

theorem collect_const (l : List α) (m : Nat) : collect n (fun _ => l) m = l.take (m * n) := by
  induction m with
  | zero => simp [collect]
  | succ m ih =>
    rw [collect_succ, ih, Nat.succ_mul, List.take_add]
    rfl

/-! ## A growing list -/

section
variable {lists : Nat → List α}

theorem Grows.length_le (h : Grows lists) {j k : Nat} (hjk : j ≤ k) : (lists j).length ≤ (lists k).length := by
  induction hjk with
  | refl => exact Nat.le_refl _
  | step _ ih =>
    rename_i k _
    obtain ⟨new, hnew⟩ := h k
    rw [hnew, List.length_append]
    omega

theorem mem_drop_append {x : α} {l : List α} {m : Nat} (h : x ∈ l.drop m) (new : List α) : x ∈ (new ++ l).drop m := by
  rw [List.drop_append]
  apply List.mem_append_right
  have hsub : (l.drop m).Sublist (l.drop (m - new.length)) := by
    have : l.drop m = (l.drop (m - new.length)).drop (m - (m - new.length)) := by
      rw [List.drop_drop]; congr 1; omega
    rw [this]
    exact List.drop_sublist ..
  exact hsub.subset h

/-- An entry of the first list has been read, or is behind the pages read. -/
theorem mem_collect_or (hg : Grows lists) {x : α} (hx : x ∈ lists 0) : ∀ m,
    x ∈ collect n lists (m + 1) ∨ x ∈ (lists m).drop ((m + 1) * n) := by
  have key : ∀ m, x ∈ collect n lists m ∨ x ∈ (lists m).drop (m * n) := by
    intro m
    induction m with
    | zero => right; simpa using hx
    | succ m ih =>
      rw [collect_succ]
      rcases ih with ih | ih
      · exact Or.inl (List.mem_append_left _ ih)
      · rw [drop_page] at ih
        rcases List.mem_append.mp ih with hp | hd
        · exact Or.inl (List.mem_append_right _ hp)
        · obtain ⟨new, hnew⟩ := hg m
          rw [hnew]
          exact Or.inr (mem_drop_append hd new)
  intro m
  rw [collect_succ]
  rcases key m with h | h
  · exact Or.inl (List.mem_append_left _ h)
  · rw [drop_page] at h
    rcases List.mem_append.mp h with hp | hd
    · exact Or.inl (List.mem_append_right _ hp)
    · exact Or.inr hd

/-- Every page before the last is full, so no more than the last list is read. -/
theorem length_collect_le (hg : Grows lists) {m : Nat} (hfull : ∀ k < m, (k + 1) * n < (lists k).length) :
    (collect n lists (m + 1)).length ≤ (m + 1) * n ∧ (collect n lists (m + 1)).length ≤ (lists m).length := by
  have hle : ∀ j, (collect n lists j).length ≤ j * n := by
    intro j
    induction j with
    | zero => simp [collect]
    | succ j ih =>
      have := page_length_le n j (lists j)
      rw [collect_succ, List.length_append, Nat.succ_mul]
      omega
  refine ⟨hle (m + 1), ?_⟩
  have hm : m * n ≤ (lists m).length := by
    cases m with
    | zero => simp
    | succ j =>
      have h1 := hfull j (by omega)
      have h2 := hg.length_le (show j ≤ j + 1 by omega)
      omega
  have hpage : (page n m (lists m)).length ≤ (lists m).length - m * n := by
    unfold page
    rw [List.length_take, List.length_drop]
    exact Nat.min_le_right ..
  have := hle m
  rw [collect_succ, List.length_append]
  omega

/-! ## Repeated entries -/

/-- The pages repeat at most as many entries as were put in front. -/
theorem length_collect_le_dedup {β : Type} [DecidableEq β] (f : α → β) (hg : Grows lists)
    (hnodup : ((lists 0).map f).Nodup) {m : Nat} (hfull : ∀ k < m, (k + 1) * n < (lists k).length) :
    ((collect n lists (m + 1)).map f).length ≤
      ((collect n lists (m + 1)).map f).dedup.length + ((lists m).length - (lists 0).length) := by
  obtain ⟨h1, h2⟩ := length_collect_le n hg hfull
  have hgrow := hg.length_le (show 0 ≤ m by omega)
  -- the first list is covered by what was read and what is left
  have hcover : ((lists 0).map f) ⊆
      ((collect n lists (m + 1)).map f).dedup ++ ((lists m).drop ((m + 1) * n)).map f := by
    intro y hy
    obtain ⟨x, hx, rfl⟩ := List.mem_map.mp hy
    rcases mem_collect_or n hg hx m with h | h
    · exact List.mem_append_left _ (List.mem_dedup.mpr (List.mem_map_of_mem h))
    · exact List.mem_append_right _ (List.mem_map_of_mem h)
  have hlen := (List.subperm_of_subset hnodup hcover).length_le
  rw [List.length_append, List.length_map, List.length_map, List.length_drop] at hlen
  rw [List.length_map]
  omega

theorem dedup_filter_length {β : Type} [DecidableEq β] (p : β → Bool) (l : List β) :
    l.dedup.length = (l.filter p).dedup.length + (l.filter fun x => !p x).dedup.length := by
  induction l with
  | nil => rfl
  | cons x l ih =>
    by_cases hp : p x = true
    · by_cases hx : x ∈ l
      · rw [List.dedup_cons_of_mem hx, List.filter_cons_of_pos hp, List.filter_cons_of_neg (by simp [hp]),
          List.dedup_cons_of_mem (List.mem_filter.mpr ⟨hx, hp⟩), ih]
      · rw [List.dedup_cons_of_notMem hx, List.filter_cons_of_pos hp, List.filter_cons_of_neg (by simp [hp]),
          List.dedup_cons_of_notMem (fun h => hx (List.mem_filter.mp h).1), List.length_cons, List.length_cons, ih]
        omega
    · by_cases hx : x ∈ l
      · rw [List.dedup_cons_of_mem hx, List.filter_cons_of_neg hp, List.filter_cons_of_pos (by simpa using hp),
          List.dedup_cons_of_mem (List.mem_filter.mpr ⟨hx, by simpa using hp⟩), ih]
      · rw [List.dedup_cons_of_notMem hx, List.filter_cons_of_neg hp, List.filter_cons_of_pos (by simpa using hp),
          List.dedup_cons_of_notMem (fun h => hx (List.mem_filter.mp h).1), List.length_cons, List.length_cons, ih]
        omega

theorem filter_length_le_dedup {β : Type} [DecidableEq β] (p : β → Bool) {l : List β} {d : Nat}
    (h : l.length ≤ l.dedup.length + d) : (l.filter p).length ≤ (l.filter p).dedup.length + d := by
  have h1 := dedup_filter_length p l
  have h2 := (List.dedup_sublist (l.filter fun x => !p x)).length_le
  have h3 := l.length_eq_length_filter_add p
  omega

end

end Pages
