import MexcApi.Windows

/-!
# Series that are still being written

An entry lasts for one `step` from its time on. Of a live series everything
but the newest entry is finished at `now`. It is read in batches that go back
in time.
-/

namespace Windows

variable {α : Type} (t : α → Int)

structure Live (step now : Int) (l : List α) : Prop where
  ascending : Ascending t l
  finished : l.Pairwise fun x _ => t x + step ≤ now

theorem Apart.live {step now : Int} (hstep : 0 < step) {l : List α} (h : Apart t step l) (hnow : ∀ x ∈ l, t x ≤ now) :
    Live t step now l := by
  refine ⟨h.ascending t hstep, List.Pairwise.imp_of_mem ?_ h⟩
  intro x y _ hy hxy
  have := hnow y hy
  omega

section
variable {step now : Int}

theorem Live.sublist {l l' : List α} (h : Live t step now l) (hsub : l'.Sublist l) : Live t step now l' :=
  ⟨List.Pairwise.sublist hsub h.ascending, h.finished.sublist hsub⟩

theorem Live.map {β : Type} {f : β → α} {l : List β} (h : Live (fun b => t (f b)) step now l) :
    Live t step now (l.map f) :=
  ⟨List.pairwise_map.mpr h.ascending, List.pairwise_map.mpr h.finished⟩

theorem Live.finished_of_lt {l : List α} (h : Live t step now l) {x y : α} (hx : x ∈ l) (hy : y ∈ l) (hlt : t x < t y) :
    t x + step ≤ now := by
  obtain ⟨a, b, rfl⟩ := List.append_of_mem hx
  cases b with
  | nil =>
    -- the last entry has nothing later
    rcases List.mem_append.mp hy with hy | hy
    · have := h.ascending.lt t hy (List.mem_singleton_self x)
      omega
    · rw [List.mem_singleton.mp hy] at hlt
      omega
  | cons z b => exact (List.pairwise_cons.mp (List.pairwise_append.mp h.finished).2.1).1 z List.mem_cons_self

theorem Live.extend {series old l : List α} {x : α} (hs : Live t step now series) (hx : x ∈ series)
    (hl : Live t step now (x :: l)) (hold : old.Sublist series) (hlt : ∀ y ∈ old, t y < t x) :
    Live t step now (old ++ x :: l) := by
  have hfrom := (List.pairwise_cons.mp hl.ascending).1
  constructor
  · refine List.pairwise_append.mpr ⟨(hs.sublist t hold).ascending, hl.ascending, fun y hy z hz => ?_⟩
    have hyx := hlt y hy
    rcases List.mem_cons.mp hz with rfl | hz
    · exact hyx
    · have := hfrom z hz
      omega
  · refine List.pairwise_append.mpr ⟨(hs.sublist t hold).finished, hl.finished, fun y hy _ _ => ?_⟩
    exact hs.finished_of_lt t (hold.subset hy) hx (hlt y hy)

/-! ## The entry that may be unfinished -/

/-- Nothing finished of `[lo, hi]` is missing, and nothing unfinished is kept. -/
def Trimmed (step now lo hi : Int) (got kept : List α) : Prop :=
  (∀ x ∈ got, lo ≤ t x ∧ t x ≤ hi → t x + step ≤ now → x ∈ kept) ∧ ∀ x ∈ kept, t x + step ≤ now

theorem Live.le_last {l : List α} {x z : α} (h : Live t step now l) (hz : l.getLast? = some z) (hx : x ∈ l) :
    x = z ∨ t x < t z := by
  obtain ⟨l', rfl⟩ := List.getLast?_eq_some_iff.mp hz
  rcases List.mem_append.mp hx with hx | hx
  · exact Or.inr (h.ascending.lt t hx (List.mem_singleton_self z))
  · exact Or.inl (List.mem_singleton.mp hx)

theorem trimmed_self {lo hi : Int} {l : List α} (h : Live t step now l) :
    Trimmed t step now lo hi l l ↔ ∀ z ∈ l.getLast?, t z + step ≤ now := by
  constructor
  · intro ht z hz
    exact ht.2 z (List.mem_of_getLast? hz)
  · intro hlast
    refine ⟨fun x hx _ _ => hx, fun x hx => ?_⟩
    cases hz : l.getLast? with
    | none =>
      rw [List.getLast?_eq_none_iff.mp hz] at hx
      cases hx
    | some z =>
      have hfin := hlast z hz
      rcases h.le_last t hz hx with rfl | hlt
      · exact hfin
      · omega

theorem trimmed_dropLast {lo hi : Int} {l : List α} (h : Live t step now l) (hin : ∀ x ∈ l, lo ≤ t x ∧ t x ≤ hi) :
    Trimmed t step now lo hi l l.dropLast ↔ ∀ z ∈ l.getLast?, now < t z + step := by
  cases hz : l.getLast? with
  | none =>
    obtain rfl := List.getLast?_eq_none_iff.mp hz
    simp [Trimmed]
  | some z =>
    obtain ⟨l', rfl⟩ := List.getLast?_eq_some_iff.mp hz
    rw [List.dropLast_concat]
    have hbefore : ∀ x ∈ l', t x < t z := fun x hx => h.ascending.lt t hx (List.mem_singleton_self z)
    have hmem : z ∈ l' ++ [z] := List.mem_append_right _ (List.mem_singleton_self z)
    constructor
    · rintro ⟨hkeep, -⟩ y hy
      cases hy
      refine Int.not_le.mp fun hfin => ?_
      have := hbefore z (hkeep z hmem (hin z hmem) hfin)
      omega
    · intro hopen
      refine ⟨fun x hx _ hfin => ?_, fun x hx => ?_⟩
      · rcases List.mem_append.mp hx with hx | hx
        · exact hx
        · have := hopen z rfl
          rw [List.mem_singleton.mp hx] at hfin
          omega
      · exact h.finished_of_lt t (List.mem_append_left _ hx) hmem (hbefore x hx)

/-! ## Batches that go back in time -/

/-- The current batch and the earlier ones, put together in order, are a live
series that ends with the last entry of the first batch. -/
structure Collected (step now : Int) (series first candles : List α) (written : List (List α)) : Prop where
  subset : candles ⊆ series
  live : Live t step now (candles ++ written.reverse.flatten)
  last : (candles ++ written.reverse.flatten).getLast? = first.getLast?

theorem Collected.start {series first : List α} (hs : Live t step now series) (hsub : first.Sublist series) :
    Collected t step now series first first [] where
  subset := hsub.subset
  live := by
    rw [List.reverse_nil, List.flatten_nil, List.append_nil]
    exact hs.sublist t hsub
  last := by rw [List.reverse_nil, List.flatten_nil, List.append_nil]

theorem Collected.next {series first rest older : List α} {x : α} {written : List (List α)}
    (hs : Live t step now series) (h : Collected t step now series first (x :: rest) written)
    (hsub : older.Sublist series) (hlt : ∀ y ∈ older, t y < t x) :
    Collected t step now series first older (written ++ [x :: rest]) := by
  have heq : (written ++ [x :: rest]).reverse.flatten = x :: (rest ++ written.reverse.flatten) := by
    rw [reverse_flatten_snoc, List.cons_append]
  refine ⟨hsub.subset, ?_, ?_⟩
  · rw [heq]
    exact hs.extend t (h.subset List.mem_cons_self) h.live hsub hlt
  · rw [heq, List.getLast?_append_cons]
    exact h.last

/-- How much of the series lies up to the oldest entry of the batch. -/
def remaining (series : List α) : List α → Nat
  | [] => 0
  | x :: _ => (upTo t (t x) series).length

theorem remaining_next {series rest older : List α} {x : α} (hx : x ∈ series) (hlt : ∀ y ∈ older, t y < t x) :
    remaining t series older < remaining t series (x :: rest) := by
  have hmem : x ∈ upTo t (t x) series := List.mem_filter.mpr ⟨hx, by simp⟩
  cases older with
  | nil => exact List.length_pos_of_mem hmem
  | cons y older =>
    have hyx := hlt y List.mem_cons_self
    show (upTo t (t y) series).length < (upTo t (t x) series).length
    rw [← upTo_upTo t (Int.le_of_lt hyx)]
    refine List.length_filter_lt_length_iff_exists.mpr ⟨x, hmem, ?_⟩
    simp only [decide_eq_true_eq]
    omega

end

end Windows
