import Mathlib.Data.List.Basic
import MexcApi.RateLimiter

/-!
# When the rate limiter sees the window as it is

Old entries are only taken from the front of the deque, so it has to be sorted.
A call that slept puts its entry behind those of the calls that came during its
sleep and did not have to sleep, although it came before them.
-/

namespace MexcApi

namespace RateLimiter

section
variable (L : RateLimiter)

/-- Nothing in the deque has expired, and its front is the oldest entry. -/
structure Exact (now : Int) (requestTimes : List Int) : Prop where
  unexpired : ∀ t ∈ requestTimes, now - t ≤ L.windowSizeMs
  oldest : ∀ front ∈ requestTimes.head?, ∀ t ∈ requestTimes, front ≤ t

/-- Whenever the next call comes, its size test is about the window. -/
def WindowExact (s : State) : Prop := ∀ now, s.clock ≤ now → L.Exact now (L.prune now s.requestTimes)

/-- What the call tests is the window. -/
def TestExact (s : State) : Event → Prop
  | .enter _ now => L.Exact now (L.prune now s.requestTimes)
  | .resume _ _ => True

/-- When a call that slept is recorded, no later entry is in the window. -/
def InOrder (s : State) : Event → Prop
  | .enter _ _ => True
  | .resume caller time =>
    ∀ sl ∈ s.sleeping.find? (·.caller = caller), ∀ t ∈ L.prune time s.requestTimes, t ≤ sl.now

instance (s : State) : (e : Event) → Decidable (L.InOrder s e)
  | .enter _ _ => isTrue trivial
  | .resume _ _ => inferInstanceAs (Decidable (∀ _ ∈ _, _))

/-! ## What is left of the deque -/

theorem prune_eq (now : Int) (times : List Int) :
    L.prune now times = times.dropWhile fun t => now - t > L.windowSizeMs := by
  induction times with
  | nil => rfl
  | cons t ts ih =>
    by_cases h : now - t > L.windowSizeMs
    · simp [prune, h, ih]
    · simp [prune, h]

theorem prune_sublist (now : Int) (times : List Int) : (L.prune now times).Sublist times := by
  rw [prune_eq]
  exact List.dropWhile_sublist _

theorem prune_head {now t : Int} {times ts : List Int} (h : L.prune now times = t :: ts) :
    now - t ≤ L.windowSizeMs := by
  induction times with
  | nil => cases h
  | cons u us ih =>
    by_cases hu : now - u > L.windowSizeMs
    · simp only [prune, if_pos hu] at h
      exact ih h
    · simp only [prune, if_neg hu] at h
      cases h
      exact Int.not_lt.mp hu

theorem prune_prune {now now' : Int} (h : now ≤ now') (times : List Int) :
    L.prune now' (L.prune now times) = L.prune now' times := by
  induction times with
  | nil => rfl
  | cons t ts ih =>
    by_cases ht : now - t > L.windowSizeMs
    · have ht' : now' - t > L.windowSizeMs := by omega
      simp only [prune, if_pos ht, if_pos ht', ih]
    · simp only [prune, if_neg ht]

theorem prune_snoc (now t : Int) (times : List Int) : L.prune now (times ++ [t]) =
    if L.prune now times = [] then L.prune now [t] else L.prune now times ++ [t] := by
  simp only [prune_eq, List.dropWhile_append, List.isEmpty_iff]

/-- From an entry that has not expired on, nothing is dropped. -/
theorem prune_keeps {now t : Int} (h : now - t ≤ L.windowSizeMs) (before after : List Int) :
    ∃ kept, L.prune now (before ++ t :: after) = kept ++ t :: after := by
  induction before with
  | nil => exact ⟨[], by simp [prune, Int.not_lt.mpr h]⟩
  | cons u us ih =>
    by_cases hu : now - u > L.windowSizeMs
    · obtain ⟨kept, hkept⟩ := ih
      exact ⟨kept, by simp only [List.cons_append, prune, if_pos hu, hkept]⟩
    · exact ⟨u :: us, by simp only [List.cons_append, prune, if_neg hu]⟩

theorem pairwise_of_split {α : Type} {R : α → α → Prop} {l : List α}
    (h : ∀ before a after, l = before ++ a :: after → ∀ b ∈ after, R a b) : l.Pairwise R := by
  induction l with
  | nil => exact List.Pairwise.nil
  | cons a l ih =>
    refine List.pairwise_cons.mpr ⟨h [] a l rfl, ih fun before b after heq => ?_⟩
    exact h (a :: before) b after (by rw [heq]; rfl)

theorem exact_of_sorted {now : Int} {times : List Int} (h : times.Pairwise (· ≤ ·)) :
    L.Exact now (L.prune now times) := by
  have hsorted : (L.prune now times).Pairwise (· ≤ ·) := h.sublist (L.prune_sublist now times)
  cases hp : L.prune now times with
  | nil => exact ⟨by simp, by simp⟩
  | cons t ts =>
    have hhead := L.prune_head hp
    have hfront : ∀ u ∈ t :: ts, t ≤ u := by
      rw [hp] at hsorted
      intro u hu
      rcases List.mem_cons.mp hu with rfl | hu
      · exact Int.le_refl _
      · exact (List.pairwise_cons.mp hsorted).1 u hu
    refine ⟨fun u hu => ?_, fun front hf => ?_⟩
    · have := hfront u hu
      omega
    · cases hf
      exact hfront

theorem windowExact_iff (s : State) :
    L.WindowExact s ↔ (L.prune s.clock s.requestTimes).Pairwise (· ≤ ·) := by
  constructor
  · intro h
    apply pairwise_of_split
    intro before a after heq b hb
    have hwindow := (h s.clock (Int.le_refl _)).unexpired a (by rw [heq]; simp)
    -- the last moment at which `a` is in the window
    have hlate : s.clock ≤ a + L.windowSizeMs := by omega
    have hlast := (h (a + L.windowSizeMs) hlate).unexpired
    rw [← L.prune_prune hlate, heq] at hlast
    obtain ⟨kept, hkept⟩ := L.prune_keeps (show a + L.windowSizeMs - a ≤ L.windowSizeMs by omega) before after
    have := hlast b (by rw [hkept]; simp [hb])
    omega
  · intro h now hnow
    rw [← L.prune_prune hnow]
    exact L.exact_of_sorted h

/-! ## The invariant -/

/-- What is left of the deque is sorted, and nothing is recorded that is yet to come. -/
structure Ordered (s : State) : Prop where
  sorted : (L.prune s.clock s.requestTimes).Pairwise (· ≤ ·)
  recorded : ∀ t ∈ s.requestTimes, t ≤ s.clock
  sleeping : ∀ sl ∈ s.sleeping, sl.now ≤ s.clock

theorem ordered_init (clock : Int) : L.Ordered (State.init clock) :=
  ⟨List.Pairwise.nil, by simp [State.init], by simp [State.init]⟩

theorem sorted_snoc {now t : Int} {times : List Int} (hsorted : (L.prune now times).Pairwise (· ≤ ·)) :
    (L.prune now (times ++ [t])).Pairwise (· ≤ ·) ↔ ∀ u ∈ L.prune now times, u ≤ t := by
  rw [prune_snoc]
  by_cases hnil : L.prune now times = []
  · rw [if_pos hnil, hnil]
    refine iff_of_true ?_ (List.forall_mem_nil _)
    exact (List.pairwise_singleton _ t).sublist (L.prune_sublist now [t])
  · rw [if_neg hnil, List.pairwise_append]
    simp [hsorted]

theorem ordered_enter {s s' : State} {caller : Nat} {now : Int} (hi : L.Ordered s)
    (h : L.step s (.enter caller now) = some s') : L.Ordered s' ∧ s.clock ≤ now := by
  simp only [step] at h
  split at h
  · rename_i hc
    have hsorted : (L.prune now s.requestTimes).Pairwise (· ≤ ·) := by
      rw [← L.prune_prune hc.1]
      exact hi.sorted.sublist (L.prune_sublist now _)
    have hrecorded : ∀ t ∈ L.prune now s.requestTimes, t ≤ now := by
      intro t ht
      have := hi.recorded t ((L.prune_sublist now _).subset ht)
      omega
    have hsleeping : ∀ sl ∈ s.sleeping, sl.now ≤ now := by
      intro sl hsl
      have := hi.sleeping sl hsl
      omega
    have htwice := L.prune_prune (Int.le_refl now) s.requestTimes
    refine ⟨?_, hc.1⟩
    split at h
    · cases h
      refine ⟨?_, ?_, hsleeping⟩
      · show (L.prune now (L.prune now s.requestTimes ++ [now])).Pairwise _
        rw [L.sorted_snoc (by rwa [htwice]), htwice]
        exact hrecorded
      · intro t ht
        rcases List.mem_append.mp ht with ht | ht
        · exact hrecorded t ht
        · exact Int.le_of_eq (List.mem_singleton.mp ht)
    · cases h
      refine ⟨?_, hrecorded, ?_⟩
      · show (L.prune now (L.prune now s.requestTimes)).Pairwise _
        rwa [htwice]
      · intro sl hsl
        rcases List.mem_append.mp hsl with hsl | hsl
        · exact hsleeping sl hsl
        · simp [List.mem_singleton.mp hsl]
  · cases h

theorem ordered_resume {s s' : State} {caller : Nat} {time : Int} (hi : L.Ordered s)
    (h : L.step s (.resume caller time) = some s') :
    (L.InOrder s (.resume caller time) → L.Ordered s') ∧ (¬ L.InOrder s (.resume caller time) → ¬ L.WindowExact s') := by
  simp only [step] at h
  split at h
  · rename_i sl hfind
    split at h
    · rename_i hc
      cases h
      have hmem := List.mem_of_find?_eq_some hfind
      have hsorted : (L.prune time s.requestTimes).Pairwise (· ≤ ·) := by
        rw [← L.prune_prune hc.1]
        exact hi.sorted.sublist (L.prune_sublist time _)
      have horder : L.InOrder s (.resume caller time) ↔ (L.prune time (s.requestTimes ++ [sl.now])).Pairwise (· ≤ ·) := by
        rw [L.sorted_snoc hsorted]
        simp only [InOrder, hfind, Option.mem_def, Option.some.injEq, forall_eq']
      constructor
      · intro hok
        refine ⟨horder.mp hok, ?_, ?_⟩
        · intro t ht
          show t ≤ time
          rcases List.mem_append.mp ht with ht | ht
          · have := hi.recorded t ht
            omega
          · have := hi.sleeping sl hmem
            have := List.mem_singleton.mp ht
            omega
        · intro other hother
          have := hi.sleeping other (List.mem_of_mem_erase hother)
          show other.now ≤ time
          omega
      · intro hno hexact
        exact hno (horder.mpr ((L.windowExact_iff _).mp hexact))
    · cases h
  · cases h

end

/-! ## All runs -/

theorem windowExact_iff_inOrder (L : RateLimiter) (clock : Int) (es : List Event) :
    (Trace.Always L.step L.WindowExact (State.init clock) es ↔ Trace.Guarded L.step L.InOrder (State.init clock) es) ∧
    (Trace.Guarded L.step L.InOrder (State.init clock) es → Trace.Guarded L.step L.TestExact (State.init clock) es) := by
  have hiff : Trace.Always L.step L.WindowExact (State.init clock) es ↔
      Trace.Guarded L.step L.InOrder (State.init clock) es := by
    refine Trace.always_iff_guarded L.step (fun s hi => (L.windowExact_iff s).mpr hi.sorted) ?_ ?_ (L.ordered_init clock)
    · intro s e s' hi hok hs
      cases e with
      | enter caller now => exact (L.ordered_enter hi hs).1
      | resume caller time => exact (L.ordered_resume hi hs).1 hok
    · intro s e s' hi hok hs
      cases e with
      | enter caller now => exact absurd trivial hok
      | resume caller time => exact (L.ordered_resume hi hs).2 hok
  refine ⟨hiff, fun hg => (hiff.mpr hg).guarded L.step fun s e s' hexact hs => ?_⟩
  cases e with
  | resume caller time => trivial
  | enter caller now =>
    simp only [step] at hs
    split at hs
    · rename_i hc
      exact hexact now hc.1
    · cases hs

/-- A burst fills the deque, a call sleeps, and one that does not have to comes
before it wakes. -/
def overtaken : List Event :=
  List.replicate 10 (.enter 0 0) ++ [.enter 1 500, .enter 2 1005, .resume 1 1010]

/-- At 1600 the entry of 500 has expired and is still counted. -/
theorem expired_entry_counted :
    (∃ s, Trace.run Spot.rateLimiter.step (State.init 0) overtaken = some s ∧
      (Spot.rateLimiter.step s (.enter 2 1600)).isSome ∧
      ¬ Spot.rateLimiter.TestExact s (.enter 2 1600) ∧ 500 ∈ Spot.rateLimiter.prune 1600 s.requestTimes) ∧
    ∃ s, Trace.run Futures.rateLimiter.step (State.init 0) overtaken = some s ∧
      (Futures.rateLimiter.step s (.enter 2 1600)).isSome ∧
      ¬ Futures.rateLimiter.TestExact s (.enter 2 1600) ∧ 500 ∈ Futures.rateLimiter.prune 1600 s.requestTimes :=
  ⟨⟨_, rfl, by decide, fun h => absurd (h.unexpired 500 (by decide)) (by decide), by decide⟩,
    ⟨_, rfl, by decide, fun h => absurd (h.unexpired 500 (by decide)) (by decide), by decide⟩⟩

end RateLimiter

end MexcApi
