import MexcApi.RateLimiter
import Mathlib.Data.List.Basic

/-!
# When the rate limiter keeps its limit

A call that slept is recorded with the time it came, not with the time it was
let through, and it does not look at the window again after its sleep. As long
as neither shows (`Undisturbed`), every request of the last window still has
its entry when a call tests the size, so the limit holds.
-/

namespace MexcApi

namespace RateLimiter

section
variable (L : RateLimiter)

/-- The requests that entries at the end of the deque belong to. -/
def entries (s : State) (requestTimes : List Int) : List Passed := s.passed.drop (s.passed.length - requestTimes.length)

/-- The requests whose entries a call drops. -/
def dropped (s : State) (now : Int) : List Passed :=
  (entries s s.requestTimes).take (s.requestTimes.length - (L.prune now s.requestTimes).length)

/-- A call comes while nobody sleeps, every request whose entry it drops has left
the window, and the request of the entry it waits for was let through at the time
recorded for it. -/
structure Undisturbed (s : State) (now : Int) : Prop where
  alone : s.sleeping = []
  dropped : ∀ p ∈ L.dropped s now, now - p.released > L.windowSizeMs
  awaited : L.localLimit ≤ (L.prune now s.requestTimes).length →
    ∀ p ∈ (entries s (L.prune now s.requestTimes)).head?, p.released = p.recorded

instance (s : State) (now : Int) : Decidable (L.Undisturbed s now) :=
  decidable_of_iff
    (s.sleeping = [] ∧
      (∀ p ∈ L.dropped s now, now - p.released > L.windowSizeMs) ∧
      (L.localLimit ≤ (L.prune now s.requestTimes).length →
        ∀ p ∈ (entries s (L.prune now s.requestTimes)).head?, p.released = p.recorded))
    ⟨fun h => ⟨h.1, h.2.1, h.2.2⟩, fun h => ⟨h.1, h.2, h.3⟩⟩

def StepOk (s : State) : Event → Prop
  | .enter _ now => L.Undisturbed s now
  | .resume _ _ => True

instance (s : State) : (e : Event) → Decidable (L.StepOk s e)
  | .enter _ now => inferInstanceAs (Decidable (L.Undisturbed s now))
  | .resume _ _ => isTrue trivial

/-! ## The functions of `wait` -/

theorem prune_split (now : Int) : ∀ (ps : List Passed), ∃ old new,
    ps = old ++ new ∧ L.prune now (ps.map (·.recorded)) = new.map (·.recorded) ∧
    (∀ p ∈ old, now - p.recorded > L.windowSizeMs) ∧
    ∀ p rest, new = p :: rest → now - p.recorded ≤ L.windowSizeMs
  | [] => ⟨[], [], rfl, rfl, by simp, by simp⟩
  | p :: ps => by
    by_cases hp : now - p.recorded > L.windowSizeMs
    · obtain ⟨old, new, h1, h2, h3, h4⟩ := prune_split now ps
      refine ⟨p :: old, new, by rw [h1]; rfl, by simpa [prune, hp] using h2, ?_, h4⟩
      intro q hq
      rcases List.mem_cons.mp hq with rfl | hq
      · exact hp
      · exact h3 q hq
    · refine ⟨[], p :: ps, rfl, by simp [prune, hp], by simp, ?_⟩
      intro q rest hq
      cases hq; omega

theorem admission_pass {now : Int} {times : List Int} (hl : 0 < L.localLimit)
    (hh : ∀ t rest, times = t :: rest → now - t ≤ L.windowSizeMs)
    (h : L.admission now times = .pass) : times.length < L.localLimit := by
  unfold admission at h
  split at h
  · cases times with
    | nil => exact hl
    | cons t rest =>
      have := hh t rest rfl
      simp only at h
      split at h
      · cases h
      · omega
  · rename_i hlt
    exact Nat.lt_of_not_le hlt

theorem admission_sleep {now waitTime : Int} {times : List Int} (h : L.admission now times = .sleep waitTime) :
    ∃ oldest rest, times = oldest :: rest ∧ L.localLimit ≤ times.length ∧
      now + waitTime = oldest + L.windowSizeMs + 10 := by
  unfold admission at h
  split at h
  · rename_i hl
    cases times with
    | nil => cases h
    | cons t ts =>
      simp only at h
      split at h
      · simp only [Admission.sleep.injEq] at h
        exact ⟨t, ts, rfl, hl, by omega⟩
      · cases h
  · cases h

/-- When the deque is what was recorded of the latest returns. -/
theorem entries_map {s : State} {pre post : List Passed} (hpass : s.passed = pre ++ post) :
    entries s (post.map (·.recorded)) = post := by
  unfold entries
  rw [hpass, List.length_append, List.length_map, Nat.add_sub_cancel]
  exact List.drop_left

/-! ## One more return -/

/-- A return keeps the limit when fewer than `localLimit` came in the window
that ends with it. -/
theorem withinLimit_snoc {s t : State} {p : Passed} (ht : t.passed = s.passed ++ [p]) (hs : L.WithinLimit s)
    (hp : (s.passed.filter fun q => p.released - L.windowSizeMs ≤ q.released).length < L.localLimit) :
    L.WithinLimit t := by
  intro a
  unfold returnsFrom
  rw [ht, List.filter_append, List.length_append]
  by_cases ha : a ≤ p.released ∧ p.released ≤ a + L.windowSizeMs
  · have hsub : (s.passed.filter fun q => a ≤ q.released ∧ q.released ≤ a + L.windowSizeMs).length ≤
        (s.passed.filter fun q => p.released - L.windowSizeMs ≤ q.released).length := by
      apply List.Sublist.length_le
      apply List.monotone_filter_right
      intro q hq
      simp only [decide_eq_true_eq] at hq ⊢
      omega
    have hone : ([p].filter fun q => a ≤ q.released ∧ q.released ≤ a + L.windowSizeMs).length ≤ 1 :=
      List.length_filter_le _ _
    omega
  · have hnone : ([p].filter fun q => a ≤ q.released ∧ q.released ≤ a + L.windowSizeMs) = [] := by
      simp [ha]
    have := hs a
    unfold returnsFrom at this
    rw [hnone, List.length_nil]
    omega

theorem recent_le {pre post : List Passed} {t : Int} (hpre : ∀ p ∈ pre, p.released + L.windowSizeMs < t) :
    ((pre ++ post).filter fun q => t - L.windowSizeMs ≤ q.released).length ≤ post.length := by
  rw [List.filter_append, List.length_append]
  have h0 : (pre.filter fun q => t - L.windowSizeMs ≤ q.released) = [] := by
    rw [List.filter_eq_nil_iff]
    intro q hq
    have := hpre q hq
    simp only [decide_eq_true_eq]
    omega
  rw [h0, List.length_nil, Nat.zero_add]
  exact List.length_filter_le _ _

/-! ## The invariant -/

/-- Nobody sleeps: the deque fits, or its first entry is out of the window. -/
def Idle (s : State) (post : List Passed) : Prop :=
  s.sleeping = [] ∧ (post.length ≤ L.localLimit ∨
    ∃ p rest, post = p :: rest ∧ rest.length = L.localLimit ∧ p.recorded + L.windowSizeMs < s.clock)

/-- One caller sleeps until the first request is out of the window. -/
def Asleep (s : State) (post : List Passed) : Prop :=
  ∃ sl p rest, s.sleeping = [sl] ∧ post = p :: rest ∧ post.length = L.localLimit ∧
    p.recorded + L.windowSizeMs < sl.wake ∧ p.released + L.windowSizeMs < sl.wake

/-- `requestTimes` is what was recorded of the latest returns; the returns
before them are out of the window. -/
def Inv (s : State) : Prop :=
  L.WithinLimit s ∧ ∃ pre post, s.passed = pre ++ post ∧ s.requestTimes = post.map (·.recorded) ∧
    (∀ p ∈ pre, p.released + L.windowSizeMs < s.clock) ∧ (L.Idle s post ∨ L.Asleep s post)

theorem inv_init (clock : Int) : L.Inv (State.init clock) :=
  ⟨fun _ => Nat.zero_le _, [], [], rfl, rfl, by simp, Or.inl ⟨rfl, Or.inl (Nat.zero_le _)⟩⟩

theorem inv_enter {s s' : State} {caller : Nat} {now : Int} (hl : 0 < L.localLimit) (hi : L.Inv s)
    (hok : L.Undisturbed s now) (h : L.step s (.enter caller now) = some s') : L.Inv s' := by
  obtain ⟨hw, pre, post, hpass, htimes, hpre, hphase⟩ := hi
  obtain ⟨-, hsize⟩ : L.Idle s post := by
    rcases hphase with h | ⟨sl, _, _, hsl, _⟩
    · exact h
    · rw [hok.alone] at hsl; cases hsl
  simp only [step] at h
  split at h
  · rename_i hc
    obtain ⟨old, new, hsplit, hprune, -, hhead⟩ := L.prune_split now post
    have hpass' : s.passed = (pre ++ old) ++ new := by rw [hpass, List.append_assoc, ← hsplit]
    have hprune' : L.prune now s.requestTimes = new.map (·.recorded) := by rw [htimes, hprune]
    have hdropped : L.dropped s now = old := by
      unfold dropped
      rw [hprune', htimes, entries_map hpass, List.length_map, List.length_map, hsplit, List.length_append,
        Nat.add_sub_cancel]
      exact List.take_left
    -- the returns outside the deque are out of the window of this call
    have hpre' : ∀ p ∈ pre ++ old, p.released + L.windowSizeMs < now := by
      intro p hp
      rcases List.mem_append.mp hp with hp | hp
      · have := hpre p hp; omega
      · have := hok.dropped p (by rwa [hdropped]); omega
    rw [htimes, hprune] at h
    split at h
    · rename_i hadm
      simp only [Option.some.injEq] at h
      subst h
      have hlt : new.length < L.localLimit := by
        rw [← List.length_map]
        refine L.admission_pass hl (fun t rest heq => ?_) hadm
        obtain ⟨p, ps, hnew, rfl, -⟩ := List.map_eq_cons_iff.mp heq
        exact hhead p ps hnew
      refine ⟨?_, pre ++ old, new ++ [⟨now, now⟩], by simp [hpass'], by simp, hpre',
        Or.inl ⟨hok.alone, Or.inl (by simpa using Nat.succ_le_of_lt hlt)⟩⟩
      refine L.withinLimit_snoc (s := s) (p := ⟨now, now⟩) rfl hw ?_
      rw [hpass']
      exact Nat.lt_of_le_of_lt (L.recent_le hpre') hlt
    · rename_i waitTime hadm
      simp only [Option.some.injEq] at h
      subst h
      obtain ⟨oldest, times, hmap, hfull, hwake⟩ := L.admission_sleep hadm
      obtain ⟨p, rest, rfl, hrec, -⟩ := List.map_eq_cons_iff.mp hmap
      rw [List.length_map] at hfull
      have hrel : p.released = oldest := by
        have hfront : p ∈ (entries s (L.prune now s.requestTimes)).head? := by
          rw [hprune', entries_map hpass']
          rfl
        rw [← hrec]
        refine hok.awaited ?_ p hfront
        rw [hprune', List.length_map]
        exact hfull
      have hlen : (p :: rest).length ≤ L.localLimit := by
        rcases hsize with hsize | ⟨q, tail, hq, htail, hexp⟩
        · rw [hsplit, List.length_append] at hsize; omega
        · -- the entry a sleeping call left over is dropped now
          cases old with
          | nil =>
            rw [hq] at hsplit
            have := hhead q tail hsplit.symm
            omega
          | cons o old =>
            have := congrArg List.length hsplit
            rw [hq, List.length_append, List.length_cons, List.length_cons, htail] at this
            omega
      refine ⟨hw, pre ++ old, p :: rest, hpass', rfl, hpre', Or.inr ⟨⟨caller, now, now + waitTime⟩, p, rest, ?_,
        rfl, by omega, ?_, ?_⟩⟩
      · simp [hok.alone]
      · show p.recorded + L.windowSizeMs < now + waitTime; omega
      · show p.released + L.windowSizeMs < now + waitTime; omega
  · cases h

theorem inv_resume {s s' : State} {caller : Nat} {time : Int} (hi : L.Inv s)
    (h : L.step s (.resume caller time) = some s') : L.Inv s' := by
  obtain ⟨hw, pre, post, hpass, htimes, hpre, hphase⟩ := hi
  simp only [step] at h
  split at h
  · rename_i sl' hfind
    rcases hphase with ⟨hnone, -⟩ | ⟨sl, p, rest, hsl, hpost, hlen, hrec, hrel⟩
    · rw [hnone] at hfind; cases hfind
    · have hsame : sl' = sl := by
        have := List.mem_of_find?_eq_some hfind
        rw [hsl] at this
        simpa using this
      subst hsame
      split at h
      · rename_i htime
        simp only [Option.some.injEq] at h
        subst h
        have hlen' : rest.length + 1 = L.localLimit := by rw [hpost] at hlen; simpa using hlen
        have hpre' : ∀ q ∈ pre, q.released + L.windowSizeMs < time := fun q hq => by
          have := hpre q hq; omega
        refine ⟨?_, pre, post ++ [⟨sl'.now, time⟩], ?_, ?_, hpre',
          Or.inl ⟨?_, Or.inr ⟨p, rest ++ [⟨sl'.now, time⟩], ?_, ?_, ?_⟩⟩⟩
        · refine L.withinLimit_snoc (s := s) (p := ⟨sl'.now, time⟩) rfl hw ?_
          -- the request the call slept for is out of the window too
          have hsplit : s.passed = (pre ++ [p]) ++ rest := by rw [hpass, hpost]; simp
          rw [hsplit]
          refine Nat.lt_of_le_of_lt (L.recent_le ?_) (show rest.length < L.localLimit by omega)
          intro q hq
          rcases List.mem_append.mp hq with hq | hq
          · exact hpre' q hq
          · rw [List.mem_singleton] at hq; subst hq; show q.released + _ < time; omega
        · simp [hpass]
        · simp [htimes]
        · simp [hsl]
        · simp [hpost]
        · simp [hlen']
        · show p.recorded + L.windowSizeMs < time; omega
      · cases h
  · cases h

theorem inv_step (hl : 0 < L.localLimit) (s : State) (e : Event) (s' : State) (hi : L.Inv s) (hok : L.StepOk s e)
    (h : L.step s e = some s') : L.Inv s' := by
  cases e with
  | enter caller now => exact L.inv_enter hl hi hok h
  | resume caller time => exact L.inv_resume hi h

end

/-! ## The limiters of the two clients -/

theorem withinLimit_of_undisturbed {L : RateLimiter} (hL : L = Spot.rateLimiter ∨ L = Futures.rateLimiter)
    {clock : Int} {es : List Event} (hok : Trace.Guarded L.step L.StepOk (State.init clock) es) :
    Trace.Always L.step L.WithinLimit (State.init clock) es := by
  have hl : 0 < L.localLimit := by
    rcases hL with rfl | rfl <;> decide
  exact (Trace.always_of_guarded L.step (L.inv_step hl) (L.inv_init clock) hok).mono L.step fun s hs => hs.1

def sleepThenPause : List Event :=
  List.replicate 10 (.enter 0 0) ++ [.enter 0 0, .resume 0 1010, .enter 0 2011]

theorem withinLimit_sleepThenPause :
    Trace.Always Spot.rateLimiter.step Spot.rateLimiter.WithinLimit (State.init 0) sleepThenPause :=
  withinLimit_of_undisturbed (Or.inl rfl) (by decide)

/-- A burst, a call that sleeps, and a second burst right after it. -/
def secondBurst : List Event :=
  List.replicate 11 (.enter 0 0) ++ .resume 0 1010 :: List.replicate 10 (.enter 0 1010)

theorem limit_exceeded :
    (∃ s, Trace.run Spot.rateLimiter.step (State.init 0) secondBurst = some s ∧
      (Spot.rateLimiter.returnsFrom 1010 s).length = 11 ∧ ¬ Spot.rateLimiter.WithinLimit s) ∧
    ∃ s, Trace.run Futures.rateLimiter.step (State.init 0) secondBurst = some s ∧
      (Futures.rateLimiter.returnsFrom 1010 s).length = 11 ∧ ¬ Futures.rateLimiter.WithinLimit s :=
  ⟨⟨_, rfl, by decide, fun h => absurd (h 1010) (by decide)⟩,
    ⟨_, rfl, by decide, fun h => absurd (h 1010) (by decide)⟩⟩

end RateLimiter

end MexcApi
