import MexcApi.RateLimiterSound
import MexcApi.RateLimiterWindowSound

/-!
# The rate limiter of a single caller

A call that slept leaves one entry too many in the deque. It slept until the
front had expired, so the next call takes that one away.
-/

namespace MexcApi

namespace RateLimiter

section
variable (L : RateLimiter)

/-- The size of the deque, and how long a sleep is to last. -/
structure Bounded (s : State) : Prop where
  size : s.requestTimes.length ≤ L.localLimit + 1
  sleep : ∀ sl ∈ s.sleeping, 10 ≤ sl.wake - sl.now ∧ sl.wake - sl.now ≤ L.windowSizeMs + 10

/-! ## The invariant -/

def Returned (s : State) : Prop :=
  s.sleeping = [] ∧ (s.requestTimes.length ≤ L.localLimit ∨
    ∃ front rest, s.requestTimes = front :: rest ∧ rest.length = L.localLimit ∧ front + L.windowSizeMs < s.clock)

/-- The caller sleeps until the front of a full deque has expired. -/
def Sleeping (caller : Nat) (s : State) : Prop :=
  ∃ sl front rest, s.sleeping = [sl] ∧ sl.caller = caller ∧ sl.now ≤ s.clock ∧
    s.requestTimes = front :: rest ∧ rest.length + 1 = L.localLimit ∧ front + L.windowSizeMs < sl.wake ∧
    10 ≤ sl.wake - sl.now ∧ sl.wake - sl.now ≤ L.windowSizeMs + 10

structure OneCaller (caller : Nat) (s : State) : Prop where
  recorded : ∀ t ∈ s.requestTimes, t ≤ s.clock
  phase : L.Returned s ∨ L.Sleeping caller s

theorem oneCaller_init (caller : Nat) (clock : Int) : L.OneCaller caller (State.init clock) :=
  ⟨by simp [State.init], Or.inl ⟨rfl, Or.inl (Nat.zero_le _)⟩⟩

theorem OneCaller.bounded {caller : Nat} {s : State} (h : L.OneCaller caller s) : L.Bounded s := by
  rcases h.phase with ⟨hnone, hsize⟩ | ⟨sl, front, rest, hsl, -, -, htimes, hlen, -, hlow, hhigh⟩
  · refine ⟨?_, by simp [hnone]⟩
    rcases hsize with hsize | ⟨front, rest, htimes, hlen, -⟩
    · omega
    · rw [htimes, List.length_cons]
      omega
  · refine ⟨?_, ?_⟩
    · rw [htimes, List.length_cons, hlen]
      exact Nat.le_succ _
    · intro other hother
      rw [hsl, List.mem_singleton] at hother
      subst hother
      exact ⟨hlow, hhigh⟩

theorem prune_length {s : State} (h : L.Returned s) {now : Int} (hnow : s.clock ≤ now) :
    (L.prune now s.requestTimes).length ≤ L.localLimit := by
  rcases h.2 with hsize | ⟨front, rest, htimes, hlen, hexpired⟩
  · exact Nat.le_trans (L.prune_sublist now _).length_le hsize
  · have hfront : now - front > L.windowSizeMs := by omega
    rw [htimes, ← hlen]
    simp only [prune, if_pos hfront]
    exact (L.prune_sublist now rest).length_le

theorem oneCaller_enter {s s' : State} {caller : Nat} {now : Int} (hl : 0 < L.localLimit) (hi : L.OneCaller caller s)
    (h : L.step s (.enter caller now) = some s') : L.OneCaller caller s' := by
  simp only [step] at h
  split at h
  · rename_i hc
    have hreturned : L.Returned s := by
      rcases hi.phase with hreturned | ⟨sl, _, _, hsl, hcaller, -⟩
      · exact hreturned
      · exact absurd hcaller (hc.2 sl (by simp [hsl]))
    have hlen := L.prune_length hreturned hc.1
    have hrecorded : ∀ t ∈ L.prune now s.requestTimes, t ≤ now := by
      intro t ht
      have := hi.recorded t ((L.prune_sublist now _).subset ht)
      omega
    split at h
    · rename_i hadm
      cases h
      have hlt := L.admission_pass hl (fun t rest heq => L.prune_head heq) hadm
      refine ⟨?_, Or.inl ⟨hreturned.1, Or.inl ?_⟩⟩
      · intro t ht
        rcases List.mem_append.mp ht with ht | ht
        · exact hrecorded t ht
        · exact Int.le_of_eq (List.mem_singleton.mp ht)
      · rw [List.length_append, List.length_singleton]
        exact hlt
    · rename_i waitTime hadm
      cases h
      obtain ⟨front, rest, htimes, hfull, hwake⟩ := L.admission_sleep hadm
      have hwindow := L.prune_head htimes
      have hpast := hrecorded front (by simp [htimes])
      rw [htimes, List.length_cons] at hlen hfull
      refine ⟨hrecorded, Or.inr ⟨⟨caller, now, now + waitTime⟩, front, rest, ?_, rfl, Int.le_refl _, htimes, ?_⟩⟩
      · simp [hreturned.1]
      · dsimp only
        omega
  · cases h

theorem oneCaller_resume {s s' : State} {caller : Nat} {time : Int} (hi : L.OneCaller caller s)
    (h : L.step s (.resume caller time) = some s') : L.OneCaller caller s' := by
  simp only [step] at h
  split at h
  · rename_i sl' hfind
    split at h
    · rename_i hc
      cases h
      rcases hi.phase with ⟨hnone, -⟩ | ⟨sl, front, rest, hsl, -, hnow, htimes, hlen, hexpired, -⟩
      · rw [hnone] at hfind
        cases hfind
      · have hsame : sl' = sl := by
          have hmem := List.mem_of_find?_eq_some hfind
          rw [hsl] at hmem
          exact List.mem_singleton.mp hmem
        subst hsame
        refine ⟨?_, Or.inl ⟨by simp [hsl], Or.inr ⟨front, rest ++ [sl'.now], ?_, ?_, ?_⟩⟩⟩
        · intro t ht
          show t ≤ time
          rcases List.mem_append.mp ht with ht | ht
          · have := hi.recorded t ht
            omega
          · have := List.mem_singleton.mp ht
            omega
        · simp [htimes]
        · simp [hlen]
        · show front + L.windowSizeMs < time
          omega
    · cases h
  · cases h

end

/-! ## All runs -/

theorem bounded_of_oneCaller {L : RateLimiter} (hL : L = Spot.rateLimiter ∨ L = Futures.rateLimiter) {clock : Int}
    {caller : Nat} {es : List Event} (hes : ∀ e ∈ es, e.caller = caller) :
    Trace.Always L.step L.Bounded (State.init clock) es := by
  have hl : 0 < L.localLimit := by
    rcases hL with rfl | rfl <;> decide
  have hstep : ∀ s e s', L.OneCaller caller s → e.caller = caller → L.step s e = some s' → L.OneCaller caller s' := by
    intro s e s' hi he hs
    cases e with
    | enter _ now =>
      cases he
      exact L.oneCaller_enter hl hi hs
    | resume _ time =>
      cases he
      exact L.oneCaller_resume hi hs
  have hguard : Trace.Guarded L.step (fun _ e => e.caller = caller) (State.init clock) es :=
    Trace.guarded_of_forall L.step fun _ => hes
  exact (Trace.always_of_guarded L.step hstep (L.oneCaller_init caller clock) hguard).mono L.step fun s hs => hs.bounded

theorem bounded_sleepThenPause : Trace.Always Spot.rateLimiter.step Spot.rateLimiter.Bounded (State.init 0) sleepThenPause :=
  bounded_of_oneCaller (Or.inl rfl) (show ∀ e ∈ sleepThenPause, e.caller = 0 by decide)

end RateLimiter

end MexcApi
