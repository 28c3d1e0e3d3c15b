import MexcApi.RateLimiterBoundSound
import MexcApi.SlidingWindow

/-!
# How fast one thread sends requests, and how long a call takes

Every method of the two clients calls `wait` and then sends its request. The
limit is `localLimit` requests in a window; one thread gets one more at most.
A request is sent after its call has returned and before the next one, so the
entries of the calls that follow are not older than it is.

Whatever the threads do, a call sleeps once, for little more than a window.
-/

namespace MexcApi

namespace RateLimiter

/-- A thread that uses a client. `permitted` says that `wait` has returned and
its request has not been sent. -/
structure Thread where
  limiter : State
  permitted : Bool := false
  sent : List Int := []
  deriving DecidableEq

namespace Thread

inductive Event where
  | wait (e : RateLimiter.Event)
  | send (time : Int)
  deriving DecidableEq

def Event.by (caller : Nat) : Event → Prop
  | .wait e => e.caller = caller
  | .send _ => True

instance (caller : Nat) : (e : Event) → Decidable (e.by caller)
  | .wait _ => inferInstanceAs (Decidable (_ = _))
  | .send _ => isTrue trivial

variable (L : RateLimiter)

def step (s : Thread) : Event → Option Thread
  | .wait e =>
    (L.step s.limiter e).map fun limiter =>
      { s with limiter, permitted := s.limiter.passed.length < limiter.passed.length }
  | .send time =>
    if s.permitted ∧ s.limiter.clock ≤ time then
      some { limiter := { s.limiter with clock := time }, permitted := false, sent := s.sent ++ [time] }
    else none

def init (clock : Int) : Thread := { limiter := State.init clock }

end Thread

section
variable (L : RateLimiter)

/-! ## The calls since a moment -/

def since (x : Int) (ps : List Passed) : List Passed := ps.filter fun p => x ≤ p.recorded

theorem since_snoc (x : Int) (ps : List Passed) (p : Passed) :
    (since x (ps ++ [p])).length = (since x ps).length + if x ≤ p.recorded then 1 else 0 := by
  unfold since
  by_cases hx : x ≤ p.recorded <;> simp [hx]

/-- The deque holds what was recorded last, and what it does not hold has
expired. -/
def Suffix (s : State) : Prop :=
  ∃ old live, s.passed = old ++ live ∧ s.requestTimes = live.map (·.recorded) ∧
    ∀ p ∈ old, p.recorded + L.windowSizeMs < s.clock

theorem Suffix.prune {s : State} (h : L.Suffix s) {now : Int} (hnow : s.clock ≤ now) :
    ∃ old live, s.passed = old ++ live ∧ L.prune now s.requestTimes = live.map (·.recorded) ∧
      ∀ p ∈ old, p.recorded + L.windowSizeMs < now := by
  obtain ⟨old, live, hpassed, htimes, hold⟩ := h
  obtain ⟨expired, new, hlive, hprune, hexpired, -⟩ := L.prune_split now live
  refine ⟨old ++ expired, new, by simp [hpassed, hlive], by rw [htimes, hprune], ?_⟩
  intro p hp
  rcases List.mem_append.mp hp with hp | hp
  · have := hold p hp
    omega
  · have := hexpired p hp
    omega

/-- `localLimit` calls since `x` fill the deque, unless `x` has expired. -/
theorem full_since {old live : List Passed} {now x : Int} (hold : ∀ p ∈ old, p.recorded + L.windowSizeMs < now)
    (hlen : live.length ≤ L.localLimit) (hx : L.localLimit ≤ (since x (old ++ live)).length) :
    x + L.windowSizeMs < now ∨ live.length = L.localLimit ∧ ∀ p ∈ live, x ≤ p.recorded := by
  by_cases hnone : ∃ p ∈ old, x ≤ p.recorded
  · obtain ⟨p, hp, hxp⟩ := hnone
    have := hold p hp
    exact Or.inl (by omega)
  · have hempty : since x old = [] := by
      simpa [since] using hnone
    have happend : since x (old ++ live) = since x live := by
      unfold since at hempty ⊢
      rw [List.filter_append, hempty, List.nil_append]
    rw [happend] at hx
    have hle : (since x live).length ≤ live.length := List.length_filter_le _ _
    have hall := List.length_filter_eq_length_iff.mp (show (since x live).length = live.length by omega)
    exact Or.inr ⟨by omega, by simpa using hall⟩

/-! ## The invariant -/

structure Thread.Paced (caller : Nat) (s : Thread) : Prop where
  one : L.OneCaller caller s.limiter
  suffix : L.Suffix s.limiter
  past : ∀ t ∈ s.sent, t ≤ s.limiter.clock
  asleep : ∀ sl ∈ s.limiter.sleeping, s.permitted = false ∧ (∀ t ∈ s.sent, t ≤ sl.now) ∧
    ∀ x, L.localLimit ≤ (since x s.limiter.passed).length → x + L.windowSizeMs < sl.wake
  -- one call too many since `x`, and the window of `x` is over
  spaced : ∀ x, L.localLimit < (since x s.limiter.passed).length → x + L.windowSizeMs < s.limiter.clock
  called : ∀ before t after, s.sent = before ++ t :: after →
    after.length + (if s.permitted then 1 else 0) ≤ (since t s.limiter.passed).length
  atMost : SlidingWindow.AtMost L.windowSizeMs (L.localLimit + 1) s.sent

theorem paced_init (caller : Nat) (clock : Int) : (Thread.init clock).Paced L caller where
  one := L.oneCaller_init caller clock
  suffix := ⟨[], [], rfl, rfl, by simp⟩
  past := by simp [Thread.init]
  asleep := by simp [Thread.init, State.init]
  spaced := by simp [Thread.init, State.init, since]
  called := by simp [Thread.init]
  atMost := SlidingWindow.atMost_nil _ _

theorem Thread.Paced.awake {caller : Nat} {s : Thread} (h : s.Paced L caller) {now : Int} {s' : State}
    (hs : L.step s.limiter (.enter caller now) = some s') : L.Returned s.limiter := by
  rcases h.one.phase with hreturned | ⟨sl, _, _, hsl, hcaller, -⟩
  · exact hreturned
  · simp only [RateLimiter.step] at hs
    split at hs
    · rename_i hc
      exact absurd hcaller (hc.2 sl (by simp [hsl]))
    · cases hs

theorem paced_enter {caller : Nat} {s s' : Thread} {now : Int} (hl : 0 < L.localLimit) (hi : s.Paced L caller)
    (h : s.step L (.wait (.enter caller now)) = some s') : s'.Paced L caller := by
  obtain ⟨limiter, hlimiter, rfl⟩ := Option.map_eq_some_iff.mp h
  have hone := L.oneCaller_enter hl hi.one hlimiter
  have hreturned := hi.awake L hlimiter
  simp only [RateLimiter.step] at hlimiter
  split at hlimiter
  · rename_i hc
    obtain ⟨old, live, hpassed, hprune, hold⟩ := hi.suffix.prune L hc.1
    have hlen := L.prune_length hreturned hc.1
    rw [hprune, List.length_map] at hlen
    have hpast : ∀ t ∈ s.sent, t ≤ now := by
      intro t ht
      have := hi.past t ht
      omega
    split at hlimiter
    · rename_i hadm
      cases hlimiter
      rw [hprune] at hadm
      have hroom : live.length < L.localLimit := by
        rw [← List.length_map (·.recorded)]
        refine L.admission_pass hl (fun t rest heq => ?_) hadm
        rw [← hprune] at heq
        exact L.prune_head heq
      refine ⟨hone, ⟨old, live ++ [⟨now, now⟩], ?_, ?_, hold⟩, hpast, ?_, ?_, ?_, hi.atMost⟩
      · simp [hpassed]
      · simp [hprune]
      · simp [hreturned.1]
      · intro x hx
        dsimp only at hx ⊢
        rw [since_snoc] at hx
        have hspaced := hi.spaced x
        split at hx
        · -- the call itself is one of them, and the others do not fill the deque
          have hrest : L.localLimit ≤ (since x (old ++ live)).length := by
            rw [← hpassed]
            omega
          rcases L.full_since hold hlen hrest with hx' | ⟨hfull, -⟩
          · exact hx'
          · omega
        · omega
      · intro before t after (heq : s.sent = before ++ t :: after)
        have hcalled := hi.called before t after heq
        have ht := hpast t (by simp [heq])
        dsimp only
        rw [since_snoc, if_pos ht]
        simp only [List.length_append, List.length_singleton, Nat.lt_succ_self, decide_true, if_true]
        omega
    · rename_i waitTime hadm
      cases hlimiter
      obtain ⟨front, rest, htimes, -, hwake⟩ := L.admission_sleep hadm
      rw [hprune] at htimes
      refine ⟨hone, ⟨old, live, hpassed, hprune, hold⟩, hpast, ?_, ?_, ?_, hi.atMost⟩
      · intro sl hsl
        simp only [hreturned.1, List.nil_append, List.mem_singleton] at hsl
        subst hsl
        refine ⟨by simp, hpast, ?_⟩
        intro x hx
        dsimp only at hx ⊢
        rw [hpassed] at hx
        rcases L.full_since hold hlen hx with hx' | ⟨-, hall⟩
        · have := L.prune_head (hprune.trans htimes)
          omega
        · obtain ⟨p, live', rfl, hp, -⟩ := List.map_eq_cons_iff.mp htimes
          have := hall p (by simp)
          omega
      · intro x hx
        have := hi.spaced x hx
        dsimp only
        omega
      · intro before t after (heq : s.sent = before ++ t :: after)
        have hcalled := hi.called before t after heq
        dsimp only
        simp only [Nat.lt_irrefl, decide_false, Bool.false_eq_true, if_false]
        omega
  · cases hlimiter

theorem paced_resume {caller : Nat} {s s' : Thread} {time : Int} (hi : s.Paced L caller)
    (h : s.step L (.wait (.resume caller time)) = some s') : s'.Paced L caller := by
  obtain ⟨limiter, hlimiter, rfl⟩ := Option.map_eq_some_iff.mp h
  have hone := L.oneCaller_resume hi.one hlimiter
  simp only [RateLimiter.step] at hlimiter
  split at hlimiter
  · rename_i sl hfind
    have hsl := List.mem_of_find?_eq_some hfind
    split at hlimiter
    · rename_i hc
      cases hlimiter
      obtain ⟨hquiet, hpast, hwake⟩ := hi.asleep sl hsl
      obtain ⟨old, live, hpassed, htimes, hold⟩ := hi.suffix
      have hlone : s.limiter.sleeping.erase sl = [] := by
        rcases hi.one.phase with ⟨hnone, -⟩ | ⟨sl', _, _, hone', -⟩
        · simp [hnone] at hsl
        · rw [hone', List.mem_singleton] at hsl
          simp [hone', hsl]
      refine ⟨hone, ⟨old, live ++ [⟨sl.now, time⟩], ?_, ?_, ?_⟩, ?_, ?_, ?_, ?_, hi.atMost⟩
      · simp [hpassed]
      · simp [htimes]
      · intro p hp
        have := hold p hp
        dsimp only
        omega
      · intro t ht
        have := hi.past t ht
        dsimp only
        omega
      · simp [hlone]
      · intro x hx
        dsimp only at hx ⊢
        rw [since_snoc] at hx
        -- the sleep lasts until such an `x` has expired
        have := hwake x
        split at hx
        · omega
        · omega
      · intro before t after (heq : s.sent = before ++ t :: after)
        have hcalled := hi.called before t after heq
        have ht := hpast t (by simp [heq])
        dsimp only
        rw [since_snoc, if_pos ht]
        simp only [List.length_append, List.length_singleton, Nat.lt_succ_self, decide_true, if_true]
        omega
    · cases hlimiter
  · cases hlimiter

theorem paced_send {caller : Nat} {s s' : Thread} {time : Int} (hi : s.Paced L caller)
    (h : s.step L (.send time) = some s') : s'.Paced L caller := by
  simp only [Thread.step] at h
  split at h
  · rename_i hc
    obtain ⟨hpermitted, htime⟩ := hc
    cases h
    have hnone : s.limiter.sleeping = [] := by
      apply List.eq_nil_iff_forall_not_mem.mpr
      intro sl hsl
      have := (hi.asleep sl hsl).1
      simp [this] at hpermitted
    refine ⟨⟨?_, ?_⟩, ?_, ?_, ?_, ?_, ?_, ?_⟩
    · intro t ht
      have := hi.one.recorded t ht
      dsimp only
      omega
    · rcases hi.one.phase with ⟨-, hsize⟩ | ⟨sl, _, _, hsl, -⟩
      · refine Or.inl ⟨hnone, hsize.imp_right ?_⟩
        rintro ⟨front, rest, htimes, hlen, hexpired⟩
        exact ⟨front, rest, htimes, hlen, by dsimp only; omega⟩
      · simp [hnone] at hsl
    · obtain ⟨old, live, hpassed, htimes, hold⟩ := hi.suffix
      refine ⟨old, live, hpassed, htimes, ?_⟩
      intro p hp
      have := hold p hp
      dsimp only
      omega
    · intro t ht
      rcases List.mem_append.mp ht with ht | ht
      · have := hi.past t ht
        dsimp only
        omega
      · simp at ht
        dsimp only
        omega
    · simp [hnone]
    · intro x hx
      have := hi.spaced x hx
      dsimp only
      omega
    · intro before t after heq
      dsimp only at heq ⊢
      simp only [Bool.false_eq_true, if_false, Nat.add_zero]
      rcases List.eq_nil_or_concat after with rfl | ⟨after', last, rfl⟩
      · simp
      · rw [List.concat_eq_append, ← List.cons_append, ← List.append_assoc] at heq
        have hcalled := hi.called before t after' (List.append_inj_left' heq rfl)
        simp only [hpermitted, if_true] at hcalled
        simpa using hcalled
    · apply SlidingWindow.atMost_snoc _ hi.atMost
      apply SlidingWindow.recent_le
      intro before t after heq hafter
      have hcalled := hi.called before t after heq
      simp only [hpermitted, if_true] at hcalled
      have := hi.spaced t (by omega)
      omega
  · cases h

end

/-! ## All runs -/

theorem sent_atMost {L : RateLimiter} (hL : L = Spot.rateLimiter ∨ L = Futures.rateLimiter) {clock : Int} {caller : Nat}
    {es : List Thread.Event} (hes : ∀ e ∈ es, e.by caller) :
    Trace.Always (Thread.step L) (fun s => SlidingWindow.AtMost L.windowSizeMs (L.localLimit + 1) s.sent)
      (Thread.init clock) es := by
  have hl : 0 < L.localLimit := by
    rcases hL with rfl | rfl <;> decide
  have hstep : ∀ s e s', s.Paced L caller → e.by caller → Thread.step L s e = some s' → s'.Paced L caller := by
    intro s e s' hi he hs
    cases e with
    | send time => exact paced_send L hi hs
    | wait e =>
      cases e with
      | enter _ now =>
        cases he
        exact paced_enter L hl hi hs
      | resume _ time =>
        cases he
        exact paced_resume L hi hs
  have hguard : Trace.Guarded (Thread.step L) (fun _ e => e.by caller) (Thread.init clock) es :=
    Trace.guarded_of_forall _ fun _ => hes
  exact (Trace.always_of_guarded _ hstep (paced_init L caller clock) hguard).mono _ fun s hs => hs.atMost

/-- A burst, a call that sleeps, and another burst. -/
def twoBursts : List Thread.Event :=
  (List.replicate 10 [.wait (.enter 0 0), .send 0]).flatten ++ [.wait (.enter 0 0), .wait (.resume 0 1010), .send 1010] ++
    (List.replicate 10 [.wait (.enter 0 1010), .send 1010]).flatten

theorem sent_atMost_twoBursts :
    Trace.Always (Thread.step Spot.rateLimiter)
      (fun s => SlidingWindow.AtMost Spot.rateLimiter.windowSizeMs (Spot.rateLimiter.localLimit + 1) s.sent)
      (Thread.init 0) twoBursts :=
  sent_atMost (Or.inl rfl) (show ∀ e ∈ twoBursts, e.by 0 by decide)

-- the bound is met
example : (Trace.run (Thread.step Spot.rateLimiter) (Thread.init 0) twoBursts).map
    (fun s => (SlidingWindow.upTo 1000 1010 s.sent).length) = some 11 := by decide

/-! ## Any number of threads -/

/-- A caller that sleeps does so for at least 10 ms and at most 10 ms more than
the window, and when its time has come it returns. -/
def State.NoneStuck (L : RateLimiter) (s : State) : Prop :=
  ∀ sl ∈ s.sleeping, 10 ≤ sl.wake - sl.now ∧ sl.wake - sl.now ≤ L.windowSizeMs + 10 ∧
    ∀ time, s.clock ≤ time → sl.wake ≤ time → ∃ s', L.step s (.resume sl.caller time) = some s' ∧
      s'.passed = s.passed ++ [⟨sl.now, time⟩] ∧ s'.sleeping = s.sleeping.erase sl

structure State.Timely (L : RateLimiter) (s : State) : Prop where
  recorded : ∀ t ∈ s.requestTimes, t ≤ s.clock
  sleepers : ∀ sl ∈ s.sleeping, sl.now ≤ s.clock ∧ 10 ≤ sl.wake - sl.now ∧ sl.wake - sl.now ≤ L.windowSizeMs + 10
  callers : (s.sleeping.map (·.caller)).Nodup

section
variable (L : RateLimiter)

theorem State.Timely.not_stuck {s : State} (h : s.Timely L) : s.NoneStuck L := by
  intro sl hsl
  obtain ⟨-, hlow, hhigh⟩ := h.sleepers sl hsl
  refine ⟨hlow, hhigh, ?_⟩
  intro time hclock hwake
  have hfind : s.sleeping.find? (·.caller = sl.caller) = some sl := by
    have hcallers := h.callers
    generalize s.sleeping = sleeping at hsl hcallers
    induction sleeping with
    | nil => cases hsl
    | cons first rest ih =>
      rw [List.map_cons, List.nodup_cons] at hcallers
      by_cases hfirst : first.caller = sl.caller
      · rcases List.mem_cons.mp hsl with rfl | hrest
        · simp
        · exact absurd (hfirst ▸ List.mem_map_of_mem hrest) hcallers.1
      · rcases List.mem_cons.mp hsl with rfl | hrest
        · exact absurd rfl hfirst
        · simpa [hfirst] using ih hrest hcallers.2
  simp only [step, hfind]
  rw [if_pos ⟨hclock, hwake⟩]
  exact ⟨_, rfl, rfl, rfl⟩

theorem timely_step (s : State) (e : Event) (s' : State) (hi : s.Timely L) (h : L.step s e = some s') : s'.Timely L := by
  obtain ⟨hrecorded, hsleepers, hcallers⟩ := hi
  cases e with
  | enter caller now =>
    simp only [step] at h
    split at h
    · rename_i hc
      have hprune : ∀ t ∈ L.prune now s.requestTimes, t ≤ now := by
        intro t ht
        have := hrecorded t ((L.prune_sublist now _).subset ht)
        omega
      have hasleep : ∀ sl ∈ s.sleeping, sl.now ≤ now ∧ 10 ≤ sl.wake - sl.now ∧
          sl.wake - sl.now ≤ L.windowSizeMs + 10 := by
        intro sl hsl
        have := hsleepers sl hsl
        omega
      split at h
      · cases h
        refine ⟨?_, hasleep, hcallers⟩
        intro t ht
        rcases List.mem_append.mp ht with ht | ht
        · exact hprune t ht
        · simp at ht
          dsimp only
          omega
      · rename_i waitTime hadm
        cases h
        obtain ⟨front, rest, htimes, -, hwake⟩ := L.admission_sleep hadm
        have hwindow := L.prune_head htimes
        have hpast := hprune front (by simp [htimes])
        refine ⟨hprune, ?_, ?_⟩
        · intro sl hsl
          rcases List.mem_append.mp hsl with hsl | hsl
          · exact hasleep sl hsl
          · rw [List.mem_singleton] at hsl
            subst hsl
            dsimp only
            omega
        · simp only [List.map_append, List.map_cons, List.map_nil]
          rw [List.nodup_append]
          refine ⟨hcallers, by simp, ?_⟩
          intro c hc' c' hc''
          obtain ⟨sl, hsl, rfl⟩ := List.mem_map.mp hc'
          rw [List.mem_singleton] at hc''
          rw [hc'']
          exact hc.2 sl hsl
    · cases h
  | resume caller time =>
    simp only [step] at h
    split at h
    · rename_i sl hfind
      have hsl := List.mem_of_find?_eq_some hfind
      split at h
      · rename_i hc
        cases h
        refine ⟨?_, ?_, ?_⟩
        · intro t ht
          rcases List.mem_append.mp ht with ht | ht
          · have := hrecorded t ht
            dsimp only
            omega
          · have := hsleepers sl hsl
            simp at ht
            dsimp only
            omega
        · intro sl' hsl'
          have := hsleepers sl' (List.mem_of_mem_erase hsl')
          dsimp only
          omega
        · exact hcallers.sublist (List.erase_sublist.map _)
      · cases h
    · cases h

end

theorem noneStuck (L : RateLimiter) (clock : Int) (es : List Event) :
    Trace.Always L.step (State.NoneStuck L) (State.init clock) es := by
  have hinit : (State.init clock).Timely L := ⟨by simp [State.init], by simp [State.init], by simp [State.init]⟩
  exact (Trace.always_of_step L.step (timely_step L) hinit).mono L.step fun s hs => hs.not_stuck L

end RateLimiter

end MexcApi
