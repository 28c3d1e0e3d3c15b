import MexcApi.Trace
import MexcApi.WsThread

/-!
# When the destructor's stop is undone

The thread restarts a stopped context before it runs it, without asking who
has stopped it. A stop that comes before the thread's test is undone, and so is
one that comes during a handler whose exception sends the thread back to it.
From `io_context.run()` on the thread otherwise only goes to its end.
-/

namespace MexcApi

namespace Futures

namespace WSThread

/-- The destructor has called `stop()`. -/
def Destroying (s : State) : Prop := s.caller = .joinLast ∨ s.caller = .destroyed

/-- The thread is on its way into `io_context.run()`. -/
def Entering (s : State) : Prop :=
  s.thread = some .setRunning ∨ s.thread = some .testStopped ∨ s.thread = some .restart

/-- The thread is in a handler that ends with an exception. -/
def throwing : Option ThreadPc → Bool
  | some (.handling _ throws) => throws
  | _ => false

def StaysStopped (s : State) : Prop := Destroying s → ∀ es, Trace.Always step (fun t => t.stopped = true) s es

/-- The destructor does not call `stop()` while the thread is on its way, or in
a handler that sends it there. -/
def Calm (s : State) (e : Event) : Prop := e = .destroy → ¬ Entering s ∧ throwing s.thread = false

instance (s : State) : Decidable (Entering s) := inferInstanceAs (Decidable (_ ∨ _ ∨ _))

instance (s : State) (e : Event) : Decidable (Calm s e) := inferInstanceAs (Decidable (_ → _ ∧ _))

structure Halted (s : State) : Prop where
  destroying : Destroying s
  stopped : s.stopped = true
  leaving : ¬ Entering s
  quiet : throwing s.thread = false

/-! ## After the stop -/

theorem halted_thread {s s' : State} (h : Halted s) (hs : stepThread s = some s') : Halted s' := by
  obtain ⟨hd, hstop, hleave, hquiet⟩ := h
  unfold stepThread at hs
  split at hs
  · rename_i ht
    exact absurd (Or.inl ht) hleave
  · rename_i ht
    exact absurd (Or.inr (Or.inl ht)) hleave
  · rename_i ht
    exact absurd (Or.inr (Or.inr ht)) hleave
  · split at hs
    · cases hs
      exact ⟨hd, rfl, by simp [Entering], rfl⟩
    · cases hs
  · rename_i more throws ht
    -- the handler ends without an exception
    have hthrows : throws = false := by rwa [ht] at hquiet
    cases hs
    rw [hthrows]
    exact ⟨hd, by simp [hstop], by simp [Entering], rfl⟩
  · cases hs
    exact ⟨hd, hstop, by simp [Entering], rfl⟩
  · cases hs
    exact ⟨hd, hstop, by simp [Entering], rfl⟩
  · cases hs
  · cases hs

theorem halted_caller {s s' : State} (h : Halted s) (hs : stepCaller s = some s') : Halted s' := by
  obtain ⟨hd, hstop, hleave, hquiet⟩ := h
  unfold stepCaller at hs
  rcases hd with hd | hd
  · rw [hd] at hs
    simp only at hs
    split at hs
    · cases hs
      exact ⟨Or.inr rfl, hstop, hleave, hquiet⟩
    · cases hs
      exact ⟨Or.inr rfl, hstop, by simp [Entering], rfl⟩
    · cases hs
  · rw [hd] at hs
    cases hs

theorem halted_step (s : State) (e : Event) (s' : State) (h : Halted s) (hs : step s e = some s') : Halted s' := by
  have hout : s.caller ≠ .outside := by
    rcases h.destroying with hd | hd
    · rw [hd]; nofun
    · rw [hd]; nofun
  cases e with
  | subscribe => simp only [step, if_neg hout] at hs; cases hs
  | run => simp only [step, if_neg hout] at hs; cases hs
  | caller => exact halted_caller h hs
  | destroy => simp only [step, if_neg hout] at hs; cases hs
  | handler more throws =>
    simp only [step] at hs
    split at hs
    · rename_i hc
      rw [h.stopped] at hc
      cases hc.2.1
    · cases hs
  | thread => exact halted_thread h hs

theorem halted_stays {s : State} (h : Halted s) : StaysStopped s :=
  fun _ _ => (Trace.always_of_step step halted_step h).mono step fun _ => Halted.stopped

theorem halted_join {s : State} (h : Halted s) (hc : s.caller = .joinLast) :
    ∃ n s', n ≤ 4 ∧ Trace.run step s (List.replicate n .thread ++ [.caller]) = some s' ∧ s'.caller = .destroyed := by
  obtain ⟨isRunning, stopped, work, thread, caller⟩ := s
  obtain rfl : caller = .joinLast := hc
  obtain rfl : stopped = true := h.stopped
  cases thread with
  | none => exact ⟨0, _, by decide, rfl, rfl⟩
  | some pc =>
    cases pc with
    | setRunning => exact absurd (Or.inl rfl) h.leaving
    | testStopped => exact absurd (Or.inr (Or.inl rfl)) h.leaving
    | restart => exact absurd (Or.inr (Or.inr rfl)) h.leaving
    | running => exact ⟨3, _, by decide, rfl, rfl⟩
    | handling more throws =>
      cases throws with
      | true => cases h.quiet
      | false => exact ⟨4, _, by decide, rfl, rfl⟩
    | clear => exact ⟨2, _, by decide, rfl, rfl⟩
    | clearEnd => exact ⟨1, _, by decide, rfl, rfl⟩
    | ended => exact ⟨0, _, by decide, rfl, rfl⟩

/-! ## Before the stop -/

theorem thread_caller {s s' : State} (hs : stepThread s = some s') : s'.caller = s.caller := by
  unfold stepThread at hs
  split at hs
  · cases hs; rfl
  · cases hs; rfl
  · cases hs; rfl
  · split at hs
    · cases hs; rfl
    · cases hs
  · cases hs; rfl
  · cases hs; rfl
  · cases hs; rfl
  · cases hs
  · cases hs

theorem caller_destroying {s s' : State} (hs : stepCaller s = some s') (hd : Destroying s') : Destroying s := by
  unfold stepCaller at hs
  split at hs
  · cases hs
    rcases hd with hd | hd
    · simp only at hd; split at hd <;> cases hd
    · simp only at hd; split at hd <;> cases hd
  · cases hs; rcases hd with hd | hd <;> cases hd
  · split at hs
    · cases hs; rcases hd with hd | hd <;> cases hd
    · cases hs; rcases hd with hd | hd <;> cases hd
    · cases hs
  · cases hs; rcases hd with hd | hd <;> cases hd
  · rename_i hc
    exact Or.inl hc
  · cases hs
  · cases hs

theorem destroying_step {s s' : State} {e : Event} (hs : step s e = some s') (hd : Destroying s') :
    Destroying s ∨ e = .destroy ∧ s' = { s with stopped := true, caller := .joinLast } := by
  cases e with
  | destroy =>
    simp only [step] at hs
    split at hs
    · cases hs; exact Or.inr ⟨rfl, rfl⟩
    · cases hs
  | subscribe =>
    simp only [step] at hs
    split at hs
    · cases hs; rcases hd with hd | hd <;> cases hd
    · cases hs
  | run =>
    simp only [step] at hs
    split at hs
    · cases hs; rcases hd with hd | hd <;> cases hd
    · cases hs
  | handler more throws =>
    simp only [step] at hs
    split at hs
    · cases hs; exact Or.inl hd
    · cases hs
  | thread =>
    left
    rw [Destroying, thread_caller hs] at hd
    exact hd
  | caller => exact Or.inl (caller_destroying hs hd)

/-- Three statements of the thread take the context out of the stopped state. -/
theorem entering_restarts {s : State} (hstop : s.stopped = true) (h : Entering s) :
    ¬ ∀ es, Trace.Always step (fun t => t.stopped = true) s es := by
  obtain ⟨isRunning, stopped, work, thread, caller⟩ := s
  obtain rfl : stopped = true := hstop
  intro hall
  rcases h with ht | ht | ht
  · obtain rfl : thread = some .setRunning := ht
    have := hall [.thread, .thread, .thread]
    simp [Trace.Always, step, stepThread] at this
  · obtain rfl : thread = some .testStopped := ht
    have := hall [.thread, .thread]
    simp [Trace.Always, step, stepThread] at this
  · obtain rfl : thread = some .restart := ht
    have := hall [.thread]
    simp [Trace.Always, step, stepThread] at this

theorem throwing_restarts {s : State} (hstop : s.stopped = true) (h : throwing s.thread = true) :
    ¬ ∀ es, Trace.Always step (fun t => t.stopped = true) s es := by
  intro hall
  obtain ⟨more, ht⟩ : ∃ more, s.thread = some (.handling more true) := by
    unfold throwing at h
    split at h
    · rename_i more throws ht
      exact ⟨more, h ▸ ht⟩
    · cases h
  -- the exception takes the thread to the start of its loop
  have hthrown : step s .thread = some { s with
      work := s.work - 1 + more, stopped := s.stopped || s.work - 1 + more = 0, thread := some .setRunning } := by
    simp [step, stepThread, ht]
  exact entering_restarts (by simp [hstop]) (Or.inl rfl) fun es => (hall (.thread :: es)).2 _ hthrown

/-! ## Runs -/

theorem halted_calm (s : State) (e : Event) (s' : State) (h : Destroying s → Halted s) (hok : Calm s e)
    (hs : step s e = some s') : Destroying s' → Halted s' := by
  intro hd
  rcases destroying_step hs hd with hd | ⟨rfl, rfl⟩
  · exact halted_step s e s' (h hd) hs
  · exact ⟨Or.inl rfl, rfl, (hok rfl).1, (hok rfl).2⟩

theorem restarts (s : State) (e : Event) (s' : State) (hok : ¬ Calm s e) (hs : step s e = some s') :
    ¬ StaysStopped s' := by
  obtain ⟨rfl, hway⟩ : e = .destroy ∧ (Entering s ∨ throwing s.thread = true) := by
    unfold Calm at hok
    rw [Classical.not_imp, Classical.not_and_iff_not_or_not, Classical.not_not, Bool.not_eq_false] at hok
    exact hok
  simp only [step] at hs
  split at hs
  · cases hs
    intro h
    rcases hway with hent | hthrow
    · have hent' : Entering { s with stopped := true, caller := .joinLast } := hent
      exact entering_restarts rfl hent' (h (Or.inl rfl))
    · have hthrow' : throwing { s with stopped := true, caller := .joinLast }.thread = true := hthrow
      exact throwing_restarts rfl hthrow' (h (Or.inl rfl))
  · cases hs

theorem staysStopped_iff_calm (es : List Event) :
    Trace.Always step StaysStopped {} es ↔ Trace.Guarded step Calm {} es := by
  have hinit : Destroying {} → Halted {} := by
    rintro (hd | hd) <;> cases hd
  have hstays : ∀ s, (Destroying s → Halted s) → StaysStopped s := fun s h hd => halted_stays (h hd) hd
  exact Trace.always_iff_guarded step hstays halted_calm (fun s e s' _ hok hs => restarts s e s' hok hs) hinit

/-- A first subscription, and the client is destroyed before the thread has come to its test. -/
def earlyStop : List Event :=
  [.subscribe, .caller, .caller, .caller, .caller, .destroy, .thread, .thread, .thread]

/-- The stop is undone, and the join waits for a session that has work to do. -/
theorem stop_undone :
    ∃ s, Trace.run step {} earlyStop = some s ∧ s.caller = .joinLast ∧ s.stopped = false ∧
      s.thread = some .running ∧ s.work = 1 ∧ ¬ Trace.Always step StaysStopped {} earlyStop := by
  refine ⟨_, rfl, rfl, rfl, rfl, rfl, ?_⟩
  intro h
  have hlast := h.last step rfl (Or.inl rfl) []
  cases hlast

end WSThread

end Futures

end MexcApi
