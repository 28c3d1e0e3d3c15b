import MexcApi.Trace
import MexcApi.WsThread

/-!
# When work is left without a thread

The thread clears the flag after `io_context.run()` has returned, so a caller
that tests the flag after the context has run out of work takes the thread for
running. Otherwise work without a thread means that the caller is about to
start one.
-/

namespace MexcApi

namespace Futures

namespace WSThread

/-- The context has run out of work and the flag is still set. -/
def Stale (s : State) : Prop := s.thread = some .running ∧ s.stopped = true ∨ s.thread = some .clear

def Leaving (s : State) : Prop :=
  Stale s ∨ s.thread = none ∨ s.thread = some .clearEnd ∨ s.thread = some .ended

/-- The caller does not test a stale flag with work outstanding. -/
def InTime (s : State) (e : Event) : Prop := e = .caller → s.caller = .test → Stale s → s.work = 0

instance (s : State) : Decidable (Stale s) := inferInstanceAs (Decidable (_ ∧ _ ∨ _))

instance (s : State) (e : Event) : Decidable (InTime s e) := inferInstanceAs (Decidable (_ → _ → _ → _))

structure Inv (s : State) : Prop where
  /-- Work without a thread is the caller's business. -/
  work : Leaving s → s.work = 0 ∨ s.caller ≠ .outside
  /-- The flag is clear when a caller may have to start a thread. -/
  flag : Leaving s → Stale s ∨ (s.caller = .outside ∨ s.caller = .test → s.isRunning = false)
  /-- The old thread is joined before a new one is started. -/
  spawn : s.caller = .spawn → s.thread = none
  /-- During a handler only the destructor stops the context. -/
  stop : ∀ more throws, s.thread = some (.handling more throws) → s.stopped = true → s.caller = .joinLast

theorem served_of_inv {s : State} (h : Inv s) : Served s := by
  intro hc hidle
  have hleave : Leaving s := by
    rcases hidle with hn | he
    · exact Or.inr (Or.inl hn)
    · exact Or.inr (Or.inr (Or.inr he))
  rcases h.work hleave with hw | hne
  · exact hw
  · exact absurd hc hne

theorem inv_init : Inv {} := ⟨fun _ => Or.inl rfl, fun _ => Or.inr fun _ => rfl, nofun, nofun⟩

/-- A caller in the middle of `subscribe`, `run` or the destructor answers for the work. -/
theorem inv_busy {s : State} (houtside : s.caller ≠ .outside) (htest : s.caller ≠ .test)
    (hspawn : s.caller = .spawn → s.thread = none)
    (hstop : ∀ more throws, s.thread = some (.handling more throws) → s.stopped = true → s.caller = .joinLast) :
    Inv s where
  work := fun _ => Or.inr houtside
  flag := fun _ => Or.inr fun hc => absurd hc (not_or.mpr ⟨houtside, htest⟩)
  spawn := hspawn
  stop := hstop

/-- A handler that runs while the caller is elsewhere has not been stopped. -/
theorem Inv.stop_kept {s s' : State} (h : Inv s) (hc : s.caller ≠ .joinLast) (hthread : s'.thread = s.thread)
    (hstopped : s'.stopped = s.stopped) (more : Nat) (throws : Bool) (ht : s'.thread = some (.handling more throws))
    (hstop : s'.stopped = true) : s'.caller = .joinLast :=
  absurd (h.stop more throws (hthread ▸ ht) (hstopped ▸ hstop)) hc

theorem Inv.not_spawn {s : State} (h : Inv s) {pc : ThreadPc} (ht : s.thread = some pc) : s.caller ≠ .spawn := by
  intro hc
  rw [h.spawn hc] at ht
  cases ht

/-! ## The caller's steps -/

theorem inv_enter {s : State} (h : Inv s) (hc : s.caller = .outside) (work : Nat) :
    Inv { s with work := work, caller := .test } where
  work := fun _ => Or.inr nofun
  flag := by
    intro hl
    rcases h.flag hl with hs | hf
    · exact Or.inl hs
    · exact Or.inr fun _ => hf (Or.inl hc)
  spawn := nofun
  stop := h.stop_kept (by rw [hc]; nofun) rfl rfl

theorem inv_caller {s s' : State} (h : Inv s) (hok : InTime s .caller) (hs : stepCaller s = some s') : Inv s' := by
  unfold stepCaller at hs
  split at hs
  · rename_i hc
    cases hs
    have hne : s.caller ≠ .joinLast := by rw [hc]; nofun
    by_cases hr : s.isRunning = true
    · -- a set flag is believed: the work is done, or the thread still runs
      simp only [hr, ite_true]
      refine ⟨fun hl => Or.inl ?_, fun hl => Or.inl ?_, nofun, h.stop_kept hne rfl rfl⟩
      · rcases h.flag hl with hst | hf
        · exact hok rfl hc hst
        · have := hf (Or.inr hc); rw [hr] at this; cases this
      · rcases h.flag hl with hst | hf
        · exact hst
        · have := hf (Or.inr hc); rw [hr] at this; cases this
    · simp only [hr, Bool.false_eq_true, ite_false]
      exact inv_busy nofun nofun nofun (h.stop_kept hne rfl rfl)
  · rename_i hc
    cases hs
    exact inv_busy nofun nofun nofun (h.stop_kept (by rw [hc]; nofun) rfl rfl)
  · rename_i hc
    split at hs
    · rename_i hn
      cases hs
      exact inv_busy nofun nofun (fun _ => hn) (h.stop_kept (by rw [hc]; nofun) rfl rfl)
    · cases hs
      exact inv_busy nofun nofun (fun _ => rfl) nofun
    · cases hs
  · cases hs
    have hrun : ¬ Leaving { s with thread := some .setRunning, caller := .outside } := by
      simp [Leaving, Stale]
    exact ⟨fun hl => absurd hl hrun, fun hl => absurd hl hrun, nofun, nofun⟩
  · split at hs
    · rename_i hn
      cases hs
      refine inv_busy nofun nofun nofun fun more throws ht => ?_
      rw [hn] at ht
      cases ht
    · cases hs
      exact inv_busy nofun nofun nofun nofun
    · cases hs
  · cases hs
  · cases hs

/-! ## The thread's steps -/

theorem inv_active {s s' : State} (h : Inv s) (hcaller : s'.caller = s.caller) {pc : ThreadPc} (ht : s.thread = some pc)
    (hrun : ¬ Leaving s')
    (hstop : ∀ more throws, s'.thread = some (.handling more throws) → s'.stopped = true → s'.caller = .joinLast) :
    Inv s' where
  work := fun hl => absurd hl hrun
  flag := fun hl => absurd hl hrun
  spawn := fun hc => absurd (hcaller ▸ hc) (h.not_spawn ht)
  stop := hstop

theorem inv_handled {s : State} (h : Inv s) {more : Nat} {throws : Bool} (ht : s.thread = some (.handling more throws)) :
    Inv { s with
      work := s.work - 1 + more, stopped := s.stopped || s.work - 1 + more = 0
      thread := some (if throws then .setRunning else .running) } := by
  cases throws with
  | true => exact inv_active h rfl ht (by simp [Leaving, Stale]) nofun
  | false =>
    by_cases hst : s.stopped = true
    · have hc := h.stop more false ht hst
      have hstale : (s.stopped || s.work - 1 + more = 0) = true := by rw [hst]; rfl
      refine ⟨fun _ => Or.inr ?_, fun _ => Or.inl (Or.inl ⟨rfl, hstale⟩), fun hc => absurd hc (h.not_spawn ht), nofun⟩
      show s.caller ≠ .outside
      rw [hc]
      nofun
    · by_cases hw : s.work - 1 + more = 0
      · have hstale : (s.stopped || s.work - 1 + more = 0) = true := by simp [hw]
        exact ⟨fun _ => Or.inl hw, fun _ => Or.inl (Or.inl ⟨rfl, hstale⟩), fun hc => absurd hc (h.not_spawn ht), nofun⟩
      · refine inv_active h rfl ht ?_ nofun
        have hbusy : (s.stopped || s.work - 1 + more = 0) = false := by
          rw [Bool.eq_false_iff.mpr hst, Bool.false_or, decide_eq_false hw]
        rw [hbusy]
        simp [Leaving, Stale]

theorem inv_thread {s s' : State} (h : Inv s) (hs : stepThread s = some s') : Inv s' := by
  unfold stepThread at hs
  split at hs
  · rename_i ht
    cases hs
    exact inv_active h rfl ht (by simp [Leaving, Stale]) nofun
  · rename_i ht
    cases hs
    refine inv_active h rfl ht ?_ ?_
    · by_cases hst : s.stopped = true
      · simp [Leaving, Stale, hst]
      · simp [Leaving, Stale, hst]
    · intro more throws ht'
      simp only at ht'
      split at ht' <;> cases ht'
  · rename_i ht
    cases hs
    exact inv_active h rfl ht (by simp [Leaving, Stale]) nofun
  · rename_i ht
    split at hs
    · rename_i hret
      cases hs
      refine ⟨fun _ => ?_, fun _ => Or.inl (Or.inr rfl), fun hc => absurd hc (h.not_spawn ht), nofun⟩
      rcases hret with hst | hw
      · exact h.work (Or.inl (Or.inl ⟨ht, hst⟩))
      · exact Or.inl hw
    · cases hs
  · rename_i more throws ht
    cases hs
    exact inv_handled h ht
  · rename_i ht
    cases hs
    exact ⟨fun _ => h.work (Or.inl (Or.inr ht)), fun _ => Or.inr fun _ => rfl, fun hc => absurd hc (h.not_spawn ht), nofun⟩
  · rename_i ht
    cases hs
    exact ⟨fun _ => h.work (Or.inr (Or.inr (Or.inl ht))), fun _ => Or.inr fun _ => rfl,
      fun hc => absurd hc (h.not_spawn ht), nofun⟩
  · cases hs
  · cases hs

theorem inv_step (s : State) (e : Event) (s' : State) (h : Inv s) (hok : InTime s e) (hs : step s e = some s') :
    Inv s' := by
  cases e with
  | subscribe =>
    simp only [step] at hs
    split at hs
    · rename_i hc; cases hs; exact inv_enter h hc _
    · cases hs
  | run =>
    simp only [step] at hs
    split at hs
    · rename_i hc; cases hs; exact inv_enter h hc _
    · cases hs
  | caller => exact inv_caller h hok hs
  | destroy =>
    simp only [step] at hs
    split at hs
    · cases hs
      exact inv_busy nofun nofun nofun fun _ _ _ _ => rfl
    · cases hs
  | handler more throws =>
    simp only [step] at hs
    split at hs
    · rename_i hc
      cases hs
      refine inv_active h rfl hc.1 (by simp [Leaving, Stale]) fun _ _ _ hstop => ?_
      rw [hc.2.1] at hstop
      cases hstop
    · cases hs
  | thread => exact inv_thread h hs

theorem served_of_inTime {es : List Event} (hok : Trace.Guarded step InTime {} es) :
    Trace.Always step Served {} es :=
  (Trace.always_of_guarded step inv_step inv_init hok).mono step fun _ => served_of_inv

def firstSession : List Event :=
  [.subscribe, .caller, .caller, .caller, .caller, .thread, .thread, .handler 0 false, .thread]

theorem served_second_session :
    Trace.Always step Served {} (firstSession ++ [.thread, .thread, .thread, .subscribe, .caller, .caller, .caller,
      .caller]) :=
  served_of_inTime (by decide)

/-- A second session comes between the end of `io_context.run()` and the
store of the flag. -/
theorem start_lost :
    ∃ s, Trace.run step {} (firstSession ++ [.thread, .subscribe, .caller, .thread, .thread]) = some s ∧
      s.caller = .outside ∧ s.thread = some .ended ∧ s.work = 1 ∧ ¬ Served s :=
  ⟨_, rfl, rfl, rfl, rfl, fun h => absurd (h rfl (Or.inr rfl)) (by decide)⟩

end WSThread

end Futures

end MexcApi
