/-!
# Runs of a partial step function

A system is a function `step : σ → ε → Option σ`; `none` means that the event
is not enabled in the state. A run is a list of events, so a statement about
every list is a statement about every interleaving. `Guarded` restricts the
steps a run takes, `Always` speaks about every state it goes through.
-/

namespace Trace

variable {σ ε : Type} (step : σ → ε → Option σ)

def run : σ → List ε → Option σ
  | s, [] => some s
  | s, e :: es =>
    match step s e with
    | some s' => run s' es
    | none => none

/-- Every step the run takes meets `ok` in the state it is taken from. -/
def Guarded (ok : σ → ε → Prop) : σ → List ε → Prop
  | _, [] => True
  | s, e :: es => ∀ s', step s e = some s' → ok s e ∧ Guarded ok s' es

/-- Every state of the run meets `P`, the first and the last one included. -/
def Always (P : σ → Prop) : σ → List ε → Prop
  | s, [] => P s
  | s, e :: es => P s ∧ ∀ s', step s e = some s' → Always P s' es

instance decidableGuarded (ok : σ → ε → Prop) [∀ s e, Decidable (ok s e)] :
    ∀ (s : σ) (es : List ε), Decidable (Guarded step ok s es)
  | _, [] => isTrue trivial
  | s, e :: es =>
    match h : step s e with
    | none => isTrue fun s' hs => by rw [h] at hs; cases hs
    | some s' =>
      have : Decidable (Guarded step ok s' es) := decidableGuarded ok s' es
      decidable_of_iff (ok s e ∧ Guarded step ok s' es)
        ⟨fun hg t ht => by rw [h] at ht; cases ht; exact hg, fun hg => hg s' h⟩

theorem run_append : ∀ (s : σ) (es es' : List ε), run step s (es ++ es') = (run step s es).bind fun s' => run step s' es'
  | _, [], _ => rfl
  | s, e :: es, es' => by
    simp only [List.cons_append, run]
    cases step s e with
    | none => rfl
    | some s' => exact run_append s' es es'

theorem run_singleton {s s' : σ} {e : ε} (h : run step s [e] = some s') : step s e = some s' := by
  unfold run at h
  cases hs : step s e with
  | none =>
    rw [hs] at h
    cases h
  | some t =>
    rw [hs] at h
    cases h
    rfl

theorem Always.head {P : σ → Prop} {s : σ} : ∀ {es : List ε}, Always step P s es → P s
  | [], h => h
  | _ :: _, h => h.1

theorem Always.last {P : σ → Prop} {s s' : σ} : ∀ {es : List ε}, Always step P s es → run step s es = some s' → P s'
  | [], h, hr => by
    cases hr
    exact h
  | e :: es, h, hr => by
    unfold run at hr
    split at hr
    · rename_i t hs
      exact Always.last (h.2 t hs) hr
    · cases hr

theorem Always.mono {P Q : σ → Prop} (hpq : ∀ s, P s → Q s) :
    ∀ {s : σ} {es : List ε}, Always step P s es → Always step Q s es
  | _, [], h => hpq _ h
  | _, _ :: _, h => ⟨hpq _ h.1, fun s' hs => Always.mono hpq (h.2 s' hs)⟩

/-- What holds of a state for the steps that are possible in it. -/
theorem Always.guarded {P : σ → Prop} {ok : σ → ε → Prop} (hok : ∀ s e s', P s → step s e = some s' → ok s e) :
    ∀ {s : σ} {es : List ε}, Always step P s es → Guarded step ok s es
  | _, [], _ => trivial
  | s, e :: _, h => fun s' hs => ⟨hok s e s' h.1 hs, Always.guarded hok (h.2 s' hs)⟩

theorem guarded_of_forall {ok : σ → ε → Prop} :
    ∀ {s : σ} {es : List ε}, (∀ s, ∀ e ∈ es, ok s e) → Guarded step ok s es
  | _, [], _ => trivial
  | s, e :: _, h => fun _ _ =>
    ⟨h s e List.mem_cons_self, guarded_of_forall fun s e' he' => h s e' (List.mem_cons_of_mem _ he')⟩

/-! ## The invariant rules -/

theorem always_of_step {Inv : σ → Prop} (hstep : ∀ s e s', Inv s → step s e = some s' → Inv s') :
    ∀ {s : σ} {es : List ε}, Inv s → Always step Inv s es
  | _, [], hi => hi
  | s, e :: _, hi => ⟨hi, fun s' hs => always_of_step hstep (hstep s e s' hi hs)⟩

theorem always_of_guarded {ok : σ → ε → Prop} {Inv : σ → Prop}
    (hstep : ∀ s e s', Inv s → ok s e → step s e = some s' → Inv s') :
    ∀ {s : σ} {es : List ε}, Inv s → Guarded step ok s es → Always step Inv s es
  | _, [], hi, _ => hi
  | s, e :: _, hi, hg => ⟨hi, fun s' hs =>
      always_of_guarded hstep (hstep s e s' hi (hg s' hs).1 hs) (hg s' hs).2⟩

theorem guarded_iff {ok ok' : σ → ε → Prop} {admitted : ε → Prop} {Inv : σ → Prop}
    (hstep : ∀ s e s', Inv s → admitted e → step s e = some s' → Inv s')
    (hiff : ∀ s e, Inv s → admitted e → (ok s e ↔ ok' s e)) :
    ∀ {s : σ} {es : List ε}, Inv s → (∀ e ∈ es, admitted e) → (Guarded step ok s es ↔ Guarded step ok' s es)
  | _, [], _, _ => Iff.rfl
  | s, e :: es, hi, hes => by
    have he := hes e List.mem_cons_self
    refine forall_congr' fun s' => imp_congr_right fun hs => and_congr (hiff s e hi he) ?_
    exact guarded_iff hstep hiff (hstep s e s' hi he hs) fun e' h' => hes e' (List.mem_cons_of_mem _ h')

/-- Two conditions that say the same where the invariant holds, which the steps
that meet them keep. -/
theorem guarded_iff_of_keeps {ok ok' : σ → ε → Prop} {Inv : σ → Prop}
    (hstep : ∀ s e s', Inv s → ok s e → step s e = some s' → Inv s') (hiff : ∀ s e, Inv s → (ok s e ↔ ok' s e)) :
    ∀ {s : σ} {es : List ε}, Inv s → (Guarded step ok s es ↔ Guarded step ok' s es)
  | _, [], _ => Iff.rfl
  | s, e :: es, hi => by
    refine forall_congr' fun s' => imp_congr_right fun hs => ?_
    rw [← hiff s e hi]
    exact and_congr_right fun hok => guarded_iff_of_keeps hstep hiff (hstep s e s' hi hok hs)

/-- When the permitted steps keep `Inv`, `Inv` implies `P`, and a step that is
not permitted breaks `P`, then `P` holds along exactly the permitted runs. -/
theorem always_iff_guarded {ok : σ → ε → Prop} {Inv P : σ → Prop} (hP : ∀ s, Inv s → P s)
    (hstep : ∀ s e s', Inv s → ok s e → step s e = some s' → Inv s')
    (hbreak : ∀ s e s', Inv s → ¬ ok s e → step s e = some s' → ¬ P s') :
    ∀ {s : σ} {es : List ε}, Inv s → (Always step P s es ↔ Guarded step ok s es)
  | s, [], hi => ⟨fun _ => trivial, fun _ => hP s hi⟩
  | s, e :: es, hi => by
    constructor
    · intro h s' hs
      have hok : ok s e :=
        Classical.byContradiction fun hn => hbreak s e s' hi hn hs ((h.2 s' hs).head step)
      exact ⟨hok, (always_iff_guarded hP hstep hbreak (hstep s e s' hi hok hs)).mp (h.2 s' hs)⟩
    · intro h
      exact (always_of_guarded step hstep hi h).mono step hP

/-- A condition on the states as one on the steps. -/
theorem always_and_guarded_iff {ok : σ → ε → Prop} {P : σ → Prop} : ∀ {s : σ} {es : List ε}, P s →
    (Always step P s es ∧ Guarded step ok s es ↔ Guarded step (fun s e => (∀ s', step s e = some s' → P s') ∧ ok s e) s es)
  | _, [], hs => iff_of_true ⟨hs, trivial⟩ trivial
  | s, e :: es, hs => by
    constructor
    · rintro ⟨ha, hg⟩ s' hs'
      have hnext := ha.2 s' hs'
      exact ⟨⟨fun t ht => (ha.2 t ht).head step, (hg s' hs').1⟩,
        (always_and_guarded_iff (hnext.head step)).mp ⟨hnext, (hg s' hs').2⟩⟩
    · intro h
      have hnext : ∀ s', step s e = some s' → Always step P s' es ∧ Guarded step ok s' es := by
        intro s' hs'
        obtain ⟨⟨hP, -⟩, hrest⟩ := h s' hs'
        exact (always_and_guarded_iff (hP s' hs')).mpr hrest
      exact ⟨⟨hs, fun s' hs' => (hnext s' hs').1⟩, fun s' hs' => ⟨(h s' hs').1.2, (hnext s' hs').2⟩⟩

end Trace
