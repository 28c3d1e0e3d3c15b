import Mathlib.Logic.Nontrivial.Defs

/-!
# Loops with an exit and exceptions

One iteration of a loop either goes on with a new state, leaves the loop with
a result, or throws. `run` iterates with fuel; `Returns` says that some amount
of fuel is enough, and the result does not depend on how much is given.
-/

namespace Loop

/-- How an iteration ends: go on with a state, or leave with a result. -/
inductive Flow (σ ρ : Type) where
  | next (s : σ)
  | stop (r : ρ)

variable {σ ρ ε : Type} (body : σ → Except ε (Flow σ ρ))

def Flow.map {σ' ρ' : Type} (f : σ → σ') (g : ρ → ρ') : Flow σ ρ → Flow σ' ρ'
  | .next s => .next (f s)
  | .stop r => .stop (g r)

def run : Nat → σ → Option (Except ε ρ)
  | 0, _ => none
  | n + 1, s =>
    match body s with
    | .ok (.next s') => run n s'
    | .ok (.stop r) => some (.ok r)
    | .error e => some (.error e)

def Returns (s : σ) (r : Except ε ρ) : Prop :=
  ∃ n, run body n s = some r

theorem Returns.stop {s : σ} {r : ρ} (h : body s = .ok (.stop r)) : Returns body s (.ok r) :=
  ⟨1, by simp [run, h]⟩

theorem Returns.next {s s' : σ} {r : Except ε ρ} (h : body s = .ok (.next s')) (hr : Returns body s' r) :
    Returns body s r := by
  obtain ⟨n, hn⟩ := hr
  exact ⟨n + 1, by simp [run, h, hn]⟩

theorem Returns.inv_next {s s' : σ} {r : Except ε ρ} (h : body s = .ok (.next s')) (hr : Returns body s r) :
    Returns body s' r := by
  obtain ⟨n, hn⟩ := hr
  cases n with
  | zero => cases hn
  | succ n => exact ⟨n, by simpa [run, h] using hn⟩

theorem Returns.unique {s : σ} {r r' : Except ε ρ} (h : Returns body s r) (h' : Returns body s r') : r = r' := by
  obtain ⟨n, hn⟩ := h
  induction n generalizing s with
  | zero => cases hn
  | succ n ih =>
    obtain ⟨m, hm⟩ := h'
    cases m with
    | zero => cases hm
    | succ m =>
      unfold run at hn hm
      cases hb : body s with
      | error e =>
        rw [hb] at hn hm
        exact Option.some.inj (hn.symm.trans hm)
      | ok flow =>
        cases flow with
        | stop v =>
          rw [hb] at hn hm
          exact Option.some.inj (hn.symm.trans hm)
        | next s' =>
          rw [hb] at hn hm
          exact ih ⟨m, hm⟩ hn

/-! ## The loop rules -/

theorem run_inv {Inv : σ → Prop} {Post : ρ → Prop} (hnext : ∀ s s', Inv s → body s = .ok (.next s') → Inv s')
    (hstop : ∀ s r, Inv s → body s = .ok (.stop r) → Post r) :
    ∀ {n : Nat} {s : σ} {r : ρ}, Inv s → run body n s = some (.ok r) → Post r
  | 0, _, _, _, h => by cases h
  | n + 1, s, r, hi, h => by
    unfold run at h
    split at h
    · rename_i s' hs
      exact run_inv hnext hstop (hnext s s' hi hs) h
    · rename_i r' hs
      cases h
      exact hstop s r hi hs
    · cases h

/-- A loop whose iterations are those of another one, seen through `f`. -/
theorem run_map {σ' ρ' : Type} {body' : σ' → Except ε (Flow σ' ρ')} (f : σ → σ') (g : ρ → ρ') {Inv : σ → Prop}
    (hnext : ∀ s s', Inv s → body s = .ok (.next s') → Inv s')
    (hbody : ∀ s, Inv s → body' (f s) = (body s).map (Flow.map f g)) :
    ∀ (n : Nat) {s : σ}, Inv s → run body' n (f s) = (run body n s).map (Except.map g)
  | 0, _, _ => rfl
  | n + 1, s, hi => by
    have hs := hbody s hi
    unfold run
    cases hb : body s with
    | error e =>
      rw [hb] at hs
      rw [hs]
      rfl
    | ok flow =>
      rw [hb] at hs
      cases flow with
      | stop r =>
        rw [hs]
        rfl
      | next s' =>
        rw [hs]
        exact run_map f g hnext hbody n (hnext s s' hi hb)

theorem run_spec {Inv : σ → Prop} {Post : ρ → Prop}
    (hbody : ∀ s, Inv s → (∃ s', body s = .ok (.next s') ∧ Inv s') ∨ ∃ r, body s = .ok (.stop r) ∧ Post r) :
    ∀ {n : Nat} {s : σ} {r : Except ε ρ}, Inv s → run body n s = some r → ∃ v, r = .ok v ∧ Post v
  | 0, _, _, _, h => by cases h
  | n + 1, s, r, hi, h => by
    unfold run at h
    rcases hbody s hi with ⟨s', hs, hi'⟩ | ⟨v, hs, hp⟩
    · rw [hs] at h
      exact run_spec hbody hi' h
    · rw [hs] at h
      cases h
      exact ⟨v, rfl, hp⟩

/-- The states in which an iteration begins. -/
inductive Reaches (s : σ) : σ → Prop
  | refl : Reaches s s
  | next {t t' : σ} : Reaches s t → body t = .ok (.next t') → Reaches s t'

theorem Reaches.head {s s' t : σ} (hs : body s = .ok (.next s')) (h : Reaches body s' t) : Reaches body s t := by
  induction h with
  | refl => exact .next .refl hs
  | next _ ht ih => exact .next ih ht

/-- A loop that does the same wherever the other one gets to. -/
theorem run_congr {body' : σ → Except ε (Flow σ ρ)} :
    ∀ (n : Nat) {s : σ}, (∀ t, Reaches body s t → body' t = body t) → run body' n s = run body n s
  | 0, _, _ => rfl
  | n + 1, s, h => by
    unfold run
    rw [h s .refl]
    cases hb : body s with
    | error e => rfl
    | ok flow =>
      cases flow with
      | stop r => rfl
      | next s' => exact run_congr n fun t ht => h t (ht.head body hb)

theorem ends_of_variant {Inv : σ → Prop} (μ : σ → Nat)
    (hnext : ∀ s s', Inv s → body s = .ok (.next s') → Inv s' ∧ μ s' < μ s) :
    ∀ {s : σ}, Inv s → ∃ r, Returns body s r := by
  have key : ∀ n s, Inv s → μ s < n → ∃ r, Returns body s r := by
    intro n
    induction n with
    | zero => intro s _ h; omega
    | succ n ih =>
      intro s hi hn
      cases hb : body s with
      | error e => exact ⟨.error e, 1, by simp [run, hb]⟩
      | ok flow =>
        cases flow with
        | stop r => exact ⟨.ok r, .stop body hb⟩
        | next s' =>
          obtain ⟨hi', hlt⟩ := hnext s s' hi hb
          obtain ⟨r, hr⟩ := ih s' hi' (by omega)
          exact ⟨r, hr.next body hb⟩
  intro s hi
  exact key (μ s + 1) s hi (by omega)

/-- With an invariant under which no iteration throws and a measure that each
iteration decreases, the loop ends, and does so in a state the exit condition
describes. -/
theorem returns_of_variant {Inv : σ → Prop} {Post : ρ → Prop} (μ : σ → Nat)
    (hbody : ∀ s, Inv s → (∃ s', body s = .ok (.next s') ∧ Inv s' ∧ μ s' < μ s) ∨
      ∃ r, body s = .ok (.stop r) ∧ Post r) :
    ∀ {s : σ}, Inv s → ∃ r, Returns body s (.ok r) ∧ Post r := by
  intro s hi
  have hnext : ∀ s s', Inv s → body s = .ok (.next s') → Inv s' ∧ μ s' < μ s := by
    intro s s' hi hs
    rcases hbody s hi with ⟨t, ht, hdec⟩ | ⟨r, hr, -⟩
    · rw [ht] at hs
      cases hs
      exact hdec
    · rw [hr] at hs
      cases hs
  obtain ⟨r, n, hr⟩ := ends_of_variant body μ hnext hi
  have hspec : ∀ s, Inv s → (∃ s', body s = .ok (.next s') ∧ Inv s') ∨ ∃ r, body s = .ok (.stop r) ∧ Post r :=
    fun s hi => (hbody s hi).imp_left fun ⟨s', hs, hi', _⟩ => ⟨s', hs, hi'⟩
  obtain ⟨v, rfl, hpost⟩ := run_spec body hspec hi hr
  exact ⟨v, ⟨n, hr⟩, hpost⟩

/-! ## A loop that asks -/

/-- `raising e` is the loop when one of the questions it asks raises `e`. If it
always ends with what is raised, then it gets to that question, and ends with
`f` if `f` is what the answer makes of it. -/
theorem returns_of_raising [Nontrivial ε] {body : σ → Except ε (Flow σ ρ)} {raising : ε → σ → Except ε (Flow σ ρ)}
    {f : ε} (hbody : ∀ s, (∀ e, raising e s = body s) ∨ (∀ e, raising e s = .error e) ∧ body s = .error f) {s : σ}
    (h : ∀ e, Returns (raising e) s (.error e)) : Returns body s (.error f) := by
  have key : ∀ n s e, run (raising e) n s = some (.error e) → (∀ e, Returns (raising e) s (.error e)) →
      Returns body s (.error f) := by
    intro n
    induction n with
    | zero => intro s e hn; cases hn
    | succ n ih =>
      intro s e hn hs
      rcases hbody s with hsame | ⟨-, hf⟩
      · cases hb : body s with
        | error g =>
          -- the loop would end with the same error whatever is raised
          obtain ⟨e, he⟩ := exists_ne g
          have hstop : Returns (raising e) s (.error g) := ⟨1, by simp [run, hsame, hb]⟩
          exact absurd (Except.error.inj (Returns.unique _ (hs e) hstop)) he
        | ok flow =>
          cases flow with
          | stop r =>
            have hstop : Returns (raising e) s (.ok r) := .stop _ (by rw [hsame, hb])
            cases Returns.unique _ (hs e) hstop
          | next s' =>
            have hnext : ∀ e, raising e s = .ok (.next s') := fun e => by rw [hsame, hb]
            rw [run, hnext] at hn
            exact (ih s' e hn fun e => (hs e).inv_next _ (hnext e)).next body hb
      · exact ⟨1, by simp [run, hf]⟩
  obtain ⟨a, -, -⟩ := exists_pair_ne ε
  obtain ⟨n, hn⟩ := h a
  exact key n s a hn h

theorem map_output {β τ : Type} {r : Option (Except ε ρ)} {output : ρ → β} {view : ρ → τ} {outputOf : τ → β}
    (h : ∀ v, r = some (.ok v) → output v = outputOf (view v)) :
    r.map (Except.map output) = (r.map (Except.map view)).map (Except.map outputOf) := by
  cases r with
  | none => rfl
  | some r =>
    cases r with
    | error e => rfl
    | ok v => exact congrArg (fun w => some (Except.ok w)) (h v rfl)

/-- The loop after what computes its first state. -/
def runFrom (n : Nat) : Except ε σ → Option (Except ε ρ)
  | .ok s => run body n s
  | .error e => some (.error e)

theorem runFrom_unique {n m : Nat} {start : Except ε σ} {r r' : Except ε ρ} (h : runFrom body n start = some r)
    (h' : runFrom body m start = some r') : r = r' := by
  cases start with
  | error e => exact Option.some.inj (h.symm.trans h')
  | ok s => exact Returns.unique body ⟨n, h⟩ ⟨m, h'⟩

theorem runFrom_of_raising [Nontrivial ε] {body : σ → Except ε (Flow σ ρ)} {raising : ε → σ → Except ε (Flow σ ρ)}
    {start : Except ε σ} {raisingStart : ε → Except ε σ} {f : ε}
    (hstart : (∀ e, raisingStart e = start) ∨ start = .error f)
    (hbody : ∀ s, (∀ e, raising e s = body s) ∨ (∀ e, raising e s = .error e) ∧ body s = .error f)
    (h : ∀ e, ∃ n, runFrom (raising e) n (raisingStart e) = some (.error e)) :
    ∃ n, runFrom body n start = some (.error f) := by
  rcases hstart with hsame | rfl
  · simp only [hsame] at h
    cases start with
    | error g =>
      obtain ⟨e, he⟩ := exists_ne g
      obtain ⟨n, hn⟩ := h e
      cases hn
      exact absurd rfl he
    | ok s => exact returns_of_raising hbody h
  · exact ⟨0, rfl⟩

end Loop
