import Mathlib.Logic.Basic
import MexcApi.Loop

/-!
# Arithmetic that is checked

A computation with checks stops where a result is not a signed 64-bit integer.
`Checks` says when none of its checks fails, and that it is the exact one then.
A loop with checks stops at the first state in which its iteration is not safe.
-/

namespace Checked

open Loop

inductive Trap (ε : Type) where
  | overflow
  | raised (e : ε)

def InInt64 (n : Int) : Prop := -9223372036854775808 ≤ n ∧ n ≤ 9223372036854775807

instance (n : Int) : Decidable (InInt64 n) := inferInstanceAs (Decidable (_ ∧ _))

variable {ε α β σ ρ : Type}

def int64 (n : Int) : Except (Trap ε) Int := if InInt64 n then .ok n else .error .overflow

theorem int64_bind_congr {n : Int} {f g : Int → Except (Trap ε) α} (h : f n = g n) : int64 n >>= f = int64 n >>= g := by
  unfold int64
  by_cases hn : InInt64 n
  · rw [if_pos hn]
    exact h
  · rw [if_neg hn]
    rfl

/-- A computation without checks. -/
def raise : Except ε α → Except (Trap ε) α
  | .ok a => .ok a
  | .error e => .error (.raised e)

theorem raise_ne_overflow (x : Except ε α) : raise x ≠ .error .overflow := by
  cases x <;> simp [raise]

theorem raise_eq_ok {x : Except ε α} {a : α} (h : raise x = .ok a) : x = .ok a := by
  cases x with
  | error e => cases h
  | ok b =>
    cases h
    rfl

structure Checks (checked : Except (Trap ε) α) (x : Except ε α) (safe : Prop) : Prop where
  eq : safe → checked = raise x
  overflow : ¬ safe → checked = .error .overflow

namespace Checks

variable {c : Except (Trap ε) α} {x : Except ε α} {safe : Prop} {f' : α → Except (Trap ε) β} {f : α → Except ε β}
  {fsafe : α → Prop}

theorem ne_overflow_iff (h : Checks c x safe) : c ≠ .error .overflow ↔ safe := by
  by_cases hs : safe
  · simp [hs, h.eq hs, raise_ne_overflow]
  · simp [hs, h.overflow hs]

theorem congr {safe' : Prop} (h : Checks c x safe) (hs : safe ↔ safe') : Checks c x safe' :=
  ⟨fun h' => h.eq (hs.mpr h'), fun h' => h.overflow fun hsafe => h' (hs.mp hsafe)⟩

theorem ok (h : Checks c x safe) {a : α} (ha : c = .ok a) : x = .ok a := by
  have hsafe : safe := h.ne_overflow_iff.mp (by simp [ha])
  rw [h.eq hsafe] at ha
  exact raise_eq_ok ha

theorem of_eq (h : c = raise x) : Checks c x True := ⟨fun _ => h, fun hno => absurd trivial hno⟩

theorem pure (a : α) : Checks (Pure.pure a : Except (Trap ε) α) (Pure.pure a) True := of_eq rfl

theorem bind (h : Checks c x safe) (hf : ∀ a, x = .ok a → Checks (f' a) (f a) (fsafe a)) :
    Checks (c >>= f') (x >>= f) (safe ∧ ∀ a, x = .ok a → fsafe a) := by
  by_cases hs : safe
  · rw [h.eq hs]
    cases x with
    | error e => exact ⟨fun _ => rfl, fun hno => absurd ⟨hs, nofun⟩ hno⟩
    | ok a =>
      have ha := hf a rfl
      refine ⟨fun hall => ha.eq (hall.2 a rfl), fun hno => ha.overflow fun hsafe => hno ⟨hs, ?_⟩⟩
      intro b hb
      cases hb
      exact hsafe
  · rw [h.overflow hs]
    exact ⟨fun hall => absurd hall.1 hs, fun _ => rfl⟩

theorem raise_bind (hf : ∀ a, x = .ok a → Checks (f' a) (f a) (fsafe a)) :
    Checks (raise x >>= f') (x >>= f) (∀ a, x = .ok a → fsafe a) :=
  ((of_eq rfl).bind hf).congr (by simp)

theorem int64_bind {n : Int} {g : Int → Except (Trap ε) α} (h : Checks (g n) x safe) :
    Checks (int64 n >>= g) x (InInt64 n ∧ safe) := by
  unfold int64
  by_cases hn : InInt64 n
  · simp only [hn, if_true, true_and]
    exact h
  · rw [if_neg hn]
    exact ⟨fun hall => absurd hall.1 hn, fun _ => rfl⟩

theorem ite {p : Prop} [Decidable p] {c' : Except (Trap ε) α} {x' : Except ε α} {safe' : Prop}
    (h : p → Checks c x safe) (h' : ¬ p → Checks c' x' safe') :
    Checks (if p then c else c') (if p then x else x') ((p → safe) ∧ (¬ p → safe')) := by
  by_cases hp : p
  · simp only [hp, if_true]
    exact (h hp).congr (by simp)
  · simp only [hp, if_false]
    exact (h' hp).congr (by simp)

/-- In a traversal, an element is checked if nothing is raised before it. -/
theorem mapM (h : ∀ a, Checks (f' a) (f a) (fsafe a)) : ∀ l : List α, Checks (l.mapM f') (l.mapM f)
    (∀ before a after, l = before ++ a :: after → (∀ b ∈ before, ∃ y, f b = .ok y) → fsafe a)
  | [] => (pure []).congr (by simp)
  | a :: l => by
    rw [List.mapM_cons, List.mapM_cons]
    refine ((h a).bind fun y _ => (mapM h l).bind fun ys _ => pure (y :: ys)).congr ?_
    constructor
    · rintro ⟨ha, hrest⟩ before b after hsplit hbefore
      cases before with
      | nil =>
        cases hsplit
        exact ha
      | cons a' before =>
        cases hsplit
        obtain ⟨y, hy⟩ := hbefore a (by simp)
        exact (hrest y hy).1 before b after rfl fun b' hb' => hbefore b' (by simp [hb'])
    · intro hall
      refine ⟨hall [] a l rfl nofun, fun y hy => ⟨fun before b after hsplit hbefore => ?_, fun _ _ => trivial⟩⟩
      refine hall (a :: before) b after (by simp [hsplit]) fun b' hb' => ?_
      rcases List.mem_cons.mp hb' with rfl | hb'
      · exact ⟨y, hy⟩
      · exact hbefore b' hb'

end Checks

/-! ## What a checked computation returns -/

theorem ok_of_bind {x : Except (Trap ε) α} {f : α → Except (Trap ε) β} {b : β} (h : x >>= f = .ok b) :
    ∃ a, x = .ok a ∧ f a = .ok b := by
  cases x with
  | error e => cases h
  | ok a => exact ⟨a, rfl, h⟩

theorem ok_of_raise_bind {x : Except ε α} {f : α → Except (Trap ε) β} {b : β} (h : raise x >>= f = .ok b) :
    ∃ a, x = .ok a ∧ f a = .ok b := by
  cases x with
  | error e => cases h
  | ok a => exact ⟨a, rfl, h⟩

theorem ok_of_int64_bind {n : Int} {f : Int → Except (Trap ε) β} {b : β} (h : int64 n >>= f = .ok b) :
    InInt64 n ∧ f n = .ok b := by
  unfold int64 at h
  by_cases hn : InInt64 n
  · rw [if_pos hn] at h
    exact ⟨hn, h⟩
  · rw [if_neg hn] at h
    cases h

theorem ok_of_mapM {f : α → Except (Trap ε) β} {P : β → Prop} (hf : ∀ a b, f a = .ok b → P b) :
    ∀ {l : List α} {bs : List β}, l.mapM f = .ok bs → ∀ b ∈ bs, P b
  | [], _, h => by
    cases h
    simp
  | a :: l, bs, h => by
    rw [List.mapM_cons] at h
    obtain ⟨b, hb, h⟩ := ok_of_bind h
    obtain ⟨bs', hbs', h⟩ := ok_of_bind h
    cases h
    simp only [List.mem_cons, forall_eq_or_imp]
    exact ⟨hf a b hb, ok_of_mapM hf hbs'⟩

/-! ## Loops -/

section
variable {checked : σ → Except (Trap ε) (Flow σ ρ)} {body : σ → Except ε (Flow σ ρ)} {safe : σ → Prop}
  (h : ∀ s, Checks (checked s) (body s) (safe s))

include h

theorem run_eq : ∀ (n : Nat) {s : σ}, (∀ t, Reaches body s t → safe t) →
    run checked n s = (run body n s).map raise
  | 0, _, _ => rfl
  | n + 1, s, hs => by
    unfold run
    rw [(h s).eq (hs s .refl)]
    cases hb : body s with
    | error e => rfl
    | ok flow =>
      cases flow with
      | stop r => rfl
      | next s' => exact run_eq n fun t ht => hs t (ht.head body hb)

theorem reaches_of_checked {s t : σ} (ht : Reaches checked s t) : Reaches body s t := by
  induction ht with
  | refl => exact .refl
  | next _ hnext ih => exact .next ih ((h _).ok hnext)

theorem run_overflow {s t : σ} (ht : Reaches body s t) (hbad : ¬ safe t) :
    ∃ n, run checked n s = some (.error .overflow) := by
  have key : ∀ {t : σ}, Reaches body s t → (∃ n, run checked n t = some (.error .overflow)) →
      ∃ n, run checked n s = some (.error .overflow) := by
    intro t ht
    induction ht with
    | refl => exact id
    | @next t t' _ hnext ih =>
      rintro ⟨n, hn⟩
      refine ih ?_
      by_cases hsafe : safe t
      · refine ⟨n + 1, ?_⟩
        rw [run, (h t).eq hsafe, hnext]
        exact hn
      · exact ⟨1, by rw [run, (h t).overflow hsafe]⟩
  exact key ht ⟨1, by rw [run, (h t).overflow hbad]⟩

/-- The loop never overflows exactly when every state it gets to is safe. -/
theorem runFrom_safe_iff {start : Except (Trap ε) σ} {x : Except ε σ} {begins : Prop} (hstart : Checks start x begins) :
    (∀ n, runFrom checked n start ≠ some (.error .overflow)) ↔
      begins ∧ ∀ s, x = .ok s → ∀ t, Reaches body s t → safe t := by
  by_cases hb : begins
  · rw [hstart.eq hb]
    cases x with
    | error e => simp [hb, raise, runFrom]
    | ok s =>
      simp only [hb, true_and, raise, runFrom, Except.ok.injEq, forall_eq']
      constructor
      · intro hnever t ht
        by_cases hsafe : safe t
        · exact hsafe
        · obtain ⟨n, hn⟩ := run_overflow h ht hsafe
          exact absurd hn (hnever n)
      · intro hall n hn
        rw [run_eq h n hall] at hn
        cases hr : run body n s with
        | none =>
          rw [hr] at hn
          cases hn
        | some r =>
          rw [hr] at hn
          exact raise_ne_overflow r (Option.some.inj hn)
  · rw [hstart.overflow hb]
    simp [hb, runFrom]

/-- A loop that never overflows is the one without checks. -/
theorem runFrom_eq {start : Except (Trap ε) σ} {x : Except ε σ} {begins : Prop} (hstart : Checks start x begins)
    (hnever : ∀ n, runFrom checked n start ≠ some (.error .overflow)) (n : Nat) :
    runFrom checked n start = (runFrom body n x).map raise := by
  obtain ⟨hb, hsafe⟩ := (runFrom_safe_iff h hstart).mp hnever
  rw [hstart.eq hb]
  cases x with
  | error e => rfl
  | ok s => exact run_eq h n (hsafe s rfl)

end

theorem never_of_runFrom {checked : σ → Except (Trap ε) (Flow σ ρ)} {start : Except (Trap ε) σ}
    {r : Except (Trap ε) ρ} {n : Nat} (h : runFrom checked n start = some r) (hr : r ≠ .error .overflow) (m : Nat) :
    runFrom checked m start ≠ some (.error .overflow) :=
  fun hm => hr (runFrom_unique checked h hm)

/-- A computation with fuel that never overflows, and what it returns if it does. -/
structure Meets (checked : Nat → Option (Except (Trap ε) ρ)) (post : ρ → Prop) : Prop where
  defined : ∀ n, checked n ≠ some (.error .overflow)
  returns : ∀ n r, checked n = some (.ok r) → post r

theorem Meets.of_raise {checked : Nat → Option (Except (Trap ε) ρ)} {body : Nat → Option (Except ε ρ)} {post : ρ → Prop}
    (hnever : ∀ n, checked n ≠ some (.error .overflow)) (heq : ∀ n, checked n = (body n).map raise)
    (hpost : ∀ n r, body n = some (.ok r) → post r) : Meets checked post := by
  refine ⟨hnever, fun n r hr => hpost n r ?_⟩
  rw [heq] at hr
  cases hx : body n with
  | none =>
    rw [hx] at hr
    cases hr
  | some x =>
    rw [hx] at hr
    rw [raise_eq_ok (Option.some.inj hr)]

end Checked
