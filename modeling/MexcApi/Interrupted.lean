import MexcApi.Backward

/-!
# Downloads that are broken off

A request that fails ends a download; what was handed on before stays with
whoever got it. `Path` is the part of a `Walk` up to a request. Another
download, perhaps from another server, may go on from there: the two together
are one walk, over the answers of both.
-/

namespace Loop

variable {σ ρ ε ε' : Type}

theorem run_mapError (body : σ → Except ε (Flow σ ρ)) {g : σ → ε → ε'} {f : ε' → ε} (hf : ∀ s e, f (g s e) = e) :
    ∀ (n : Nat) (s : σ), (run (fun s => (body s).mapError (g s)) n s).map (Except.mapError f) = run body n s
  | 0, _ => rfl
  | n + 1, s => by
    unfold run
    cases body s with
    | error e => exact congrArg (fun e => some (Except.error e)) (hf s e)
    | ok flow =>
      cases flow with
      | stop r => rfl
      | next s' => exact run_mapError body hf n s'

end Loop

namespace Backward

open Windows

variable {α ε : Type}

/-- What is left of a download that threw. -/
structure Broken (ε α : Type) where
  error : ε
  written : List (List α)

/-! ## Requests that may fail -/

section
variable (fetch : Nat → Int → Except ε (List α)) (next : α → Option Int)

def brokenAsk (n : Nat) (written : List (List α)) (stop : Option Int) : Except (Broken ε α) (State α) :=
  (ask fetch n written stop).mapError fun error => { error, written }

def brokenStep (s : State α) : Except (Broken ε α) (Loop.Flow (State α) (State α)) :=
  (step fetch next s).mapError fun error => { error, written := s.written ++ [s.answer] }

/-- The batches that are handed on from request `n` to the one that comes next. -/
inductive Path : Nat → Option Int → List (List α) → Nat → Option Int → Prop
  | here {n : Nat} {first : Option Int} : Path n first [] n first
  | more {n m : Nat} {stop : Int} {x : α} {xs : List α} {batches : List (List α)} {last : Option Int} :
    fetch n stop = .ok (x :: xs) → Path (n + 1) (next x) batches m last →
    Path n (some stop) ((x :: xs) :: batches) m last

variable {fetch}

section
variable {n : Nat} {stop : Int} (written : List (List α))

theorem brokenRun_error {e : ε} (h : fetch n stop = .error e) (fuel : Nat) :
    Loop.runFrom (brokenStep fetch next) fuel (brokenAsk fetch n written (some stop)) =
      some (.error { error := e, written }) := by
  simp only [brokenAsk, ask, h]
  rfl

theorem brokenRun_last (h : fetch n stop = .ok []) (fuel : Nat) :
    Loop.runFrom (brokenStep fetch next) (fuel + 1) (brokenAsk fetch n written (some stop)) =
      some (.ok { answer := [], requests := n + 1, written }) := by
  simp only [brokenAsk, ask, h]
  rfl

theorem brokenRun_more {x : α} {xs : List α} (h : fetch n stop = .ok (x :: xs)) (fuel : Nat) :
    Loop.runFrom (brokenStep fetch next) (fuel + 1) (brokenAsk fetch n written (some stop)) =
      Loop.runFrom (brokenStep fetch next) fuel (brokenAsk fetch (n + 1) (written ++ [x :: xs]) (next x)) := by
  have hask : brokenAsk fetch n written (some stop) = .ok { answer := x :: xs, requests := n + 1, written } := by
    simp only [brokenAsk, ask, h]
    rfl
  have hstep : step fetch next { answer := x :: xs, requests := n + 1, written } =
      (ask fetch (n + 1) (written ++ [x :: xs]) (next x)).map .next := rfl
  rw [hask, Loop.runFrom, Loop.run, brokenStep, brokenAsk, hstep]
  cases ask fetch (n + 1) (written ++ [x :: xs]) (next x) with
  | error e => rfl
  | ok s => rfl

end

theorem path_of_broken : ∀ {fuel n : Nat} {written : List (List α)} {first : Option Int} {b : Broken ε α},
    Loop.runFrom (brokenStep fetch next) fuel (brokenAsk fetch n written first) = some (.error b) →
    ∃ batches m stop, Path fetch next n first batches m (some stop) ∧ fetch m stop = .error b.error ∧
      b.written = written ++ batches
  | 0, n, written, none, b, h => by cases h
  | fuel + 1, n, written, none, b, h => by cases h
  | fuel, n, written, some stop, b, h => by
    cases hfetch : fetch n stop with
    | error e =>
      rw [brokenRun_error next written hfetch] at h
      cases h
      exact ⟨[], n, stop, .here, hfetch, (List.append_nil _).symm⟩
    | ok answer =>
      cases fuel with
      | zero =>
        simp only [brokenAsk, ask, hfetch] at h
        cases h
      | succ fuel =>
        cases answer with
        | nil =>
          rw [brokenRun_last next written hfetch] at h
          cases h
        | cons x xs =>
          rw [brokenRun_more next written hfetch] at h
          obtain ⟨batches, m, stop', hpath, herror, hwritten⟩ := path_of_broken h
          refine ⟨(x :: xs) :: batches, m, stop', .more hfetch hpath, herror, ?_⟩
          rw [hwritten, List.append_assoc, List.singleton_append]

end

/-! ## One walk -/

section
variable {fetch : Nat → Int → Except ε (List α)} {next : α → Option Int}

theorem Path.requests_eq {n m : Nat} {first last : Option Int} {batches : List (List α)}
    (h : Path fetch next n first batches m last) : m = n + batches.length := by
  induction h with
  | here => rfl
  | more _ _ ih =>
    rw [ih, List.length_cons]
    omega

theorem Path.walk {n m : Nat} {first last : Option Int} {batches rest : List (List α)}
    (h : Path fetch next n first batches m last) (hrest : Walk fetch next m last rest) :
    Walk fetch next n first (batches ++ rest) := by
  induction h with
  | here => exact hrest
  | more hfetch _ ih => exact .more hfetch (ih hrest)

theorem Path.batch_ne_nil {n m : Nat} {first last : Option Int} {batches : List (List α)}
    (h : Path fetch next n first batches m last) {b : List α} (hb : b ∈ batches) : b ≠ [] := by
  induction h with
  | here => cases hb
  | more _ _ ih =>
    rcases List.mem_cons.mp hb with rfl | hb
    · exact List.cons_ne_nil _ _
    · exact ih hb

theorem Path.asked {n m : Nat} {first : Option Int} {stop : Int} {batches : List (List α)}
    (h : Path fetch next n first batches m (some stop)) : Asked fetch next n first m stop := by
  generalize hlast : some stop = last at h
  induction h with
  | here =>
    cases hlast
    exact .here
  | more hfetch _ ih => exact .later hfetch (ih hlast)

theorem Path.last_eq {n m : Nat} {first last : Option Int} {batches : List (List α)}
    (h : Path fetch next n first batches m last) :
    (batches = [] → last = first) ∧ ∀ before x xs, batches = before ++ [x :: xs] → last = next x := by
  induction h with
  | here =>
    refine ⟨fun _ => rfl, ?_⟩
    intro before x xs h
    exact absurd h (by simp)
  | @more _ _ _ y ys batches last _ _ ih =>
    refine ⟨fun h => (List.cons_ne_nil _ _ h).elim, ?_⟩
    intro before x xs h
    cases before with
    | nil =>
      obtain ⟨hy, hnil⟩ := List.cons.inj h
      cases hy
      exact ih.1 hnil
    | cons b before => exact ih.2 before x xs (List.cons.inj h).2

/-- The answers of the first server to the first `k` requests, then those of
the second one, from its first. -/
def switch (k : Nat) (fetch fetch' : Nat → Int → Except ε (List α)) (n : Nat) : Int → Except ε (List α) :=
  if n < k then fetch n else fetch' (n - k)

variable {fetch' : Nat → Int → Except ε (List α)} {k : Nat}

theorem Path.switch {n m : Nat} {first last : Option Int} {batches : List (List α)}
    (h : Path fetch next n first batches m last) (hk : m ≤ k) :
    Path (switch k fetch fetch') next n first batches m last := by
  induction h with
  | here => exact .here
  | @more n m _ _ _ _ _ hfetch hpath ih =>
    refine .more ?_ (ih hk)
    have := hpath.requests_eq
    rw [Backward.switch, if_pos (by omega)]
    exact hfetch

theorem switch_later (n : Nat) : switch k fetch fetch' (n + k) = fetch' n := by
  rw [switch, if_neg (by omega), Nat.add_sub_cancel]

theorem Walk.switch {n : Nat} {first : Option Int} {batches : List (List α)} (h : Walk fetch' next n first batches) :
    Walk (switch k fetch fetch') next (n + k) first batches := by
  induction h with
  | done => exact .done
  | last hfetch => exact .last (by rw [switch_later]; exact hfetch)
  | @more n _ _ _ _ hfetch _ ih =>
    refine .more (by rw [switch_later]; exact hfetch) ?_
    rw [show n + 1 + k = n + k + 1 by omega] at ih
    exact ih

/-- What a broken download handed on and what another one hands on that begins
with the request that failed, put together. -/
theorem Path.resume {k : Nat} {first last : Option Int} {batches rest : List (List α)}
    (h : Path fetch next 0 first batches k last) (hrest : Walk fetch' next 0 last rest) :
    Walk (Backward.switch k fetch fetch') next 0 first (batches ++ rest) := by
  have hwalk : Walk (Backward.switch k fetch fetch') next (0 + k) last rest := hrest.switch
  rw [Nat.zero_add] at hwalk
  exact (h.switch (Nat.le_refl k)).walk hwalk

theorem switch_forall {good : Int → List α → Prop} (h : ∀ n stop xs, fetch n stop = .ok xs → good stop xs)
    (h' : ∀ n stop xs, fetch' n stop = .ok xs → good stop xs) :
    ∀ n stop xs, switch k fetch fetch' n stop = .ok xs → good stop xs := by
  intro n stop xs hxs
  unfold switch at hxs
  split at hxs
  · exact h n stop xs hxs
  · exact h' _ stop xs hxs

end

/-! ## A series, from its end -/

section
variable {fetch : Nat → Int → Except ε (List α)} {next : α → Option Int} (t : α → Int) (lo : Int) (series : List α)

/-- What a request may ask for. -/
def asked : Option Int → List α
  | none => []
  | some stop => inRange t lo stop series

/-- When an answer is the end of what is asked for, and is empty only when that
is, nothing is left out. -/
theorem Walk.complete (hs : Ascending t series)
    (hnext : ∀ x ∈ series, asked t lo series (next x) = inRange t lo (t x - 1) series)
    (hanswer : ∀ n stop xs, fetch n stop = .ok xs →
      xs <:+ inRange t lo stop series ∧ (xs = [] → inRange t lo stop series = []))
    {n : Nat} {first : Option Int} {batches : List (List α)} (h : Walk fetch next n first batches) :
    batches.reverse.flatten = asked t lo series first := by
  induction h with
  | done => rfl
  | last hfetch => exact ((hanswer _ _ _ hfetch).2 rfl).symm
  | @more n stop x xs batches hfetch _ ih =>
    obtain ⟨pre, hpre⟩ := (hanswer _ _ _ hfetch).1
    have hx : x ∈ inRange t lo stop series := by
      rw [← hpre]
      simp
    obtain ⟨hmem, -, hle⟩ := (mem_inRange t).mp hx
    -- what comes before the oldest entry of the answer
    have hbefore : inRange t lo (t x - 1) series = pre := by
      have hrange := hs.inRange t lo stop
      rw [← hpre] at hrange
      rw [inRange_before t hs hpre.symm (le_refl lo) (show t x - 1 < t x by omega)]
      apply inRange_eq_self
      intro y hy
      have hy' : y ∈ inRange t lo stop series := by
        rw [← hpre]
        exact List.mem_append_left _ hy
      have hlt := hrange.lt t hy (show x ∈ x :: xs from List.mem_cons_self)
      have := ((mem_inRange t).mp hy').2.1
      omega
    rw [List.reverse_cons, List.flatten_append, List.flatten_singleton, ih, hnext x hmem, hbefore]
    exact hpre

end

end Backward
