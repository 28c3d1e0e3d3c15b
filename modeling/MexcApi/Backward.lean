import MexcApi.Loop
import MexcApi.Windows

/-!
# Downloads that go back in time

Each request asks for what comes up to a time. The oldest entry of the answer
tells up to which time to ask next, or that nothing is left; an empty answer
ends the download as well. `Walk` is what a download hands on, `Asked` are the
requests it makes.
-/

namespace Backward

open Windows

variable {α ε : Type}

structure State (α : Type) where
  answer : List α
  requests : Nat
  written : List (List α)

section
variable (fetch : Nat → Int → Except ε (List α)) (next : α → Option Int)

def ask (n : Nat) (written : List (List α)) : Option Int → Except ε (State α)
  | none => .ok { answer := [], requests := n, written }
  | some stop => do
    let answer ← fetch n stop
    return { answer, requests := n + 1, written }

def step (s : State α) : Except ε (Loop.Flow (State α) (State α)) :=
  match s.answer with
  | [] => .ok (.stop s)
  | oldest :: _ => (ask fetch s.requests (s.written ++ [s.answer]) (next oldest)).map .next

def download (first : Option Int) (fuel : Nat) : Option (Except ε (State α)) :=
  Loop.runFrom (step fetch next) fuel (ask fetch 0 [] first)

/-- The batches that are handed on from request `n` on. -/
inductive Walk : Nat → Option Int → List (List α) → Prop
  | done {n : Nat} : Walk n none []
  | last {n : Nat} {stop : Int} : fetch n stop = .ok [] → Walk n (some stop) []
  | more {n : Nat} {stop : Int} {x : α} {xs : List α} {batches : List (List α)} : fetch n stop = .ok (x :: xs) →
    Walk (n + 1) (next x) batches → Walk n (some stop) ((x :: xs) :: batches)

/-- From request `n` on, request `m` is made. -/
inductive Asked : Nat → Option Int → Nat → Int → Prop
  | here {n : Nat} {stop : Int} : Asked n (some stop) n stop
  | later {n m : Nat} {stop stop' : Int} {x : α} {xs : List α} : fetch n stop = .ok (x :: xs) →
    Asked (n + 1) (next x) m stop' → Asked n (some stop) m stop'

/-! ## One request -/

theorem runFrom_done (fuel n : Nat) (written : List (List α)) :
    Loop.runFrom (step fetch next) (fuel + 1) (ask fetch n written none) =
      some (.ok { answer := [], requests := n, written }) := rfl

variable {fetch} {n : Nat} {stop : Int} (written : List (List α))

theorem runFrom_error {e : ε} (h : fetch n stop = .error e) (fuel : Nat) :
    Loop.runFrom (step fetch next) fuel (ask fetch n written (some stop)) = some (.error e) := by
  simp only [ask, h]
  rfl

theorem runFrom_last (h : fetch n stop = .ok []) (fuel : Nat) :
    Loop.runFrom (step fetch next) (fuel + 1) (ask fetch n written (some stop)) =
      some (.ok { answer := [], requests := n + 1, written }) := by
  simp only [ask, h]
  rfl

theorem runFrom_more {x : α} {xs : List α} (h : fetch n stop = .ok (x :: xs)) (fuel : Nat) :
    Loop.runFrom (step fetch next) (fuel + 1) (ask fetch n written (some stop)) =
      Loop.runFrom (step fetch next) fuel (ask fetch (n + 1) (written ++ [x :: xs]) (next x)) := by
  have hask : ask fetch n written (some stop) = .ok { answer := x :: xs, requests := n + 1, written } := by
    simp only [ask, h]
    rfl
  have hstep : step fetch next { answer := x :: xs, requests := n + 1, written } =
      (ask fetch (n + 1) (written ++ [x :: xs]) (next x)).map .next := rfl
  rw [hask, Loop.runFrom, Loop.run, hstep]
  cases ask fetch (n + 1) (written ++ [x :: xs]) (next x) with
  | error e => rfl
  | ok s => rfl

/-! ## What is handed on -/

theorem walk_of_runFrom : ∀ {fuel n : Nat} {written : List (List α)} {stop : Option Int} {r : State α},
    Loop.runFrom (step fetch next) fuel (ask fetch n written stop) = some (.ok r) →
    ∃ batches, Walk fetch next n stop batches ∧ r.written = written ++ batches
  | 0, n, written, none, r, h => by cases h
  | fuel + 1, n, written, none, r, h => by
    rw [runFrom_done] at h
    cases h
    exact ⟨[], .done, (List.append_nil _).symm⟩
  | fuel, n, written, some stop, r, h => by
    cases hfetch : fetch n stop with
    | error e =>
      rw [runFrom_error next written hfetch] at h
      cases h
    | ok answer =>
      cases fuel with
      | zero =>
        simp only [ask, hfetch] at h
        cases h
      | succ fuel =>
        cases answer with
        | nil =>
          rw [runFrom_last next written hfetch] at h
          cases h
          exact ⟨[], .last hfetch, (List.append_nil _).symm⟩
        | cons x xs =>
          rw [runFrom_more next written hfetch] at h
          obtain ⟨batches, hwalk, hwritten⟩ := walk_of_runFrom h
          refine ⟨(x :: xs) :: batches, .more hfetch hwalk, ?_⟩
          rw [hwritten, List.append_assoc, List.singleton_append]

theorem walk_of_download {first : Option Int} {fuel : Nat} {r : State α}
    (h : download fetch next first fuel = some (.ok r)) : Walk fetch next 0 first r.written := by
  obtain ⟨batches, hwalk, hwritten⟩ := walk_of_runFrom next h
  rw [hwritten]
  exact hwalk

theorem Walk.eq_nil {batches : List (List α)} (h : Walk fetch next n none batches) : batches = [] := by
  cases h
  rfl

theorem Asked.le {first : Option Int} {m : Nat} {stop : Int} (h : Asked fetch next n first m stop) : n ≤ m := by
  induction h with
  | here => exact le_refl _
  | later _ _ ih => omega

theorem Walk.mem_iff {batches : List (List α)} {stop : Option Int} (h : Walk fetch next n stop batches) {b : List α} :
    b ∈ batches ↔ b ≠ [] ∧ ∃ m stop', Asked fetch next n stop m stop' ∧ fetch m stop' = .ok b := by
  induction h with
  | done =>
    constructor
    · intro hb
      cases hb
    · rintro ⟨-, m, stop', hasked, -⟩
      cases hasked
  | last hfetch =>
    constructor
    · intro hb
      cases hb
    · rintro ⟨hne, m, stop', hasked, hb⟩
      cases hasked with
      | here =>
        rw [hfetch] at hb
        cases hb
        exact absurd rfl hne
      | later hmore _ =>
        rw [hfetch] at hmore
        cases hmore
  | more hfetch _ ih =>
    constructor
    · intro hb
      rcases List.mem_cons.mp hb with rfl | hb
      · exact ⟨List.cons_ne_nil _ _, _, _, .here, hfetch⟩
      · obtain ⟨hne, m, stop', hasked, hm⟩ := ih.mp hb
        exact ⟨hne, m, stop', .later hfetch hasked, hm⟩
    · rintro ⟨hne, m, stop', hasked, hb⟩
      cases hasked with
      | here =>
        rw [hfetch] at hb
        cases hb
        exact List.mem_cons_self
      | later hmore hlater =>
        rw [hfetch] at hmore
        cases hmore
        exact List.mem_cons_of_mem _ (ih.mpr ⟨hne, m, stop', hlater, hb⟩)

/-- Where every answer after the first one is good, the first one decides. -/
theorem Walk.forall_iff {good : α → Prop}
    (hlater : ∀ m stop xs, n < m → fetch m stop = .ok xs → ∀ x ∈ xs, good x) {batches : List (List α)}
    (h : Walk fetch next n (some stop) batches) :
    (∀ b ∈ batches, ∀ x ∈ b, good x) ↔ ∀ xs, fetch n stop = .ok xs → ∀ x ∈ xs, good x := by
  constructor
  · intro hall xs hfetch x hx
    exact hall xs (h.mem_iff.mpr ⟨List.ne_nil_of_mem hx, n, stop, .here, hfetch⟩) x hx
  · intro hfirst b hb
    obtain ⟨-, m, stop', hasked, hm⟩ := h.mem_iff.mp hb
    cases hasked with
    | here => exact hfirst b hm
    | later _ hlater' => exact hlater m stop' b hlater'.le hm

/-- Without the newest entry, which is the last one of the first answer. -/
theorem Walk.mem_dropLast_iff {batches : List (List α)} {first : Option Int} (h : Walk fetch next n first batches) {x : α} :
    x ∈ batches.reverse.flatten.dropLast ↔ ∃ m stop xs, Asked fetch next n first m stop ∧ fetch m stop = .ok xs ∧
      x ∈ if m = n then xs.dropLast else xs := by
  cases h with
  | done =>
    refine iff_of_false List.not_mem_nil ?_
    rintro ⟨m, stop, xs, hasked, -⟩
    cases hasked
  | last hfetch =>
    refine iff_of_false List.not_mem_nil ?_
    rintro ⟨m, stop, xs, hasked, hxs, hx⟩
    cases hasked with
    | here =>
      rw [hfetch] at hxs
      cases hxs
      simp at hx
    | later hmore _ =>
      rw [hfetch] at hmore
      cases hmore
  | @more _ _ y ys batches hfetch hwalk =>
    rw [List.reverse_cons, List.flatten_append, List.flatten_singleton,
      List.dropLast_append_of_ne_nil (List.cons_ne_nil y ys), List.mem_append, List.mem_flatten]
    constructor
    · rintro (⟨b, hb, hx⟩ | hx)
      · obtain ⟨-, m, stop', hasked, hm⟩ := hwalk.mem_iff.mp (List.mem_reverse.mp hb)
        have hne : m ≠ n := by
          have := hasked.le
          omega
        exact ⟨m, stop', b, .later hfetch hasked, hm, by rwa [if_neg hne]⟩
      · exact ⟨n, _, _, .here, hfetch, by rwa [if_pos rfl]⟩
    · rintro ⟨m, stop', xs, hasked, hxs, hx⟩
      cases hasked with
      | here =>
        rw [hfetch] at hxs
        cases hxs
        rw [if_pos rfl] at hx
        exact Or.inr hx
      | later hmore hlater =>
        rw [hfetch] at hmore
        cases hmore
        have hne : m ≠ n := by
          have := hlater.le
          omega
        rw [if_neg hne] at hx
        exact Or.inl ⟨xs, List.mem_reverse.mpr (hwalk.mem_iff.mpr ⟨List.ne_nil_of_mem hx, m, stop', hlater, hxs⟩), hx⟩

theorem Walk.flatten_eq_nil_iff {batches : List (List α)} {first : Option Int} (h : Walk fetch next n first batches) :
    batches.reverse.flatten = [] ↔ ∀ stop, first = some stop → fetch n stop = .ok [] := by
  cases h with
  | done => exact iff_of_true rfl fun _ hstop => by cases hstop
  | last hfetch =>
    refine iff_of_true rfl fun _ hstop => ?_
    cases hstop
    exact hfetch
  | more hfetch _ =>
    refine iff_of_false ?_ fun hall => ?_
    · rw [List.reverse_cons, List.flatten_append]
      simp
    · rw [hall _ rfl] at hfetch
      cases hfetch

/-! ## Times -/

variable {next}
variable (t : α → Int) {bound : Int → Int} (hnext : ∀ x stop, next x = some stop → bound stop < t x)

include hnext in
theorem Walk.le_first (hanswer : ∀ n stop xs, fetch n stop = .ok xs → ∀ x ∈ xs, t x ≤ bound stop)
    {batches : List (List α)} {first : Option Int} (h : Walk fetch next n first batches) :
    ∀ stop, first = some stop → ∀ b ∈ batches, ∀ x ∈ b, t x ≤ bound stop := by
  induction h with
  | done => exact fun _ hstop => by cases hstop
  | last _ => exact fun _ _ b hb => by cases hb
  | @more n stop x xs batches hfetch _ ih =>
    rintro stop' hstop b hb y hy
    cases hstop
    have hbound := hanswer _ _ _ hfetch
    rcases List.mem_cons.mp hb with rfl | hb
    · exact hbound y hy
    · cases hx : next x with
      | none =>
        rename_i hwalk _
        rw [hx] at hwalk
        cases hwalk
        cases hb
      | some stop' =>
        have := ih stop' hx b hb y hy
        have := hnext x stop' hx
        have := hbound x List.mem_cons_self
        omega

include hnext in
theorem Walk.ascending (hanswer : ∀ n stop xs, fetch n stop = .ok xs → Ascending t xs ∧ ∀ x ∈ xs, t x ≤ bound stop)
    {batches : List (List α)} {first : Option Int} (h : Walk fetch next n first batches) :
    Ascending t batches.reverse.flatten := by
  induction h with
  | done => exact List.Pairwise.nil
  | last _ => exact List.Pairwise.nil
  | @more n stop x xs batches hfetch hwalk ih =>
    have hasc := (hanswer _ _ _ hfetch).1
    rw [List.reverse_cons, List.flatten_append, List.flatten_singleton]
    refine List.pairwise_append.mpr ⟨ih, hasc, ?_⟩
    intro y hy z hz
    obtain ⟨b, hb, hyb⟩ := List.mem_flatten.mp hy
    have hyx : t y < t x := by
      cases hx : next x with
      | none =>
        rw [hx] at hwalk
        cases hwalk
        cases hb
      | some stop' =>
        have hle := hwalk.le_first t hnext (fun n stop xs h => (hanswer n stop xs h).2) stop' hx b
          (List.mem_reverse.mp hb) y hyb
        have := hnext x stop' hx
        omega
    rcases List.mem_cons.mp hz with rfl | hz
    · exact hyx
    · have := (List.pairwise_cons.mp hasc).1 z hz
      omega

/-! ## How many requests -/

theorem runFrom_congr {fetch' : Nat → Int → Except ε (List α)} : ∀ {fuel n : Nat} {written : List (List α)}
    {first : Option Int}, (∀ m stop, Asked fetch next n first m stop → fetch' m stop = fetch m stop) →
    Loop.runFrom (step fetch' next) fuel (ask fetch' n written first) =
      Loop.runFrom (step fetch next) fuel (ask fetch n written first)
  | 0, n, written, none, _ => rfl
  | fuel + 1, n, written, none, _ => rfl
  | fuel, n, written, some stop, h => by
    have hsame := h n stop .here
    cases hfetch : fetch n stop with
    | error e => rw [runFrom_error next written hfetch, runFrom_error next written (hsame.trans hfetch)]
    | ok answer =>
      cases fuel with
      | zero =>
        simp only [ask, hsame, hfetch]
        rfl
      | succ fuel =>
        cases answer with
        | nil => rw [runFrom_last next written hfetch, runFrom_last next written (hsame.trans hfetch)]
        | cons x xs =>
          rw [runFrom_more next written hfetch, runFrom_more next written (hsame.trans hfetch)]
          exact runFrom_congr fun m stop' hasked => h m stop' (.later hfetch hasked)

section
variable {rank : Int → Nat}
  (hrank : ∀ n stop x xs stop', fetch n stop = .ok (x :: xs) → next x = some stop' → rank stop' < rank stop)

include hrank in
theorem asked_lt {first : Option Int} {m k : Nat} {stop : Int} (h : Asked fetch next n first m stop)
    (hk : ∀ stop, first = some stop → rank stop < k) : m < n + k := by
  induction h generalizing k with
  | @here n stop =>
    have := hk stop rfl
    omega
  | @later n m stop stop' x xs hfetch _ ih =>
    have hlt := hk stop rfl
    have := @ih (k - 1) fun stop'' hx => by
      have := hrank _ _ _ _ _ hfetch hx
      omega
    omega

include hrank in
theorem runFrom_ends : ∀ (k n : Nat) (written : List (List α)) (first : Option Int),
    (∀ stop, first = some stop → rank stop < k) →
    ∃ fuel r, Loop.runFrom (step fetch next) fuel (ask fetch n written first) = some r ∧
      ∀ s, r = .ok s → s.requests ≤ n + k
  | k, n, written, none, _ => by
    refine ⟨1, _, runFrom_done fetch next 0 n written, ?_⟩
    intro s hs
    cases hs
    exact Nat.le_add_right n k
  | 0, n, written, some stop, h => absurd (h stop rfl) (Nat.not_lt_zero _)
  | k + 1, n, written, some stop, h => by
    cases hfetch : fetch n stop with
    | error e =>
      refine ⟨0, _, runFrom_error next written hfetch 0, ?_⟩
      intro s hs
      cases hs
    | ok answer =>
      cases answer with
      | nil =>
        refine ⟨1, _, runFrom_last next written hfetch 0, ?_⟩
        intro s hs
        cases hs
        show n + 1 ≤ n + (k + 1)
        omega
      | cons x xs =>
        obtain ⟨fuel, r, hr, hle⟩ := runFrom_ends k (n + 1) (written ++ [x :: xs]) (next x) fun stop' hx => by
          have := h stop rfl
          have := hrank _ _ _ _ _ hfetch hx
          omega
        refine ⟨fuel + 1, r, (runFrom_more next written hfetch fuel).trans hr, ?_⟩
        intro s hs
        have := hle s hs
        omega

include hrank in
/-- The download ends with at most `k` requests: nothing depends on the answers
to later ones. -/
theorem download_ends {first : Option Int} {k : Nat} (hk : ∀ stop, first = some stop → rank stop < k) :
    ∃ fuel r, download fetch next first fuel = some r ∧ (∀ s, r = .ok s → s.requests ≤ k) ∧
      ∀ fetch' : Nat → Int → Except ε (List α), (∀ n < k, fetch' n = fetch n) →
        download fetch' next first fuel = some r := by
  obtain ⟨fuel, r, hr, hle⟩ := runFrom_ends hrank k 0 [] first hk
  refine ⟨fuel, r, hr, ?_, ?_⟩
  · intro s hs
    have := hle s hs
    omega
  · intro fetch' hsame
    refine (runFrom_congr fun m stop hasked => ?_).trans hr
    have hm := asked_lt hrank hasked hk
    rw [hsame m (by omega)]

end

end

/-! ## What refines a download -/

theorem ends_of_view {S ρ β : Type} {request : S → Nat → Int → Except ε (List α)} {next : α → Option Int}
    {first : Option Int} {run : S → Nat → Option (Except ε ρ)} {view : ρ → State α} {output : ρ → β}
    {outputOf : State α → β}
    (hview : ∀ s fuel, download (request s) next first fuel = (run s fuel).map (Except.map view))
    (houtput : ∀ s fuel, (run s fuel).map (Except.map output) =
      (download (request s) next first fuel).map (Except.map outputOf))
    {s : S} {rank : Int → Nat} (hrank : ∀ n stop x xs stop', request s n stop = .ok (x :: xs) →
      next x = some stop' → rank stop' < rank stop) {k : Nat} (hk : ∀ stop, first = some stop → rank stop < k) :
    ∃ fuel r, run s fuel = some r ∧ (∀ h, r = .ok h → (view h).requests ≤ k) ∧
      ∀ s', (∀ n < k, request s' n = request s n) → (run s' fuel).map (Except.map output) = some (r.map output) := by
  obtain ⟨fuel, r', hr', hrequests, hlater⟩ := download_ends hrank hk
  have hs := hview s fuel
  rw [hr'] at hs
  cases hrun : run s fuel with
  | none =>
    rw [hrun] at hs
    cases hs
  | some r =>
    rw [hrun] at hs
    cases hs
    refine ⟨fuel, r, hrun, ?_, ?_⟩
    · intro h hr
      exact hrequests (view h) (by rw [hr]; rfl)
    · intro s' hsame
      rw [houtput, hlater _ hsame, ← hr', ← houtput, hrun]
      rfl

end Backward
