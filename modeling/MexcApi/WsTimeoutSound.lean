import Mathlib.Data.Rat.Defs
import Mathlib.Tactic.Linarith
import Mathlib.Tactic.NormNum
import Mathlib.Tactic.Positivity
import MexcApi.WsOwnedSound

/-!
# How long the reads wait

The number of tries is made for sleeps of 10 ms, and each sleep takes 3 ms. A
read gives up after three tenths of its timeout.
-/

namespace MexcApi

open Nlohmann

namespace Futures

namespace WSStreamManager

/-! ## The loop -/

section
variable {α : Type} {timeout : Nat → Int} {find : Nat → Option α}

theorem poll_sleeps : ∀ (left numTries : Nat), (poll timeout find left numTries).2 ≤ numTries + left
  | 0, numTries => Nat.le_refl _
  | left + 1, numTries => by
    unfold poll
    split
    · exact Nat.le_add_right _ _
    · split
      · exact Nat.le_add_right _ _
      · have ih := poll_sleeps left (numTries + 1)
        omega

theorem poll_absent (hwait : ∀ n, timeout n ≠ 0) : ∀ {left numTries : Nat},
    (∀ n, numTries ≤ n → n < numTries + left → find n = none) → (poll timeout find left numTries).1 = none
  | 0, _, _ => rfl
  | left + 1, numTries, h => by
    unfold poll
    rw [if_neg (hwait _), h numTries (Nat.le_refl _) (by omega)]
    exact poll_absent hwait fun n hlo hhi => h n (by omega) (by omega)

/-- What a try finds is returned, or what an earlier one has found. -/
theorem poll_finds (hwait : ∀ n, timeout n ≠ 0) : ∀ {left numTries m : Nat}, m < left → find (numTries + m) ≠ none →
    ∃ entry, (poll timeout find left numTries).1 = some entry ∧
      find (poll timeout find left numTries).2 = some entry
  | 0, _, _, hm, _ => absurd hm (Nat.not_lt_zero _)
  | left + 1, numTries, m, hm, h => by
    unfold poll
    rw [if_neg (hwait _)]
    cases hfind : find numTries with
    | some entry => exact ⟨entry, rfl, hfind⟩
    | none =>
      cases m with
      | zero => exact absurd hfind h
      | succ m =>
        have hnext : find (numTries + 1 + m) ≠ none := by
          rwa [Nat.add_right_comm]
        exact poll_finds hwait (Nat.lt_of_succ_lt_succ hm) hnext

end

/-! ## Entries stay -/

theorem tickers_stay (U : EventUtils) {m : Caches} (event : Event) {pair : String} (h : m.tickers pair ≠ none) :
    (onDataEvent U m event).tickers pair ≠ none := by
  have hupdate : ∀ key ticker, Function.update m.tickers key (some ticker) pair ≠ none := by
    intro key ticker
    by_cases hk : pair = key
    · rw [hk, Function.update_self]
      exact Option.some_ne_none _
    · rwa [Function.update_of_ne hk]
  unfold onDataEvent
  split
  · unfold onTicker
    split
    · split
      · exact hupdate _ _
      · exact h
    · exact hupdate _ _
  · split
    · unfold onCandlestick
      split
      · exact h
      · exact h
    · exact h

theorem candlestick_stays (U : EventUtils) {m : Caches} (event : Event) {pair : String} {interval : CandleInterval}
    (h : m.candlestick pair interval ≠ none) : (onDataEvent U m event).candlestick pair interval ≠ none := by
  unfold onDataEvent
  split
  · unfold Caches.candlestick
    rw [onTicker_candlesticks]
    exact h
  · split
    · cases hc : EventCandlestick.fromJson U event.data with
      | error e =>
        unfold onCandlestick
        rw [hc]
        exact h
      | ok c =>
        rw [onCandlestick_candlestick hc (pair, interval)]
        split
        · exact Option.some_ne_none c
        · exact h
    · exact h

/-- The events handled up to each moment, in milliseconds from the call on. -/
structure Delivery where
  events : ℚ → List Event
  grows : ∀ s t, s ≤ t → events s <+: events t

namespace Delivery

variable (U : EventUtils) (d : Delivery)

def caches (t : ℚ) : Caches := (d.events t).foldl (onDataEvent U) {}

theorem stays {α : Type} (find : Caches → Option α) (hfind : ∀ m event, find m ≠ none → find (onDataEvent U m event) ≠ none)
    {s t : ℚ} (hst : s ≤ t) (h : find (d.caches U s) ≠ none) : find (d.caches U t) ≠ none := by
  obtain ⟨later, hlater⟩ := d.grows s t hst
  have hkeep : ∀ (events : List Event) (m : Caches), find m ≠ none → find (events.foldl (onDataEvent U) m) ≠ none := by
    intro events
    induction events with
    | nil => exact fun _ hm => hm
    | cons event events ih => exact fun m hm => ih _ (hfind m event hm)
  unfold caches at h ⊢
  rw [← hlater, List.foldl_append]
  exact hkeep later _ h

end Delivery

/-! ## The reads -/

section
variable {α : Type} (find : ℚ → Option α)

/-- The moment of a try: there are `n` sleeps before it. -/
def tryTime (n : Nat) : ℚ := 3 * n

/-- The entry is there from the moment `a` on. -/
structure Appears (a : ℚ) : Prop where
  after : 0 ≤ a
  there : find a ≠ none
  absent : ∀ t, 0 ≤ t → t < a → find t = none

/-- What is returned is the entry at the moment of the last try. -/
def Answered (outcome : Option α × Nat) : Prop :=
  ∃ entry, outcome.1 = some entry ∧ find (tryTime outcome.2) = some entry

variable {find} {seconds : Int} (hseconds : 1 ≤ seconds)

include hseconds

theorem tries_eq : (maxNumTries (fun _ => seconds) + 1).toNat = (100 * seconds).toNat + 1 := by
  show (100 * seconds + 1).toNat = (100 * seconds).toNat + 1
  omega

theorem answered_iff (hstays : ∀ s t, s ≤ t → find s ≠ none → find t ≠ none) {a : ℚ} (ha : Appears find a) :
    Answered find (poll (fun _ => seconds) (fun n => find (tryTime n)) (maxNumTries (fun _ => seconds) + 1).toNat 0) ↔
      a ≤ 300 * seconds := by
  have hwait : ∀ n : Nat, (fun _ => seconds) n ≠ 0 := fun _ => by
    show seconds ≠ 0
    omega
  have hlast : ((100 * seconds).toNat : ℚ) = 100 * seconds := by
    have hcast : ((100 * seconds).toNat : Int) = 100 * seconds := Int.toNat_of_nonneg (by omega)
    exact_mod_cast hcast
  rw [tries_eq hseconds]
  constructor
  · rintro ⟨entry, hentry, -⟩
    refine not_lt.mp fun hlate => ?_
    have hnone : ∀ n, 0 ≤ n → n < 0 + ((100 * seconds).toNat + 1) → find (tryTime n) = none := by
      intro n _ hn
      have hle : (n : ℚ) ≤ (100 * seconds).toNat := by exact_mod_cast (show n ≤ (100 * seconds).toNat by omega)
      unfold tryTime
      exact ha.absent _ (by positivity) (by linarith)
    rw [poll_absent hwait hnone] at hentry
    cases hentry
  · intro hle
    have hthere : find (tryTime (0 + (100 * seconds).toNat)) ≠ none := by
      refine hstays a _ ?_ ha.there
      unfold tryTime
      rw [Nat.zero_add]
      linarith
    exact poll_finds hwait (Nat.lt_succ_self _) hthere

theorem waited_le {find : Nat → Option α} :
    tryTime (poll (fun _ => seconds) find (maxNumTries (fun _ => seconds) + 1).toNat 0).2 ≤ 1000 * seconds := by
  rw [tries_eq hseconds]
  have hle : (poll (fun _ => seconds) find ((100 * seconds).toNat + 1) 0).2 ≤ 0 + ((100 * seconds).toNat + 1) :=
    poll_sleeps _ 0
  have hbound : 3 * ((poll (fun _ => seconds) find ((100 * seconds).toNat + 1) 0).2 : Int) ≤ 1000 * seconds := by
    omega
  unfold tryTime
  exact_mod_cast hbound

end

theorem read_answered_iff (U : EventUtils) (d : Delivery) {seconds : Int} (hseconds : 1 ≤ seconds) :
    (∀ pair a, Appears (fun t => (d.caches U t).tickers pair) a →
      (Answered (fun t => (d.caches U t).tickers pair)
          (readEventTicker (fun _ => seconds) (fun n => d.caches U (tryTime n)) pair) ↔ a ≤ 300 * seconds)) ∧
    (∀ pair interval a, Appears (fun t => (d.caches U t).candlestick pair interval) a →
      (Answered (fun t => (d.caches U t).candlestick pair interval)
          (readEventCandlestick (fun _ => seconds) (fun n => d.caches U (tryTime n)) pair interval) ↔
        a ≤ 300 * seconds)) ∧
    (∀ pair, tryTime (readEventTicker (fun _ => seconds) (fun n => d.caches U (tryTime n)) pair).2 ≤ 1000 * seconds) ∧
    ∀ pair interval, tryTime (readEventCandlestick (fun _ => seconds) (fun n => d.caches U (tryTime n)) pair interval).2 ≤
      1000 * seconds := by
  refine ⟨fun pair a ha => ?_, fun pair interval a ha => ?_, fun _ => waited_le hseconds, fun _ _ => waited_le hseconds⟩
  · exact answered_iff hseconds (fun _ _ => d.stays U (fun m => m.tickers pair) fun _ event => tickers_stay U event) ha
  · exact answered_iff hseconds (fun _ _ => d.stays U (fun m => m.candlestick pair interval) fun _ event =>
      candlestick_stays U event) ha

/-- A ticker that comes `a` milliseconds after the call. -/
def tickerAt (a : ℚ) : Delivery where
  events t := if t < a then [] else [tickerEvent "BTC_USDT" []]
  grows s t hst := by
    by_cases hs : s < a
    · rw [if_pos hs]
      exact List.nil_prefix
    · rw [if_neg hs, if_neg (fun ht => hs (lt_of_le_of_lt hst ht))]

theorem tickerAt_appears {a : ℚ} (ha : 0 ≤ a) :
    Appears (fun t => ((tickerAt a).caches .plain t).tickers "BTC_USDT") a where
  after := ha
  there := by
    unfold Delivery.caches tickerAt
    dsimp only
    rw [if_neg (lt_irrefl a)]
    exact Option.some_ne_none _
  absent t _ ht := by
    unfold Delivery.caches tickerAt
    dsimp only
    rw [if_pos ht]
    rfl

theorem read_answered_example :
    (∀ pair a, Appears (fun t => ((tickerAt 200).caches .plain t).tickers pair) a →
      (Answered (fun t => ((tickerAt 200).caches .plain t).tickers pair)
          (readEventTicker (fun _ => 1) (fun n => (tickerAt 200).caches .plain (tryTime n)) pair) ↔
        a ≤ 300 * ((1 : Int) : ℚ))) ∧
    (∀ pair interval a, Appears (fun t => ((tickerAt 200).caches .plain t).candlestick pair interval) a →
      (Answered (fun t => ((tickerAt 200).caches .plain t).candlestick pair interval)
          (readEventCandlestick (fun _ => 1) (fun n => (tickerAt 200).caches .plain (tryTime n)) pair interval) ↔
        a ≤ 300 * ((1 : Int) : ℚ))) ∧
    (∀ pair, tryTime (readEventTicker (fun _ => 1) (fun n => (tickerAt 200).caches .plain (tryTime n)) pair).2 ≤
      1000 * ((1 : Int) : ℚ)) ∧
    ∀ pair interval, tryTime (readEventCandlestick (fun _ => 1) (fun n => (tickerAt 200).caches .plain (tryTime n)) pair
      interval).2 ≤ 1000 * ((1 : Int) : ℚ) :=
  read_answered_iff .plain (tickerAt 200) (by decide)

/-- With a timeout of a second, a ticker that comes after 400 ms is missed. -/
theorem ticker_missed : Appears (fun t => ((tickerAt 400).caches .plain t).tickers "BTC_USDT") 400 ∧
    (400 : ℚ) ≤ 1000 * 1 - 10 ∧
    (readEventTicker (fun _ => 1) (fun n => (tickerAt 400).caches .plain (tryTime n)) "BTC_USDT").1 = none := by
  have happears := tickerAt_appears (show (0 : ℚ) ≤ 400 by norm_num)
  refine ⟨happears, by norm_num, poll_absent (fun _ => by decide) fun n _ hn => happears.absent _ ?_ ?_⟩
  · unfold tryTime
    positivity
  · have hle : (n : ℚ) ≤ 100 := by
      have : n ≤ 100 := Nat.le_of_lt_succ (by rwa [Nat.zero_add] at hn)
      exact_mod_cast this
    unfold tryTime
    linarith

end WSStreamManager

end Futures

end MexcApi
