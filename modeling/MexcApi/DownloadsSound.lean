import MexcApi.Backward
import MexcApi.FuturesHistorySound
import MexcApi.SpotHistorySound

/-!
# The history downloads go back in time

Both clients refine the download of `Backward`: they differ in how far they
step back, in the requests they send, and in what they return of the batches.
-/

namespace MexcApi

open Nlohmann

/-! ## The spot client -/

namespace Spot

namespace RESTClient

def History.view (s : History) : Backward.State Candle :=
  { answer := s.candles, requests := s.requests, written := s.written }

/-- What the caller gets: the vector, and the batches of the writer. -/
def History.output (s : History) : List Candle × List (List Candle) := (s.retVal, s.written)

/-- The end of a request, if there is one to make. -/
def wanted (startTime stop : Int) : Option Int := if startTime ≤ stop then some stop else none

section
variable (U : JsonUtils) (server : KlineServer) (symbol : String) (interval : CandleInterval) (startTime : Int)
  (limit : Nat)

/-- The `n`-th request up to `stop`; the first one of a large range has no start. -/
def request (n : Nat) (stop : Int) : Except Fault (List Candle) :=
  let intervalMs := interval.numberOfMsForCandleInterval
  let requestStart :=
    if n = 0 then (if stop - startTime > limit * intervalMs then 0 else startTime)
    else max startTime (stop - limit * intervalMs)
  P.getHistoricalPrices U (server n) symbol interval requestStart stop limit

theorem request_later {n : Nat} (hn : n ≠ 0) (stop : Int) : request U server symbol interval startTime limit n stop =
    P.getHistoricalPrices U (server n) symbol interval
      (max startTime (stop - limit * interval.numberOfMsForCandleInterval)) stop limit := by
  unfold request
  simp only [if_neg hn]

def nextEnd (oldest : Candle) : Option Int :=
  wanted startTime (oldest.openTime - interval.numberOfMsForCandleInterval)

theorem start_view (endTime : Int) : (start U server symbol interval startTime limit endTime).map History.view =
    Backward.ask (request U server symbol interval startTime limit) 0 [] (wanted startTime endTime) := by
  unfold start wanted
  by_cases hle : startTime ≤ endTime
  · simp only [if_pos hle, Backward.ask, request]
    by_cases hlarge : endTime - startTime > limit * interval.numberOfMsForCandleInterval
    · simp only [if_pos hlarge, if_true]
      cases P.getHistoricalPrices U (server 0) symbol interval 0 endTime limit <;> rfl
    · simp only [if_neg hlarge, if_true]
      cases P.getHistoricalPrices U (server 0) symbol interval startTime endTime limit <;> rfl
  · simp only [if_neg hle]
    rfl

/-- A loop that goes on has made its first request. -/
def Begun (s : History) : Prop := s.candles = [] ∨ s.requests ≠ 0

theorem start_ok {endTime : Int} {s : History} (h : start U server symbol interval startTime limit endTime = .ok s) :
    Begun s ∧ s.retVal = [] ∧ s.written = [] := by
  unfold start at h
  split at h
  · dsimp only at h
    split at h
    · obtain ⟨candles, -, h⟩ := bind_ok h
      cases h
      exact ⟨Or.inr Nat.one_ne_zero, rfl, rfl⟩
    · obtain ⟨candles, -, h⟩ := bind_ok h
      cases h
      exact ⟨Or.inr Nat.one_ne_zero, rfl, rfl⟩
  · cases h
    exact ⟨Or.inl rfl, rfl, rfl⟩

theorem batch_begun (s s' : History) (_ : Begun s)
    (h : batch U server symbol interval startTime limit s = .ok (.next s')) : Begun s' := by
  rcases batch_cases U server symbol interval startTime limit h with ⟨-, hf⟩ | ⟨o, t, s₁, -, hf, -, -, -, hrest⟩
  · cases hf
  · cases hf
    rcases hrest with ⟨hnil, -, -⟩ | ⟨hrequests, -, -⟩
    · exact Or.inl hnil
    · refine Or.inr ?_
      rw [hrequests]
      exact Nat.succ_ne_zero _

theorem batch_view (s : History) (hs : Begun s) :
    Backward.step (request U server symbol interval startTime limit) (nextEnd interval startTime) s.view =
      (batch U server symbol interval startTime limit s).map (Loop.Flow.map History.view History.view) := by
  have hview : s.view.answer = s.candles := rfl
  unfold Backward.step batch
  cases hc : s.candles with
  | nil =>
    rw [hview, hc]
    rfl
  | cons oldest rest =>
    have hn : s.view.requests ≠ 0 := by
      rcases hs with hnil | hn
      · rw [hnil] at hc
        cases hc
      · exact hn
    rw [hview, hc]
    simp only [nextEnd, wanted]
    by_cases hle : startTime ≤ oldest.openTime - interval.numberOfMsForCandleInterval
    · simp only [if_pos hle, Backward.ask, request_later U server symbol interval startTime limit hn]
      have hrequests : s.view.requests = s.requests := rfl
      rw [hrequests]
      cases P.getHistoricalPrices U (server s.requests) symbol interval
        (max startTime (oldest.openTime - interval.numberOfMsForCandleInterval -
          limit * interval.numberOfMsForCandleInterval))
        (oldest.openTime - interval.numberOfMsForCandleInterval) limit <;> rfl
    · simp only [if_neg hle]
      rfl

theorem download_view (endTime : Int) (fuel : Nat) :
    Backward.download (request U server symbol interval startTime limit) (nextEnd interval startTime)
      (wanted startTime endTime) fuel =
        (download U server symbol interval startTime limit endTime fuel).map (Except.map History.view) := by
  unfold Backward.download download
  rw [← start_view]
  cases hs : start U server symbol interval startTime limit endTime with
  | error e => rfl
  | ok s =>
    exact Loop.run_map _ History.view History.view (batch_begun U server symbol interval startTime limit)
      (batch_view U server symbol interval startTime limit) fuel
      (start_ok U server symbol interval startTime limit hs).1

theorem download_retVal {endTime : Int} {fuel : Nat} {h : History}
    (hrun : download U server symbol interval startTime limit endTime fuel = some (.ok h)) :
    h.retVal = h.written.reverse.flatten := by
  unfold download at hrun
  split at hrun
  · rename_i s hstart
    obtain ⟨-, hret, hwritten⟩ := start_ok U server symbol interval startTime limit hstart
    have hnext : ∀ s s' : History, s.retVal = s.written.reverse.flatten →
        batch U server symbol interval startTime limit s = .ok (.next s') →
        s'.retVal = s'.written.reverse.flatten := by
      intro s s' hi hs
      rcases batch_cases U server symbol interval startTime limit hs with
        ⟨-, hf⟩ | ⟨o, t, s₁, -, hf, hret, hwritten, -, -⟩
      · cases hf
      · cases hf
        rw [hret, hwritten, Windows.reverse_flatten_snoc, hi]
    have hstop : ∀ s r : History, s.retVal = s.written.reverse.flatten →
        batch U server symbol interval startTime limit s = .ok (.stop r) →
        r.retVal = r.written.reverse.flatten := by
      intro s r hi hs
      rcases batch_cases U server symbol interval startTime limit hs with ⟨-, hf⟩ | ⟨o, t, s₁, -, hf, -⟩
      · cases hf
        exact hi
      · cases hf
    exact Loop.run_inv _ hnext hstop (by rw [hret, hwritten]; rfl) hrun
  · cases hrun

theorem download_output (endTime : Int) (fuel : Nat) :
    (download U server symbol interval startTime limit endTime fuel).map (Except.map History.output) =
      (Backward.download (request U server symbol interval startTime limit) (nextEnd interval startTime)
        (wanted startTime endTime) fuel).map (Except.map fun s => (s.written.reverse.flatten, s.written)) := by
  rw [download_view]
  refine Loop.map_output fun h hrun => ?_
  unfold History.output History.view
  rw [download_retVal U server symbol interval startTime limit hrun]

theorem download_walk {endTime : Int} {fuel : Nat} {h : History}
    (hrun : download U server symbol interval startTime limit endTime fuel = some (.ok h)) :
    Backward.Walk (request U server symbol interval startTime limit) (nextEnd interval startTime) 0
      (wanted startTime endTime) h.written := by
  have hview := download_view U server symbol interval startTime limit endTime fuel
  rw [hrun] at hview
  exact Backward.walk_of_download _ hview

end

end RESTClient

end Spot

/-! ## The futures client -/

namespace Futures

namespace RESTClient

def History.view (s : History) : Backward.State Candle :=
  { answer := s.candles, requests := s.requests, written := s.written }

def History.output (s : History) : List Candle × List (List Candle) := (s.retVal, s.written)

def wanted (startTime stop : Int) : Option Int := if startTime < stop then some stop else none

def nextEnd (startTime : Int) (oldest : Candle) : Option Int := wanted startTime (oldest.openTime.tdiv 1000 - 1)

section
variable (U : JsonUtils) (server : KlineServer) (symbol : String) (interval : CandleInterval) (startTime : Int)

def request (n : Nat) (stop : Int) : Except Fault (List Candle) :=
  P.getHistoricalPrices U (server n) symbol interval startTime stop

theorem start_view (endTime : Int) : (start U server symbol interval startTime endTime).map History.view =
    Backward.ask (request U server symbol interval startTime) 0 [] (wanted startTime endTime) := by
  unfold start wanted
  by_cases hlt : startTime < endTime
  · simp only [if_pos hlt, Backward.ask, request]
    cases P.getHistoricalPrices U (server 0) symbol interval startTime endTime <;> rfl
  · simp only [if_neg hlt]
    rfl

theorem start_ok {endTime : Int} {s : History} (h : start U server symbol interval startTime endTime = .ok s) :
    s.retVal = [] ∧ s.written = [] := by
  unfold start at h
  split at h
  · obtain ⟨candles, -, h⟩ := bind_ok h
    cases h
    exact ⟨rfl, rfl⟩
  · cases h
    exact ⟨rfl, rfl⟩

theorem batch_view (s : History) :
    Backward.step (request U server symbol interval startTime) (nextEnd startTime) s.view =
      (batch U server symbol interval startTime s).map (Loop.Flow.map History.view History.view) := by
  have hview : s.view.answer = s.candles := rfl
  unfold Backward.step
  cases hc : s.candles with
  | nil =>
    rw [hview, hc, batch_empty symbol interval hc]
    rfl
  | cons oldest rest =>
    unfold batch
    rw [hview, hc]
    simp only [nextEnd, wanted]
    by_cases hlt : startTime < oldest.openTime.tdiv 1000 - 1
    · have hrequests : s.view.requests = s.requests := rfl
      simp only [if_pos hlt, Backward.ask, request, hrequests]
      cases P.getHistoricalPrices U (server s.requests) symbol interval startTime (oldest.openTime.tdiv 1000 - 1) <;> rfl
    · simp only [if_neg hlt]
      rfl

theorem download_view (endTime : Int) (fuel : Nat) :
    Backward.download (request U server symbol interval startTime) (nextEnd startTime) (wanted startTime endTime) fuel =
      (getHistoricalPrices U server symbol interval startTime endTime fuel).map (Except.map History.view) := by
  unfold Backward.download getHistoricalPrices
  rw [← start_view]
  cases hs : start U server symbol interval startTime endTime with
  | error e => rfl
  | ok s =>
    have hnext : ∀ s s' : History, True → batch U server symbol interval startTime s = .ok (.next s') → True :=
      fun _ _ _ _ => trivial
    exact Loop.run_map _ History.view History.view hnext
      (fun s _ => batch_view U server symbol interval startTime s) fuel trivial

theorem download_retVal {endTime : Int} {fuel : Nat} {h : History}
    (hrun : getHistoricalPrices U server symbol interval startTime endTime fuel = some (.ok h)) :
    h.retVal = h.written.reverse.flatten.dropLast := by
  unfold getHistoricalPrices at hrun
  split at hrun
  · rename_i s hstart
    obtain ⟨hret, hwritten⟩ := start_ok U server symbol interval startTime hstart
    have hnext : ∀ s s' : History, s.retVal = s.written.reverse.flatten →
        batch U server symbol interval startTime s = .ok (.next s') → s'.retVal = s'.written.reverse.flatten := by
      intro s s' hi hs
      cases hc : s.candles with
      | nil =>
        rw [batch_empty symbol interval hc] at hs
        cases hs
      | cons oldest rest =>
        unfold batch at hs
        rw [hc] at hs
        dsimp only at hs
        split at hs
        · obtain ⟨candles, -, hs⟩ := bind_ok hs
          cases hs
          rw [Windows.reverse_flatten_snoc, hi]
        · cases hs
          rw [Windows.reverse_flatten_snoc, hi]
    have hstop : ∀ s r : History, s.retVal = s.written.reverse.flatten →
        batch U server symbol interval startTime s = .ok (.stop r) → r.retVal = r.written.reverse.flatten.dropLast := by
      intro s r hi hs
      cases hc : s.candles with
      | nil =>
        rw [batch_empty symbol interval hc] at hs
        cases hs
        rw [hi]
      | cons oldest rest =>
        unfold batch at hs
        rw [hc] at hs
        dsimp only at hs
        split at hs
        · obtain ⟨candles, -, hs⟩ := bind_ok hs
          cases hs
        · cases hs
    exact Loop.run_inv _ hnext hstop (by rw [hret, hwritten]; rfl) hrun
  · cases hrun

theorem download_output (endTime : Int) (fuel : Nat) :
    (getHistoricalPrices U server symbol interval startTime endTime fuel).map (Except.map History.output) =
      (Backward.download (request U server symbol interval startTime) (nextEnd startTime) (wanted startTime endTime)
        fuel).map (Except.map fun s => (s.written.reverse.flatten.dropLast, s.written)) := by
  rw [download_view]
  refine Loop.map_output fun h hrun => ?_
  unfold History.output History.view
  rw [download_retVal U server symbol interval startTime hrun]

theorem download_walk {endTime : Int} {fuel : Nat} {h : History}
    (hrun : getHistoricalPrices U server symbol interval startTime endTime fuel = some (.ok h)) :
    Backward.Walk (request U server symbol interval startTime) (nextEnd startTime) 0 (wanted startTime endTime)
      h.written := by
  have hview := download_view U server symbol interval startTime endTime fuel
  rw [hrun] at hview
  exact Backward.walk_of_download _ hview

end

end RESTClient

end Futures

end MexcApi
