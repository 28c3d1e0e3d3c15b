import MexcApi.DownloadsSound
import MexcApi.Interrupted

/-!
# Downloads that save what they have got

`getHistoricalPrices` calls `writer` with a batch before it asks for the next
one, for progressive saving. So a call that throws has saved the batches of
the requests that came before, and a caller can ask again for the rest.
-/

namespace MexcApi

open Nlohmann

/-- The exception, and the batches `writer` was called with. -/
abbrev Interrupted (Candle : Type) := Backward.Broken Fault Candle

theorem mapError_ok {α ε ε' : Type} {f : ε → ε'} {r : Except ε α} {v : α} (h : r.mapError f = .ok v) : r = .ok v := by
  cases r with
  | error e => cases h
  | ok w =>
    cases h
    rfl

theorem map_mapError {α β ε ε' : Type} (f : ε → ε') (g : α → β) (r : Except ε α) :
    (r.mapError f).map g = (r.map g).mapError f := by
  cases r with
  | error e => rfl
  | ok v => rfl

/-! ## The spot client -/

namespace Spot.RESTClient

section
variable (U : JsonUtils) (server : KlineServer) (symbol : String) (interval : CandleInterval) (startTime : Int)

def streamedStart (endTime : Int) : Except (Interrupted Candle) History :=
  (start U server symbol interval startTime limit endTime).mapError fun error => { error, written := [] }

/-- What throws in a round is the request, and `writer` has been called before it. -/
def streamedBatch (s : History) : Except (Interrupted Candle) (Loop.Flow History History) :=
  (batch U server symbol interval startTime limit s).mapError fun error =>
    { error, written := s.written ++ [s.candles] }

def streamed (endTime : Int) (fuel : Nat) : Option (Except (Interrupted Candle) History) :=
  Loop.runFrom (streamedBatch U server symbol interval startTime) fuel
    (streamedStart U server symbol interval startTime endTime)

/-- Whoever does not look at what was saved sees `getHistoricalPrices`. -/
theorem streamed_forget (endTime : Int) (fuel : Nat) :
    (streamed U server symbol interval startTime endTime fuel).map (Except.mapError Backward.Broken.error) =
      getHistoricalPrices U server symbol interval startTime endTime fuel := by
  unfold streamed streamedStart getHistoricalPrices download
  cases start U server symbol interval startTime limit endTime with
  | error e => rfl
  | ok s => exact Loop.run_mapError _ (fun _ _ => rfl) fuel s

theorem streamed_ok {endTime : Int} {fuel : Nat} {h : History} :
    streamed U server symbol interval startTime endTime fuel = some (.ok h) ↔
      getHistoricalPrices U server symbol interval startTime endTime fuel = some (.ok h) := by
  rw [← streamed_forget]
  constructor
  · intro hrun
    rw [hrun]
    rfl
  · intro hrun
    obtain ⟨r, hr, hh⟩ := Option.map_eq_some_iff.mp hrun
    rw [hr, mapError_ok hh]

theorem streamedStart_view (endTime : Int) :
    (streamedStart U server symbol interval startTime endTime).map History.view =
      Backward.brokenAsk (request U server symbol interval startTime limit) 0 [] (wanted startTime endTime) := by
  unfold streamedStart Backward.brokenAsk
  rw [map_mapError, start_view]

theorem streamedBatch_view (s : History) (hs : Begun s) :
    Backward.brokenStep (request U server symbol interval startTime limit) (nextEnd interval startTime) s.view =
      (streamedBatch U server symbol interval startTime s).map (Loop.Flow.map History.view History.view) := by
  unfold streamedBatch Backward.brokenStep
  rw [map_mapError, batch_view U server symbol interval startTime limit s hs]
  rfl

theorem streamed_view (endTime : Int) (fuel : Nat) :
    Loop.runFrom (Backward.brokenStep (request U server symbol interval startTime limit) (nextEnd interval startTime))
      fuel (Backward.brokenAsk (request U server symbol interval startTime limit) 0 [] (wanted startTime endTime)) =
        (streamed U server symbol interval startTime endTime fuel).map (Except.map History.view) := by
  unfold streamed
  rw [← streamedStart_view]
  cases hs : streamedStart U server symbol interval startTime endTime with
  | error e => rfl
  | ok s =>
    have hnext : ∀ s s' : History, Begun s → streamedBatch U server symbol interval startTime s = .ok (.next s') →
        Begun s' := by
      intro s s' hi h
      exact batch_begun U server symbol interval startTime limit s s' hi (mapError_ok h)
    exact Loop.run_map _ History.view History.view hnext (streamedBatch_view U server symbol interval startTime) fuel
      (start_ok U server symbol interval startTime limit (mapError_ok hs)).1

theorem streamed_path {endTime : Int} {fuel : Nat} {broken : Interrupted Candle}
    (hrun : streamed U server symbol interval startTime endTime fuel = some (.error broken)) :
    ∃ k stop, Backward.Path (request U server symbol interval startTime limit) (nextEnd interval startTime) 0
        (wanted startTime endTime) broken.written k (some stop) ∧
      request U server symbol interval startTime limit k stop = .error broken.error := by
  have hview := streamed_view U server symbol interval startTime endTime fuel
  rw [hrun] at hview
  obtain ⟨batches, k, stop, hpath, herror, hwritten⟩ := Backward.path_of_broken _ hview
  rw [hwritten]
  exact ⟨k, stop, hpath, herror⟩

end

end Spot.RESTClient

/-! ## The futures client -/

namespace Futures.RESTClient

section
variable (U : JsonUtils) (server : KlineServer) (symbol : String) (interval : CandleInterval) (startTime : Int)

def streamedStart (endTime : Int) : Except (Interrupted Candle) History :=
  (start U server symbol interval startTime endTime).mapError fun error => { error, written := [] }

def streamedBatch (s : History) : Except (Interrupted Candle) (Loop.Flow History History) :=
  (batch U server symbol interval startTime s).mapError fun error => { error, written := s.written ++ [s.candles] }

def streamed (endTime : Int) (fuel : Nat) : Option (Except (Interrupted Candle) History) :=
  Loop.runFrom (streamedBatch U server symbol interval startTime) fuel
    (streamedStart U server symbol interval startTime endTime)

theorem streamed_forget (endTime : Int) (fuel : Nat) :
    (streamed U server symbol interval startTime endTime fuel).map (Except.mapError Backward.Broken.error) =
      getHistoricalPrices U server symbol interval startTime endTime fuel := by
  unfold streamed streamedStart getHistoricalPrices
  cases start U server symbol interval startTime endTime with
  | error e => rfl
  | ok s => exact Loop.run_mapError _ (fun _ _ => rfl) fuel s

theorem streamed_ok {endTime : Int} {fuel : Nat} {h : History} :
    streamed U server symbol interval startTime endTime fuel = some (.ok h) ↔
      getHistoricalPrices U server symbol interval startTime endTime fuel = some (.ok h) := by
  rw [← streamed_forget]
  constructor
  · intro hrun
    rw [hrun]
    rfl
  · intro hrun
    obtain ⟨r, hr, hh⟩ := Option.map_eq_some_iff.mp hrun
    rw [hr, mapError_ok hh]

theorem streamedStart_view (endTime : Int) :
    (streamedStart U server symbol interval startTime endTime).map History.view =
      Backward.brokenAsk (request U server symbol interval startTime) 0 [] (wanted startTime endTime) := by
  unfold streamedStart Backward.brokenAsk
  rw [map_mapError, start_view]

theorem streamedBatch_view (s : History) :
    Backward.brokenStep (request U server symbol interval startTime) (nextEnd startTime) s.view =
      (streamedBatch U server symbol interval startTime s).map (Loop.Flow.map History.view History.view) := by
  unfold streamedBatch Backward.brokenStep
  rw [map_mapError, batch_view U server symbol interval startTime s]
  rfl

theorem streamed_view (endTime : Int) (fuel : Nat) :
    Loop.runFrom (Backward.brokenStep (request U server symbol interval startTime) (nextEnd startTime)) fuel
      (Backward.brokenAsk (request U server symbol interval startTime) 0 [] (wanted startTime endTime)) =
        (streamed U server symbol interval startTime endTime fuel).map (Except.map History.view) := by
  unfold streamed
  rw [← streamedStart_view]
  cases hs : streamedStart U server symbol interval startTime endTime with
  | error e => rfl
  | ok s =>
    have hnext : ∀ s s' : History, True → streamedBatch U server symbol interval startTime s = .ok (.next s') →
        True := fun _ _ _ _ => trivial
    exact Loop.run_map _ History.view History.view hnext
      (fun s _ => streamedBatch_view U server symbol interval startTime s) fuel trivial

theorem streamed_path {endTime : Int} {fuel : Nat} {broken : Interrupted Candle}
    (hrun : streamed U server symbol interval startTime endTime fuel = some (.error broken)) :
    ∃ k stop, Backward.Path (request U server symbol interval startTime) (nextEnd startTime) 0
        (wanted startTime endTime) broken.written k (some stop) ∧
      request U server symbol interval startTime k stop = .error broken.error := by
  have hview := streamed_view U server symbol interval startTime endTime fuel
  rw [hrun] at hview
  obtain ⟨batches, k, stop, hpath, herror, hwritten⟩ := Backward.path_of_broken _ hview
  rw [hwritten]
  exact ⟨k, stop, hpath, herror⟩

end

end Futures.RESTClient

end MexcApi
