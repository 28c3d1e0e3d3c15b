import MexcApi.DownloadsSound
import MexcApi.OpenCandleSound

/-!
# Order, length and batches of the downloads

Little has to be known of the server: with ascending answers that do not pass
the end they are asked for, what is downloaded is ascending; when the first
candle of an answer does not pass it, the number of requests is bounded by the
range. That the arithmetic is exact is assumed here. What a caller with a writer
gets depends on the client.
-/

namespace MexcApi

open Nlohmann Windows

/-! ## What is known of the server -/

namespace Spot

/-- The candles of every answer are `good` for the end they were asked for. -/
def Answers (U : JsonUtils) (server : KlineServer) (symbol : String) (interval : CandleInterval)
    (good : Int → List Candle → Prop) : Prop :=
  ∀ n startTime endTime candles, RESTClient.P.getHistoricalPrices U (server n) symbol interval startTime endTime
    RESTClient.limit = .ok candles → good endTime candles

/-- Ascending, and not later than `endTime`. -/
def Ordered (endTime : Int) (candles : List Candle) : Prop :=
  Ascending Candle.openTime candles ∧ ∀ c ∈ candles, c.openTime ≤ endTime

def FirstInTime (endTime : Int) (candles : List Candle) : Prop := ∀ c ∈ candles.head?, c.openTime ≤ endTime

end Spot

namespace Futures

def Answers (U : JsonUtils) (server : KlineServer) (symbol : String) (interval : CandleInterval)
    (good : Int → List Candle → Prop) : Prop :=
  ∀ n startTime endTime candles, RESTClient.P.getHistoricalPrices U (server n) symbol interval startTime endTime =
    .ok candles → good endTime candles

/-- Ascending, and not later than `endTime`, which is in seconds. -/
def Ordered (endTime : Int) (candles : List Candle) : Prop :=
  Ascending Candle.openTime candles ∧ ∀ c ∈ candles, c.openTime ≤ endTime * 1000

def FirstInTime (endTime : Int) (candles : List Candle) : Prop := ∀ c ∈ candles.head?, c.openTime ≤ endTime * 1000

end Futures

/-! ## Candle series

A server that answers from an ascending series, whatever part of it, is such a
server.
-/

theorem Spot.KlineAnswers.ordered {U : JsonUtils} {series : List (Spot.Kline U)} (answers : Spot.KlineAnswers series)
    (hs : Ascending Spot.Kline.openTime series) (symbol : String) (interval : CandleInterval) :
    Spot.Answers U (answers.server symbol interval) symbol interval Spot.Ordered := by
  intro n startTime endTime candles hcandles
  rw [Spot.RESTClient.fetch_answers] at hcandles
  cases hcandles
  refine ⟨List.pairwise_map.mpr (List.Pairwise.sublist (answers.sublist _ _) hs), ?_⟩
  intro c hc
  obtain ⟨k, hk, rfl⟩ := List.mem_map.mp hc
  exact (answers.inRange _ _ k hk).2

theorem Futures.KlineAnswers.ordered {U : JsonUtils} (hU : U.Lawful) {series : List Futures.Kline}
    (answers : Futures.KlineAnswers series) (hs : Ascending Futures.Kline.openTime series) (symbol : String)
    (interval : CandleInterval) : Futures.Answers U (answers.server symbol interval) symbol interval Futures.Ordered := by
  intro n startTime endTime candles hcandles
  rw [Futures.RESTClient.fetch_answers hU] at hcandles
  cases hcandles
  refine ⟨List.pairwise_map.mpr (List.Pairwise.sublist (answers.sublist _ _) hs), ?_⟩
  intro c hc
  obtain ⟨k, hk, rfl⟩ := List.mem_map.mp hc
  have hle : k.time ≤ endTime := (answers.inRange _ _ k hk).2
  show k.time * 1000 ≤ endTime * 1000
  omega

theorem Spot.Answers.firstInTime {U : JsonUtils} {server : Spot.KlineServer} {symbol : String} {interval : CandleInterval}
    (h : Spot.Answers U server symbol interval Spot.Ordered) :
    Spot.Answers U server symbol interval Spot.FirstInTime :=
  fun n startTime endTime candles hcandles c hc =>
    (h n startTime endTime candles hcandles).2 c (List.mem_of_mem_head? hc)

theorem Futures.Answers.firstInTime {U : JsonUtils} {server : Futures.KlineServer} {symbol : String}
    {interval : CandleInterval} (h : Futures.Answers U server symbol interval Futures.Ordered) :
    Futures.Answers U server symbol interval Futures.FirstInTime :=
  fun n startTime endTime candles hcandles c hc =>
    (h n startTime endTime candles hcandles).2 c (List.mem_of_mem_head? hc)

/-! ## Order -/

namespace Spot.RESTClient

theorem nextEnd_some {interval : CandleInterval} {startTime stop : Int} {oldest : Candle}
    (h : nextEnd interval startTime oldest = some stop) :
    startTime ≤ stop ∧ stop = oldest.openTime - interval.numberOfMsForCandleInterval := by
  unfold nextEnd wanted at h
  split at h
  · rename_i hle
    cases h
    exact ⟨hle, rfl⟩
  · cases h

theorem ascending_of_returns {U : JsonUtils} {server : KlineServer} {symbol : String} {interval : CandleInterval}
    (hserver : Answers U server symbol interval Ordered) {startTime endTime : Int} {fuel : Nat} {h : History}
    (hrun : getHistoricalPrices U server symbol interval startTime endTime fuel = some (.ok h)) :
    Ascending Candle.openTime h.written.reverse.flatten := by
  have hI := interval.numberOfMs_pos
  have hbelow : ∀ oldest stop, nextEnd interval startTime oldest = some stop → stop < oldest.openTime := by
    intro oldest stop hnext
    have := (nextEnd_some hnext).2
    omega
  exact (download_walk U server symbol interval startTime limit hrun).ascending Candle.openTime hbelow
    fun n stop candles hcandles => hserver n _ stop candles hcandles

end Spot.RESTClient

namespace Futures.RESTClient

theorem nextEnd_some {startTime stop : Int} {oldest : Candle} (h : nextEnd startTime oldest = some stop) :
    startTime < stop ∧ stop = oldest.openTime.tdiv 1000 - 1 := by
  unfold nextEnd wanted at h
  split at h
  · rename_i hlt
    cases h
    exact ⟨hlt, rfl⟩
  · cases h

/-- The division rounds towards zero, and the second that is subtracted makes
up for it. -/
theorem nextEnd_lt {startTime stop : Int} {oldest : Candle} (h : nextEnd startTime oldest = some stop) :
    stop * 1000 < oldest.openTime := by
  have hstop := (nextEnd_some h).2
  have hdiv := Int.tmod_add_mul_tdiv oldest.openTime 1000
  have hmod := Int.lt_tmod_of_pos oldest.openTime (show (0 : Int) < 1000 by decide)
  omega

theorem ascending_of_returns {U : JsonUtils} {server : KlineServer} {symbol : String} {interval : CandleInterval}
    (hserver : Answers U server symbol interval Ordered) {startTime endTime : Int} {fuel : Nat} {h : History}
    (hrun : getHistoricalPrices U server symbol interval startTime endTime fuel = some (.ok h)) :
    Ascending Candle.openTime h.written.reverse.flatten := by
  have hbelow : ∀ oldest stop, nextEnd startTime oldest = some stop → stop * 1000 < oldest.openTime :=
    fun _ _ hnext => nextEnd_lt hnext
  exact (download_walk U server symbol interval startTime hrun).ascending Candle.openTime hbelow
    fun n stop candles hcandles => hserver n startTime stop candles hcandles

end Futures.RESTClient

/-! ## The number of requests -/

namespace Spot.RESTClient

theorem getHistoricalPrices_bounded {U : JsonUtils} {server : KlineServer} {symbol : String} {interval : CandleInterval}
    (hserver : Answers U server symbol interval FirstInTime) {startTime endTime : Int} (hlt : startTime < endTime) :
    ∃ fuel r, getHistoricalPrices U server symbol interval startTime endTime fuel = some r ∧
      (∀ h, r = .ok h →
        (h.requests : Int) ≤ (endTime - startTime) / interval.numberOfMsForCandleInterval + 1) ∧
      ∀ server', (∀ n : Nat, (n : Int) < (endTime - startTime) / interval.numberOfMsForCandleInterval + 1 →
          server' n = server n) →
        (getHistoricalPrices U server' symbol interval startTime endTime fuel).map (Except.map History.output) =
          some (r.map History.output) := by
  have hI := interval.numberOfMs_pos
  set I := interval.numberOfMsForCandleInterval with hIdef
  -- how many requests the range from `startTime` to an end is good for, after the first
  let rank (stop : Int) : Nat := ((stop - startTime) / I).toNat
  have hrank : ∀ n stop x xs stop', request U server symbol interval startTime limit n stop = .ok (x :: xs) →
      nextEnd interval startTime x = some stop' → rank stop' < rank stop := by
    intro n stop x xs stop' hfetch hnext
    have hfirst : x.openTime ≤ stop := hserver n _ stop _ hfetch x rfl
    obtain ⟨hle, hstop⟩ := nextEnd_some hnext
    have hdiv : (stop' - startTime) / I + 1 ≤ (stop - startTime) / I := by
      rw [← Int.add_mul_ediv_right _ _ (by omega : I ≠ 0)]
      exact Int.ediv_le_ediv hI (by omega)
    have hnonneg : 0 ≤ (stop' - startTime) / I := Int.ediv_nonneg (by omega) (by omega)
    show ((stop' - startTime) / I).toNat < ((stop - startTime) / I).toNat
    omega
  have hfirst : ∀ stop, wanted startTime endTime = some stop → rank stop < rank endTime + 1 := by
    intro stop hstop
    unfold wanted at hstop
    rw [if_pos (by omega)] at hstop
    cases hstop
    exact Nat.lt_succ_self _
  have hcast : ((rank endTime : Nat) : Int) = (endTime - startTime) / I :=
    Int.toNat_of_nonneg (Int.ediv_nonneg (by omega) (by omega))
  obtain ⟨fuel, r, hrun, hrequests, hlater⟩ := Backward.ends_of_view
    (fun server fuel => download_view U server symbol interval startTime limit endTime fuel)
    (fun server fuel => download_output U server symbol interval startTime limit endTime fuel) hrank hfirst
  refine ⟨fuel, r, hrun, ?_, ?_⟩
  · intro h hr
    have : h.requests ≤ rank endTime + 1 := hrequests h hr
    omega
  · intro server' hsame
    refine hlater server' fun n hn => ?_
    unfold request
    rw [hsame n (by omega)]

end Spot.RESTClient

namespace Futures.RESTClient

theorem getHistoricalPrices_bounded {U : JsonUtils} {server : KlineServer} {symbol : String} {interval : CandleInterval}
    (hserver : Answers U server symbol interval FirstInTime) {startTime endTime : Int} (hlt : startTime < endTime) :
    ∃ fuel r, getHistoricalPrices U server symbol interval startTime endTime fuel = some r ∧
      (∀ h, r = .ok h → (h.requests : Int) ≤ endTime - startTime) ∧
      ∀ server', (∀ n : Nat, (n : Int) < endTime - startTime → server' n = server n) →
        (getHistoricalPrices U server' symbol interval startTime endTime fuel).map (Except.map History.output) =
          some (r.map History.output) := by
  let rank (stop : Int) : Nat := (stop - startTime - 1).toNat
  have hrank : ∀ n stop x xs stop', request U server symbol interval startTime n stop = .ok (x :: xs) →
      nextEnd startTime x = some stop' → rank stop' < rank stop := by
    intro n stop x xs stop' hfetch hnext
    have hfirst : x.openTime ≤ stop * 1000 := hserver n startTime stop _ hfetch x rfl
    have hstop := nextEnd_lt hnext
    have hstart := (nextEnd_some hnext).1
    show (stop' - startTime - 1).toNat < (stop - startTime - 1).toNat
    omega
  have hfirst : ∀ stop, wanted startTime endTime = some stop → rank stop < rank endTime + 1 := by
    intro stop hstop
    unfold wanted at hstop
    rw [if_pos hlt] at hstop
    cases hstop
    exact Nat.lt_succ_self _
  have hcast : ((rank endTime : Nat) : Int) = endTime - startTime - 1 := Int.toNat_of_nonneg (by omega)
  obtain ⟨fuel, r, hrun, hrequests, hlater⟩ := Backward.ends_of_view
    (fun server fuel => download_view U server symbol interval startTime endTime fuel)
    (fun server fuel => download_output U server symbol interval startTime endTime fuel) hrank hfirst
  refine ⟨fuel, r, hrun, ?_, ?_⟩
  · intro h hr
    have : h.requests ≤ rank endTime + 1 := hrequests h hr
    omega
  · intro server' hsame
    refine hlater server' fun n hn => ?_
    unfold request
    rw [hsame n (by omega)]

end Futures.RESTClient

/-! ## The batches of the writer -/

theorem eq_dropLast_iff {α : Type} {l : List α} : l = l.dropLast ↔ l = [] := by
  constructor
  · intro h
    have hlen := congrArg List.length h
    rw [List.length_dropLast] at hlen
    exact List.length_eq_zero_iff.mp (by omega)
  · intro h
    rw [h]
    rfl

theorem Futures.RESTClient.streamed_iff {U : JsonUtils} {server : KlineServer} {symbol : String} {interval : CandleInterval}
    {startTime endTime : Int} {fuel : Nat} {h : History}
    (hrun : getHistoricalPrices U server symbol interval startTime endTime fuel = some (.ok h)) :
    h.written.reverse.flatten = h.retVal ↔
      (startTime < endTime → P.getHistoricalPrices U (server 0) symbol interval startTime endTime = .ok []) := by
  have hwalk := download_walk U server symbol interval startTime hrun
  rw [download_retVal U server symbol interval startTime hrun, eq_dropLast_iff, hwalk.flatten_eq_nil_iff]
  unfold wanted
  by_cases hlt : startTime < endTime
  · rw [if_pos hlt]
    constructor
    · intro hall _
      exact hall endTime rfl
    · intro hfirst stop hstop
      cases hstop
      exact hfirst hlt
  · rw [if_neg hlt]
    exact iff_of_true (fun _ hstop => by cases hstop) fun h => absurd h hlt

theorem getHistoricalPrices_streamed_iff (U : JsonUtils) (symbol : String) (interval : CandleInterval)
    (startTime endTime : Int) :
    (∀ server fuel h,
      Spot.RESTClient.getHistoricalPrices U server symbol interval startTime endTime fuel = some (.ok h) →
      h.written.reverse.flatten = h.retVal) ∧
    ∀ server fuel h,
      Futures.RESTClient.getHistoricalPrices U server symbol interval startTime endTime fuel = some (.ok h) →
      (h.written.reverse.flatten = h.retVal ↔ (startTime < endTime →
        Futures.RESTClient.P.getHistoricalPrices U (server 0) symbol interval startTime endTime = .ok [])) := by
  constructor
  · intro server fuel h hrun
    exact (Spot.RESTClient.download_retVal U server symbol interval startTime Spot.RESTClient.limit hrun).symm
  · intro server fuel h hrun
    exact Futures.RESTClient.streamed_iff hrun

theorem getHistoricalPrices_streamed_example :
    (∃ fuel h, Spot.RESTClient.getHistoricalPrices JsonUtils.plain
        ((Spot.exchangeAnswers (Spot.RESTClient.minutes 2)).server "BTCUSDT" ._1m) "BTCUSDT" ._1m 60 300 fuel =
          some (.ok h) ∧
      h.written.reverse.flatten = h.retVal) ∧
    ∃ fuel h, Futures.RESTClient.getHistoricalPrices JsonUtils.plain
        ((Futures.exchangeAnswers 1 threeCandles).server "BTCUSDT" ._1m) "BTCUSDT" ._1m 60 300 fuel = some (.ok h) ∧
      (h.written.reverse.flatten = h.retVal ↔ ((60 : Int) < 300 → Futures.RESTClient.P.getHistoricalPrices JsonUtils.plain
        ((Futures.exchangeAnswers 1 threeCandles).server "BTCUSDT" ._1m 0) "BTCUSDT" ._1m 60 300 = .ok [])) := by
  have hall := getHistoricalPrices_streamed_iff JsonUtils.plain "BTCUSDT" ._1m 60 300
  constructor
  · obtain ⟨fuel, h, hrun, -⟩ := Spot.RESTClient.download_trimmed (Spot.exchangeAnswers (Spot.RESTClient.minutes 2))
      "BTCUSDT" ._1m 60 300 Spot.RESTClient.limit (minutes_live (show (120000 : Int) ≤ 120000 by decide)) 60 300
    exact ⟨fuel, h, hrun, hall.1 _ fuel h hrun⟩
  · obtain ⟨fuel, h, hrun, -⟩ := Futures.RESTClient.download_trimmed JsonUtils.plain_lawful
      (Futures.exchangeAnswers 1 threeCandles) "BTCUSDT" ._1m
      (threeCandles_live (show (300000 : Int) ≤ 300000 by decide)) 60 300
    exact ⟨fuel, h, hrun, hall.2 _ fuel h hrun⟩

theorem newest_candle_streamed :
    ∃ fuel h, Futures.RESTClient.getHistoricalPrices JsonUtils.plain
        ((Futures.exchangeAnswers 1 threeCandles).server "BTC_USDT" ._1m) "BTC_USDT" ._1m 60 300 fuel =
          some (.ok h) ∧ h.written.reverse.flatten ≠ h.retVal := by
  obtain ⟨fuel, h, hrun, -⟩ := Futures.RESTClient.download_trimmed JsonUtils.plain_lawful
    (Futures.exchangeAnswers 1 threeCandles) "BTC_USDT" ._1m
    (threeCandles_live (show (300000 : Int) ≤ 300000 by decide)) 60 300
  refine ⟨fuel, h, hrun, ?_⟩
  intro heq
  have hfirst := (Futures.RESTClient.streamed_iff hrun).mp heq (by decide)
  rw [Futures.RESTClient.fetch_answers JsonUtils.plain_lawful] at hfirst
  have hlen := congrArg List.length (Except.ok.inj hfirst)
  exact absurd hlen (by decide)

end MexcApi
