import MexcApi.CheckedRunsSound
import MexcApi.StreamedDownloads

/-!
# Interrupted downloads can be taken up again

A caller whose download throws keeps the batches it has and calls again, for
what comes before the oldest candle of them, as often as it takes. All the
batches together are those of one download: ascending whenever the servers
answer in order and no time overflows, and for the futures client exactly the candles of the range.
-/

namespace MexcApi

open Nlohmann Windows Checked

/-! ## Calls until one returns -/

namespace Spot.RESTClient

section
variable (U : JsonUtils) (symbol : String) (interval : CandleInterval) (startTime : Int)

/-- The end the failed request had, from what was saved before it. -/
def resumeTime (endTime : Int) (written : List (List Candle)) : Int :=
  match written.getLast? with
  | some (oldest :: _) => oldest.openTime - interval.numberOfMsForCandleInterval
  | _ => endTime

inductive Attempts (good : KlineServer → Int → Prop) : Int → List (List Candle) → Prop
  | returned {server : KlineServer} {endTime : Int} {fuel : Nat} {h : History} : good server endTime →
    streamed U server symbol interval startTime endTime fuel = some (.ok h) → Attempts good endTime h.written
  | failed {server : KlineServer} {endTime : Int} {fuel : Nat} {broken : Interrupted Candle}
    {batches : List (List Candle)} : good server endTime →
    streamed U server symbol interval startTime endTime fuel = some (.error broken) →
    Attempts good (resumeTime interval endTime broken.written) batches → Attempts good endTime (broken.written ++ batches)

variable {U symbol interval startTime}

theorem resumeTime_path {fetch : Nat → Int → Except Fault (List Candle)} {endTime stop : Int} {k : Nat}
    {written : List (List Candle)} (h : Backward.Path fetch (nextEnd interval startTime) 0 (wanted startTime endTime)
      written k (some stop)) : wanted startTime (resumeTime interval endTime written) = some stop := by
  cases written using List.reverseRecOn with
  | nil => exact (h.last_eq.1 rfl).symm
  | append_singleton before b =>
    cases b with
    | nil => exact absurd rfl (h.batch_ne_nil (by simp))
    | cons oldest rest =>
      rw [h.last_eq.2 before oldest rest rfl]
      simp [resumeTime, nextEnd]

theorem Attempts.walk {good : KlineServer → Int → Prop} {answer : Int → List Candle → Prop}
    (hgood : ∀ server endTime, good server endTime → ∀ n stop candles,
      request U server symbol interval startTime limit n stop = .ok candles → answer stop candles)
    {endTime : Int} {batches : List (List Candle)} (h : Attempts U symbol interval startTime good endTime batches) :
    ∃ fetch : Nat → Int → Except Fault (List Candle), (∀ n stop candles, fetch n stop = .ok candles → answer stop candles) ∧
      Backward.Walk fetch (nextEnd interval startTime) 0 (wanted startTime endTime) batches := by
  induction h with
  | @returned server endTime fuel h hserver hrun =>
    exact ⟨request U server symbol interval startTime limit, hgood server endTime hserver,
      download_walk U server symbol interval startTime limit ((streamed_ok U server symbol interval startTime).mp hrun)⟩
  | @failed server endTime fuel broken batches hserver hrun _ ih =>
    obtain ⟨k, stop, hpath, -⟩ := streamed_path U server symbol interval startTime hrun
    obtain ⟨fetch, hfetch, hwalk⟩ := ih
    rw [resumeTime_path hpath] at hwalk
    exact ⟨_, Backward.switch_forall (hgood server endTime hserver) hfetch, hpath.resume hwalk⟩

end

end Spot.RESTClient

namespace Futures.RESTClient

section
variable (U : JsonUtils) (symbol : String) (interval : CandleInterval) (startTime : Int)

def resumeTime (endTime : Int) (written : List (List Candle)) : Int :=
  match written.getLast? with
  | some (oldest :: _) => oldest.openTime.tdiv 1000 - 1
  | _ => endTime

inductive Attempts (good : KlineServer → Int → Prop) : Int → List (List Candle) → Prop
  | returned {server : KlineServer} {endTime : Int} {fuel : Nat} {h : History} : good server endTime →
    streamed U server symbol interval startTime endTime fuel = some (.ok h) → Attempts good endTime h.written
  | failed {server : KlineServer} {endTime : Int} {fuel : Nat} {broken : Interrupted Candle}
    {batches : List (List Candle)} : good server endTime →
    streamed U server symbol interval startTime endTime fuel = some (.error broken) →
    Attempts good (resumeTime endTime broken.written) batches → Attempts good endTime (broken.written ++ batches)

variable {U symbol interval startTime}

theorem resumeTime_path {fetch : Nat → Int → Except Fault (List Candle)} {endTime stop : Int} {k : Nat}
    {written : List (List Candle)} (h : Backward.Path fetch (nextEnd startTime) 0 (wanted startTime endTime) written k
      (some stop)) : wanted startTime (resumeTime endTime written) = some stop := by
  cases written using List.reverseRecOn with
  | nil => exact (h.last_eq.1 rfl).symm
  | append_singleton before b =>
    cases b with
    | nil => exact absurd rfl (h.batch_ne_nil (by simp))
    | cons oldest rest =>
      rw [h.last_eq.2 before oldest rest rfl]
      simp [resumeTime, nextEnd]

theorem Attempts.walk {good : KlineServer → Int → Prop} {answer : Int → List Candle → Prop}
    (hgood : ∀ server endTime, good server endTime → ∀ n stop candles,
      request U server symbol interval startTime n stop = .ok candles → answer stop candles)
    {endTime : Int} {batches : List (List Candle)} (h : Attempts U symbol interval startTime good endTime batches) :
    ∃ fetch : Nat → Int → Except Fault (List Candle), (∀ n stop candles, fetch n stop = .ok candles → answer stop candles) ∧
      Backward.Walk fetch (nextEnd startTime) 0 (wanted startTime endTime) batches := by
  induction h with
  | @returned server endTime fuel h hserver hrun =>
    exact ⟨request U server symbol interval startTime, hgood server endTime hserver,
      download_walk U server symbol interval startTime ((streamed_ok U server symbol interval startTime).mp hrun)⟩
  | @failed server endTime fuel broken batches hserver hrun _ ih =>
    obtain ⟨k, stop, hpath, -⟩ := streamed_path U server symbol interval startTime hrun
    obtain ⟨fetch, hfetch, hwalk⟩ := ih
    rw [resumeTime_path hpath] at hwalk
    exact ⟨_, Backward.switch_forall (hgood server endTime hserver) hfetch, hpath.resume hwalk⟩

end

end Futures.RESTClient

/-! ## Order -/

/-- The server answers in order, and a call for what comes up to `endTime` does
not overflow. -/
def Spot.RESTClient.Sound (U : JsonUtils) (symbol : String) (interval : CandleInterval) (startTime : Int)
    (server : KlineServer) (endTime : Int) : Prop :=
  Answers U server symbol interval Ordered ∧
    ∀ fuel, Checked.getHistoricalPrices U server symbol interval startTime endTime fuel ≠ some (.error .overflow)

def Futures.RESTClient.Sound (U : JsonUtils) (symbol : String) (interval : CandleInterval) (startTime : Int)
    (server : KlineServer) (endTime : Int) : Prop :=
  Answers U server symbol interval Ordered ∧
    ∀ fuel, Checked.getHistoricalPrices U server symbol interval startTime endTime fuel ≠ some (.error .overflow)

theorem resumed_ascending (U : JsonUtils) (symbol : String) (interval : CandleInterval) (startTime endTime : Int) :
    (∀ batches, Spot.RESTClient.Attempts U symbol interval startTime
        (Spot.RESTClient.Sound U symbol interval startTime) endTime batches →
      Ascending Spot.Candle.openTime batches.reverse.flatten) ∧
    ∀ batches, Futures.RESTClient.Attempts U symbol interval startTime
        (Futures.RESTClient.Sound U symbol interval startTime) endTime batches →
      Ascending Futures.Candle.openTime batches.reverse.flatten := by
  constructor
  · intro batches h
    have hI := interval.numberOfMs_pos
    obtain ⟨fetch, hfetch, hwalk⟩ := h.walk fun server _ hserver n stop candles => hserver.1 n _ stop candles
    refine hwalk.ascending Spot.Candle.openTime ?_ hfetch
    intro oldest stop hnext
    have := (Spot.RESTClient.nextEnd_some hnext).2
    omega
  · intro batches h
    obtain ⟨fetch, hfetch, hwalk⟩ := h.walk fun server _ hserver n stop candles => hserver.1 n startTime stop candles
    exact hwalk.ascending Futures.Candle.openTime (fun _ _ => Futures.RESTClient.nextEnd_lt) hfetch

/-- A server that is not reached any more from request `k` on. -/
def Spot.outage (k : Nat) (server : Spot.KlineServer) : Spot.KlineServer := fun n req =>
  if n < k then server n req else .error (.runtimeError "end of stream")

def Futures.outage (k : Nat) (server : Futures.KlineServer) : Futures.KlineServer := fun n req =>
  if n < k then server n req else .error (.runtimeError "end of stream")

theorem Spot.outage_accepted {U : JsonUtils} {server : Spot.KlineServer} {symbol : String} {interval : CandleInterval}
    {k n : Nat} {startTime endTime : Int} {limit : Nat} {candles : List Spot.Candle}
    (h : Spot.RESTClient.P.getHistoricalPrices U (Spot.outage k server n) symbol interval startTime endTime limit =
      .ok candles) :
    Spot.RESTClient.P.getHistoricalPrices U (server n) symbol interval startTime endTime limit = .ok candles := by
  by_cases hn : n < k
  · have hsame : Spot.outage k server n = server n := by
      funext req
      exact if_pos hn
    rw [hsame] at h
    exact h
  · have herror : Spot.outage k server n = fun _ => .error (.runtimeError "end of stream") := by
      funext req
      exact if_neg hn
    rw [herror] at h
    cases h

theorem Futures.outage_accepted {U : JsonUtils} {server : Futures.KlineServer} {symbol : String} {interval : CandleInterval}
    {k n : Nat} {startTime endTime : Int} {candles : List Futures.Candle}
    (h : Futures.RESTClient.P.getHistoricalPrices U (Futures.outage k server n) symbol interval startTime endTime =
      .ok candles) :
    Futures.RESTClient.P.getHistoricalPrices U (server n) symbol interval startTime endTime = .ok candles := by
  by_cases hn : n < k
  · have hsame : Futures.outage k server n = server n := by
      funext req
      exact if_pos hn
    rw [hsame] at h
    exact h
  · have herror : Futures.outage k server n = fun _ => .error (.runtimeError "end of stream") := by
      funext req
      exact if_neg hn
    rw [herror] at h
    cases h

theorem Spot.outage_serves {U : JsonUtils} {server : Spot.KlineServer} {kind : Spot.Candle → Prop}
    (h : Spot.RESTClient.Serves U server kind) (k : Nat) : Spot.RESTClient.Serves U (Spot.outage k server) kind :=
  fun n symbol interval startTime endTime limit candles hcandles =>
    h n symbol interval startTime endTime limit candles (Spot.outage_accepted hcandles)

theorem Futures.outage_fits {U : JsonUtils} {server : Futures.KlineServer} (h : ∀ n req, Futures.ReplyFits U (server n req))
    (k n : Nat) (req : Futures.KlineRequest) : Futures.ReplyFits U (Futures.outage k server n req) := by
  unfold Futures.outage
  split
  · exact h n req
  · intro r json hr
    cases hr

theorem resumed_ascending_outage :
    (∃ batches, Spot.RESTClient.Attempts JsonUtils.plain "BTCUSDT" ._1m 0
        (Spot.RESTClient.Sound JsonUtils.plain "BTCUSDT" ._1m 0) 120000 batches ∧
      Ascending Spot.Candle.openTime batches.reverse.flatten) ∧
    ∃ batches, Futures.RESTClient.Attempts JsonUtils.plain "BTC_USDT" ._1m 60
        (Futures.RESTClient.Sound JsonUtils.plain "BTC_USDT" ._1m 60) 300 batches ∧
      Ascending Futures.Candle.openTime batches.reverse.flatten := by
  have hspot := minutes_live (show (120000 : Int) ≤ 120000 by decide)
  have hfutures := threeCandles_live (show (300000 : Int) ≤ 300000 by decide)
  constructor
  · have hordered := (Spot.exchangeAnswers _).ordered hspot.ascending "BTCUSDT" ._1m
    let late (c : Spot.Candle) : Prop := InInt64 c.openTime ∧
      -9223372036854775808 + (Spot.RESTClient.limit + 1) * CandleInterval.numberOfMsForCandleInterval ._1m ≤ c.openTime
    have hserves : Spot.RESTClient.Serves JsonUtils.plain
        ((Spot.exchangeAnswers (Spot.RESTClient.minutes 2)).server "BTCUSDT" ._1m) late :=
      (Spot.exchangeAnswers _).serves (by decide) "BTCUSDT" ._1m
    have hnever : ∀ {server}, Spot.RESTClient.Serves JsonUtils.plain server late → ∀ endTime ≤ 120000, ∀ fuel,
        Spot.RESTClient.Checked.getHistoricalPrices JsonUtils.plain server "BTCUSDT" ._1m 0 endTime fuel ≠
          some (.error .overflow) := by
      intro server h endTime hend
      refine (Spot.RESTClient.never_iff (h.imp fun _ hc => hc.1)).mpr ?_
      exact Spot.RESTClient.stepsFit_of_serves (h.imp fun _ hc => hc.2) (by omega)
    obtain ⟨fuel, h, hrun, -⟩ := Spot.RESTClient.download_trimmed (Spot.exchangeAnswers (Spot.RESTClient.minutes 2))
      "BTCUSDT" ._1m 0 0 Spot.RESTClient.limit hspot 0 0
    have hfailed : Spot.RESTClient.streamed JsonUtils.plain
        (Spot.outage 1 ((Spot.exchangeAnswers (Spot.RESTClient.minutes 2)).server "BTCUSDT" ._1m)) "BTCUSDT"
          ._1m 0 120000 1 =
          some (.error ⟨.runtimeError "end of stream", [(Spot.RESTClient.minutes 2).map (·.value)]⟩) := rfl
    have hattempts : Spot.RESTClient.Attempts JsonUtils.plain "BTCUSDT" ._1m 0
        (Spot.RESTClient.Sound JsonUtils.plain "BTCUSDT" ._1m 0) 120000 _ := .failed
      ⟨fun n lo hi candles hcandles => hordered n lo hi candles (Spot.outage_accepted hcandles),
        hnever (Spot.outage_serves hserves 1) 120000 (by decide)⟩ hfailed
      (.returned ⟨hordered, hnever hserves _ (by decide)⟩ ((Spot.RESTClient.streamed_ok _ _ _ _ _).mpr hrun))
    exact ⟨_, hattempts, (resumed_ascending JsonUtils.plain "BTCUSDT" ._1m 0 120000).1 _ hattempts⟩
  · have hordered := (Futures.exchangeAnswers 1 _).ordered JsonUtils.plain_lawful hfutures.ascending "BTC_USDT" ._1m
    have hfits := (Futures.exchangeAnswers 1 threeCandles).replyFits JsonUtils.plain_lawful (by decide) "BTC_USDT" ._1m
    have hnever : ∀ {server}, (∀ n req, Futures.ReplyFits JsonUtils.plain (server n req)) → ∀ endTime fuel,
        Futures.RESTClient.Checked.getHistoricalPrices JsonUtils.plain server "BTC_USDT" ._1m 60 endTime fuel ≠
          some (.error .overflow) :=
      fun h endTime => (Futures.RESTClient.overflow_iff endTime).mpr (.of_all h _ _ _ _)
    obtain ⟨fuel, h, hrun, -⟩ := Futures.RESTClient.download_trimmed JsonUtils.plain_lawful
      (Futures.exchangeAnswers 1 threeCandles) "BTC_USDT" ._1m hfutures 60 299
    have hfailed : Futures.RESTClient.streamed JsonUtils.plain
        (Futures.outage 1 ((Futures.exchangeAnswers 1 threeCandles).server "BTC_USDT" ._1m)) "BTC_USDT" ._1m 60 300 1 =
          some (.error ⟨.runtimeError "end of stream", [[(Futures.flat 300 12).candle]]⟩) := rfl
    have hattempts : Futures.RESTClient.Attempts JsonUtils.plain "BTC_USDT" ._1m 60
        (Futures.RESTClient.Sound JsonUtils.plain "BTC_USDT" ._1m 60) 300 _ := .failed
      ⟨fun n lo hi candles hcandles => hordered n lo hi candles (Futures.outage_accepted hcandles),
        hnever (Futures.outage_fits hfits 1) 300⟩ hfailed
      (.returned ⟨hordered, hnever hfits _⟩ ((Futures.RESTClient.streamed_ok _ _ _ _ _).mpr hrun))
    exact ⟨_, hattempts, (resumed_ascending JsonUtils.plain "BTC_USDT" ._1m 60 300).2 _ hattempts⟩

/-! ## The futures candles of a range -/

namespace Futures

/-- Every answer that is accepted holds the newest candles of its range, as
many as the exchange likes. Any request may fail. -/
def Honest (U : JsonUtils) (series : List Kline) (symbol : String) (interval : CandleInterval) (server : KlineServer) :
    Prop :=
  ∀ n startTime endTime candles, RESTClient.P.getHistoricalPrices U (server n) symbol interval startTime endTime =
    .ok candles → ∃ cap, 0 < cap ∧ candles = (newest cap (inRange Kline.time startTime endTime series)).map Kline.candle

def Candle.seconds (c : Candle) : Int := c.openTime.tdiv 1000

theorem Kline.candle_seconds (k : Kline) : k.candle.seconds = k.time := by
  show (k.time * 1000).tdiv 1000 = k.time
  rw [Int.mul_tdiv_cancel _ (by decide)]

theorem inRange_candles (lo hi : Int) (series : List Kline) :
    inRange Candle.seconds lo hi (series.map Kline.candle) = (inRange Kline.time lo hi series).map Kline.candle := by
  unfold inRange
  rw [List.filter_map]
  congr 1
  apply List.filter_congr
  intro k _
  simp only [Function.comp, Kline.candle_seconds]

section
variable {series : List Kline} (hs : Spaced series)

include hs in
theorem candles_ascending : Ascending Candle.seconds (series.map Kline.candle) := by
  unfold Ascending
  rw [List.pairwise_map]
  apply hs.ascending.imp
  intro k l hkl
  rw [k.candle_seconds, l.candle_seconds]
  exact hkl

include hs in
/-- No candle opens between the start of a range and a second after it. -/
theorem asked_nextEnd (startTime : Int) {c : Candle} (hc : c ∈ series.map Kline.candle) :
    Backward.asked Candle.seconds startTime (series.map Kline.candle) (RESTClient.nextEnd startTime c) =
      inRange Candle.seconds startTime (c.seconds - 1) (series.map Kline.candle) := by
  obtain ⟨k, hk, rfl⟩ := List.mem_map.mp hc
  show Backward.asked _ _ _ (RESTClient.wanted startTime (k.candle.seconds - 1)) = _
  unfold RESTClient.wanted
  by_cases hlt : startTime < k.candle.seconds - 1
  · rw [if_pos hlt]
    rfl
  · rw [if_neg hlt, inRange_candles, inRange_eq_nil]
    · rfl
    · intro l hl
      rw [k.candle_seconds] at hlt ⊢
      by_cases hkl : l.time < k.time
      · have := Apart.le_of_lt Kline.time (by decide) hs hl hk hkl
        omega
      · omega

theorem RESTClient.newest_suffix (lo stop : Int) {cap : Nat} (hcap : 0 < cap) {candles : List Candle}
    (h : candles = (newest cap (inRange Kline.time lo stop series)).map Kline.candle) :
    candles <:+ inRange Candle.seconds lo stop (series.map Kline.candle) ∧
      (candles = [] → inRange Candle.seconds lo stop (series.map Kline.candle) = []) := by
  rw [inRange_candles, h]
  constructor
  · exact (List.drop_suffix _ _).map _
  · intro hnil
    rw [newest_eq_nil hcap (List.map_eq_nil_iff.mp hnil), List.map_nil]

include hs in
theorem RESTClient.walk_exact {fetch : Nat → Int → Except Fault (List Candle)} {startTime endTime : Int}
    {batches : List (List Candle)} (hwalk : Backward.Walk fetch (nextEnd startTime) 0 (wanted startTime endTime) batches)
    (hfetch : ∀ n stop candles, fetch n stop = .ok candles →
      ∃ cap, 0 < cap ∧ candles = (newest cap (inRange Kline.time startTime stop series)).map Kline.candle)
    (hlt : startTime < endTime) : batches.reverse.flatten =
    (inRange Kline.time startTime endTime series).map Kline.candle := by
  have hall := hwalk.complete Candle.seconds startTime (series.map Kline.candle) (candles_ascending hs)
    (fun c hc => asked_nextEnd hs startTime hc) fun n stop candles hcandles => by
      obtain ⟨cap, hcap, heq⟩ := hfetch n stop candles hcandles
      exact newest_suffix startTime stop hcap heq
  rw [hall]
  unfold wanted
  rw [if_pos hlt]
  exact inRange_candles startTime endTime series

end

/-- However often the download is interrupted, nothing is lost and nothing
comes twice. -/
theorem resumed_exact {U : JsonUtils} {series : List Kline} (hs : Spaced series) (symbol : String)
    (interval : CandleInterval) {startTime endTime : Int} (hlt : startTime < endTime) {batches : List (List Candle)}
    (h : RESTClient.Attempts U symbol interval startTime
    (fun server _ => Honest U series symbol interval server) endTime batches) :
    batches.reverse.flatten = (inRange Kline.time startTime endTime series).map Kline.candle := by
  obtain ⟨fetch, hfetch, hwalk⟩ := h.walk fun server _ hserver n stop candles => hserver n startTime stop candles
  exact RESTClient.walk_exact hs hwalk hfetch hlt

theorem exchange_honest (cap : Nat) (hcap : 0 < cap) (series : List Kline) (symbol : String) (interval : CandleInterval) :
    Honest JsonUtils.plain series symbol interval (exchange symbol interval cap series) := by
  intro n startTime endTime candles hcandles
  rw [fetch_exchange JsonUtils.plain_lawful] at hcandles
  cases hcandles
  exact ⟨cap, hcap, rfl⟩

theorem resumed_exact_outage :
    ∃ batches, RESTClient.Attempts JsonUtils.plain "BTC_USDT" ._1m 60
        (fun server _ => Honest JsonUtils.plain threeCandles "BTC_USDT" ._1m server) 300 batches ∧
      batches.reverse.flatten = (inRange Kline.time 60 300 threeCandles).map Kline.candle := by
  have hs : Spaced threeCandles := by
    unfold Spaced
    decide
  have hhonest := exchange_honest 1 Nat.one_pos threeCandles "BTC_USDT" ._1m
  obtain ⟨fuel, h, hrun, -⟩ := RESTClient.download_trimmed JsonUtils.plain_lawful (exchangeAnswers 1 threeCandles)
    "BTC_USDT" ._1m (threeCandles_live (show (300000 : Int) ≤ 300000 by decide)) 60 299
  have hfailed : RESTClient.streamed JsonUtils.plain
      (outage 1 (exchange "BTC_USDT" ._1m 1 threeCandles)) "BTC_USDT" ._1m 60 300 1 =
      some (.error ⟨.runtimeError "end of stream", [[(flat 300 12).candle]]⟩) := rfl
  have hattempts : RESTClient.Attempts JsonUtils.plain "BTC_USDT" ._1m 60
      (fun server _ => Honest JsonUtils.plain threeCandles "BTC_USDT" ._1m server) 300 _ := .failed
    (fun n lo hi candles hcandles => hhonest n lo hi candles (outage_accepted hcandles)) hfailed
    (.returned hhonest ((RESTClient.streamed_ok _ (exchange "BTC_USDT" ._1m 1 threeCandles) _ _ _).mpr hrun))
  exact ⟨_, hattempts, resumed_exact hs "BTC_USDT" ._1m (by decide) hattempts⟩

end Futures

end MexcApi
