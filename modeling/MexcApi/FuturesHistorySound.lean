import MexcApi.FuturesRestClient
import MexcApi.Windows

/-!
# The futures history is exact

The exchange answers a request with the newest candles of its range, as many
as it likes but at least one. What is left of the range after a batch is what
comes before its oldest candle, so the batches are the range in reverse.
-/

namespace MexcApi

open Nlohmann Windows

namespace Futures

/-- A candle of the exchange; its time is in seconds. -/
structure Kline where
  time : Int
  «open» : Number
  high : Number
  low : Number
  close : Number
  vol : Number
  amount : Number

def Kline.candle (k : Kline) : Candle where
  openTime := k.time * 1000
  «open» := toStringValue k.open.toRat
  high := toStringValue k.high.toRat
  low := toStringValue k.low.toRat
  close := toStringValue k.close.toRat
  volume := toStringValue k.vol.toRat
  amount := toStringValue k.amount.toRat

def column (f : Kline → Number) (ks : List Kline) : Json := .arr (ks.map fun k => .num (f k))

def klineData (ks : List Kline) : Json := .obj [
  ("amount", column Kline.amount ks), ("close", column Kline.close ks), ("high", column Kline.high ks),
  ("low", column Kline.low ks), ("open", column Kline.open ks), ("time", column (fun k => .int k.time) ks),
  ("vol", column Kline.vol ks)]

def klineReply (ks : List Kline) : Json :=
  .obj [("code", .num (.int 0)), ("data", klineData ks), ("success", .bool true)]

/-- What the endpoint calls its intervals, with their lengths in milliseconds. -/
def intervals : List (String × Int) := [
  ("Min1", 60000), ("Min5", 300000), ("Min15", 900000), ("Min30", 1800000), ("Min60", 3600000), ("Hour4", 14400000),
  ("Hour8", 28800000), ("Day1", 86400000), ("Week1", 604800000), ("Month1", 2592000000)]

/-- Asked for the candles of this symbol, of this length. -/
def KlineRequest.For (req : KlineRequest) (symbol : String) (interval : CandleInterval) : Prop :=
  req.symbol = symbol ∧ intervals.lookup req.interval = some interval.numberOfMsForCandleInterval

instance (req : KlineRequest) (symbol : String) (interval : CandleInterval) : Decidable (req.For symbol interval) :=
  inferInstanceAs (Decidable (_ ∧ _))

/-- The endpoint with the one series it has, with at most `cap` candles in a reply. -/
def exchange (symbol : String) (interval : CandleInterval) (cap : Nat) (series : List Kline) : KlineServer :=
  fun _ req =>
    if req.For symbol interval then
      .ok { result := 200, body := ""
            json := some (klineReply (newest cap (inRange Kline.time req.start req.end series))) }
    else .ok { result := 400, body := "", json := none }

/-! ## Decoding a reply -/

theorem column_at (f : Kline → Number) {ks : List Kline} {i : Nat} (hi : i < ks.length) :
    ((column f ks).accessIndex i).get = .ok (.num (f ks[i])) := by
  simp only [column, Json.accessIndex, List.getElem?_map, List.getElem?_eq_getElem hi]
  rfl

theorem decimalAt_column (f : Kline → Number) {ks : List Kline} {i : Nat} (hi : i < ks.length) :
    decimalAt (column f ks) i = .ok (toStringValue (f ks[i]).toRat) := by
  simp only [decimalAt, column_at f hi]
  rfl

theorem candleAt_column {ks : List Kline} {i : Nat} (hi : i < ks.length) :
    Candles.candleAt (column (fun k => .int k.time) ks) (column Kline.open ks) (column Kline.high ks)
      (column Kline.low ks) (column Kline.close ks) (column Kline.vol ks) (column Kline.amount ks) i =
      .ok ks[i].candle := by
  unfold Candles.candleAt
  rw [column_at _ hi, decimalAt_column _ hi, decimalAt_column _ hi, decimalAt_column _ hi, decimalAt_column _ hi,
    decimalAt_column _ hi, decimalAt_column _ hi]
  rfl

theorem mapM_candleAt (ks : List Kline) :
    (List.range ks.length).mapM (Candles.candleAt (column (fun k => .int k.time) ks) (column Kline.open ks)
      (column Kline.high ks) (column Kline.low ks) (column Kline.close ks) (column Kline.vol ks)
      (column Kline.amount ks)) = .ok (ks.map Kline.candle) := by
  rw [← List.length_map Kline.candle]
  apply mapM_range
  intro i hi
  rw [List.length_map] at hi
  rw [List.getElem_map]
  exact candleAt_column hi

theorem fromJson_reply {U : JsonUtils} (hU : U.Lawful) (ks : List Kline) :
    Candles.fromJson U (klineReply ks) =
      .ok { code := 0, success := true, data := klineData ks, candles := ks.map Kline.candle } := by
  have hresponse : Response.fromJson U {} (klineReply ks) = _ := Response.fromJson_success hU rfl rfl rfl
  cases ks with
  | nil =>
    unfold Candles.fromJson
    rw [hresponse]
    rfl
  | cons k ks =>
    have hsize : (column (fun k => .int k.time) (k :: ks)).size = (k :: ks).length := by
      simp [column, Json.size, Json.elements]
    have hcandles := mapM_candleAt (k :: ks)
    rw [← hsize] at hcandles
    exact Candles.fromJson_ok hresponse rfl rfl rfl rfl rfl rfl rfl rfl hcandles

/-! ## The download -/

section
variable {U : JsonUtils} (hU : U.Lawful) (cap : Nat) (series : List Kline) (symbol : String) (interval : CandleInterval)

def RESTClient.klineRequest (startTime endTime : Int) : KlineRequest where
  symbol
  interval := interval.enumName
  start := startTime
  «end» := endTime

theorem klineRequest_for (startTime endTime : Int) :
    (RESTClient.klineRequest symbol interval startTime endTime).For symbol interval := by
  refine ⟨rfl, ?_⟩
  cases interval <;> rfl

include hU in
theorem fetch_exchange (n : Nat) (startTime endTime : Int) :
    RESTClient.P.getHistoricalPrices U (exchange symbol interval cap series n) symbol interval startTime endTime =
      .ok ((newest cap (inRange Kline.time startTime endTime series)).map Kline.candle) := by
  let ks := newest cap (inRange Kline.time startTime endTime series)
  have h : handleMEXCResponse (Candles.fromJson U) Candles.toResponse
      { result := 200, body := "", json := some (klineReply ks) } = _ :=
    handleMEXCResponse_ok rfl (fromJson_reply hU ks) rfl
  have hreply : exchange symbol interval cap series n (RESTClient.klineRequest symbol interval startTime endTime) = _ :=
    if_pos (klineRequest_for symbol interval startTime endTime)
  unfold RESTClient.klineRequest at hreply
  unfold RESTClient.P.getHistoricalPrices
  rw [hreply]
  simp only [bind, Except.bind, checkResponse_ok]
  rw [h]
  rfl

/-! ## One round -/

theorem oldest_end (k : Kline) : k.candle.openTime.tdiv 1000 - 1 = k.time - 1 := by
  show (k.time * 1000).tdiv 1000 - 1 = k.time - 1
  rw [Int.mul_tdiv_cancel _ (by decide)]

theorem batch_request {server : KlineServer} {startTime : Int} {s : RESTClient.History} {oldest : Candle}
    {rest cs : List Candle} (hc : s.candles = oldest :: rest) (hlt : startTime < oldest.openTime.tdiv 1000 - 1)
    (hcs : RESTClient.P.getHistoricalPrices U (server s.requests) symbol interval startTime
      (oldest.openTime.tdiv 1000 - 1) = .ok cs) :
    RESTClient.batch U server symbol interval startTime s = .ok (.next {
      currentEndTime := oldest.openTime.tdiv 1000 - 1
      candles := cs
      retVal := s.candles ++ s.retVal
      written := s.written ++ [s.candles]
      requests := s.requests + 1 }) := by
  unfold RESTClient.batch
  rw [hc]
  simp only [if_pos hlt, hcs]
  rfl

theorem batch_done {server : KlineServer} {startTime : Int} {s : RESTClient.History} {oldest : Candle}
    {rest : List Candle} (hc : s.candles = oldest :: rest) (hlt : ¬ startTime < oldest.openTime.tdiv 1000 - 1) :
    RESTClient.batch U server symbol interval startTime s = .ok (.next {
      currentEndTime := oldest.openTime.tdiv 1000 - 1
      candles := []
      retVal := s.candles ++ s.retVal
      written := s.written ++ [s.candles]
      requests := s.requests }) := by
  unfold RESTClient.batch
  rw [hc]
  simp only [if_neg hlt]
  rfl

theorem batch_empty {server : KlineServer} {startTime : Int} {s : RESTClient.History} (hc : s.candles = []) :
    RESTClient.batch U server symbol interval startTime s = .ok (.stop { s with retVal := s.retVal.dropLast }) := by
  unfold RESTClient.batch
  rw [hc]

/-! ## All rounds -/

def Spaced (series : List Kline) : Prop := series.Pairwise fun k l => k.time + 60 ≤ l.time

theorem Spaced.ascending {series : List Kline} (h : Spaced series) : Ascending Kline.time series :=
  h.imp fun hkl => by omega

/-- What is left of a range before one of its candles is the range up to the
second before that candle. -/
theorem range_before {startTime endTime : Int} {rest ks : List Kline} {k : Kline} (hs : Spaced series)
    (hrange : inRange Kline.time startTime endTime series = rest ++ k :: ks) :
    inRange Kline.time startTime (k.time - 1) series = rest ∧ ∀ r ∈ rest, startTime ≤ r.time ∧ r.time + 60 ≤ k.time := by
  have hspaced : Spaced (rest ++ k :: ks) := by
    rw [← hrange]
    exact List.Pairwise.filter _ hs
  have hrest : ∀ r ∈ rest, startTime ≤ r.time ∧ r.time + 60 ≤ k.time := by
    intro r hr
    have hmem : r ∈ inRange Kline.time startTime endTime series := by rw [hrange]; simp [hr]
    exact ⟨((mem_inRange _).mp hmem).2.1, (List.pairwise_append.mp hspaced).2.2 r hr k (by simp)⟩
  refine ⟨?_, hrest⟩
  rw [inRange_before Kline.time hs.ascending hrange (le_refl _) (by omega)]
  apply inRange_eq_self
  intro r hr
  have := hrest r hr
  omega

include hU in
/-- The rounds that are left, by induction on the candles not yet written. -/
theorem loop_written (hs : Spaced series) (hcap : 0 < cap) {startTime endTime : Int} : ∀ (n : Nat)
    {s : RESTClient.History} (rest ks got : List Kline), (rest ++ ks).length = n →
    inRange Kline.time startTime endTime series = rest ++ ks ++ got → (ks = [] → rest = []) →
    s.candles = ks.map Kline.candle → s.written.reverse.flatten = got.map Kline.candle →
    ∃ r, Loop.Returns (RESTClient.batch U (exchange symbol interval cap series) symbol interval startTime) s (.ok r) ∧
      r.written.reverse.flatten = (inRange Kline.time startTime endTime series).map Kline.candle := by
  intro n
  induction n using Nat.strongRecOn with
  | ind n ih =>
    intro s rest ks got hn hrange hempty hc hw
    cases ks with
    | nil =>
      refine ⟨_, .stop _ (batch_empty symbol interval hc), ?_⟩
      rw [hempty rfl] at hrange
      rw [hrange]
      exact hw
    | cons k ks =>
      rw [List.append_assoc] at hrange
      obtain ⟨hbefore, hrest⟩ := range_before series hs hrange
      have hw' : (s.written ++ [s.candles]).reverse.flatten = (k :: ks ++ got).map Kline.candle := by
        rw [reverse_flatten_snoc, hw, hc, List.map_append]
      by_cases hlt : startTime < k.candle.openTime.tdiv 1000 - 1
      · have hget := fetch_exchange hU cap series symbol interval s.requests startTime
          (k.candle.openTime.tdiv 1000 - 1)
        rw [oldest_end, hbefore, ← oldest_end] at hget
        have hsplit := newest_split cap rest
        have hnil : newest cap rest = [] → rest.take (rest.length - cap) = [] := by
          intro hnil
          rw [newest_eq_nil hcap hnil, List.take_nil]
        obtain ⟨r, hr, hval⟩ := ih rest.length (by rw [← hn]; simp)
          (s := { currentEndTime := k.candle.openTime.tdiv 1000 - 1, candles := (newest cap rest).map Kline.candle
                  retVal := s.candles ++ s.retVal, written := s.written ++ [s.candles], requests := s.requests + 1 })
          (rest.take (rest.length - cap)) (newest cap rest) (k :: ks ++ got)
          (by rw [← hsplit]) (by rw [hrange, ← hsplit]) hnil rfl hw'
        exact ⟨r, .next _ (batch_request symbol interval hc hlt hget) hr, hval⟩
      · -- no candle fits between the start and the oldest one
        have hnil : rest = [] := by
          cases rest with
          | nil => rfl
          | cons r rest =>
            have := hrest r (by simp)
            rw [oldest_end] at hlt
            omega
        refine ⟨_, .next _ (batch_done symbol interval hc hlt) (.stop _ (batch_empty symbol interval rfl)), ?_⟩
        rw [hrange, hnil, List.nil_append]
        exact hw'

end

/-- Every time `t` of the series is one that the conversion to milliseconds can
represent; what happens to others is a matter of the checked functions. -/
theorem getHistoricalPrices_written {U : JsonUtils} (hU : U.Lawful) {cap : Nat} (hcap : 1 ≤ cap) {series : List Kline}
    (hs : Spaced series) (symbol : String) (interval : CandleInterval) {startTime endTime : Int}
    (hlt : startTime < endTime) :
    ∃ fuel h, RESTClient.getHistoricalPrices U (exchange symbol interval cap series) symbol interval startTime endTime fuel =
        some (.ok h) ∧
      h.written.reverse.flatten = (inRange Kline.time startTime endTime series).map Kline.candle ∧
      h.written.reverse.flatten.map Candle.openTime =
        (inRange Kline.time startTime endTime series).map fun k => 1000 * k.time := by
  have hstart : RESTClient.start U (exchange symbol interval cap series) symbol interval startTime endTime = .ok {
      currentEndTime := endTime
      candles := (newest cap (inRange Kline.time startTime endTime series)).map Kline.candle
      retVal := [], written := [], requests := 1 } := by
    unfold RESTClient.start
    simp only [if_pos hlt, fetch_exchange hU]
    rfl
  have hsplit := newest_split cap (inRange Kline.time startTime endTime series)
  obtain ⟨r, ⟨fuel, hr⟩, hval⟩ := loop_written hU cap series symbol interval hs hcap _
    (s := { currentEndTime := endTime
            candles := (newest cap (inRange Kline.time startTime endTime series)).map Kline.candle
            retVal := [], written := [], requests := 1 })
    _ (newest cap (inRange Kline.time startTime endTime series)) [] rfl
    (by rw [List.append_nil]; exact hsplit) (fun hnil => by rw [newest_eq_nil hcap hnil, List.take_nil]) rfl rfl
  refine ⟨fuel, r, ?_, hval, ?_⟩
  · unfold RESTClient.getHistoricalPrices
    rw [hstart]
    exact hr
  · rw [hval, List.map_map]
    apply List.map_congr_left
    intro k _
    exact Int.mul_comm _ _

def flat (time : Int) (price : Int) : Kline where
  time := time
  «open» := .int price
  high := .int price
  low := .int price
  close := .int price
  vol := .int 1
  amount := .int price

theorem getHistoricalPrices_three :
    ∃ fuel h, RESTClient.getHistoricalPrices JsonUtils.plain
        (exchange "BTC_USDT" ._1m 1 [flat 60 10, flat 120 11, flat 300 12]) "BTC_USDT" ._1m 60 300 fuel = some (.ok h) ∧
      h.written.reverse.flatten =
        (inRange Kline.time 60 300 [flat 60 10, flat 120 11, flat 300 12]).map Kline.candle ∧
      h.written.reverse.flatten.map Candle.openTime =
        (inRange Kline.time 60 300 [flat 60 10, flat 120 11, flat 300 12]).map fun k => 1000 * k.time :=
  getHistoricalPrices_written JsonUtils.plain_lawful (Nat.le_refl 1) (by unfold Spaced; decide) "BTC_USDT" ._1m
    (by decide)

end Futures

end MexcApi
