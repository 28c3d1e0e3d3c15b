import MexcApi.DownloadsSound
import MexcApi.SpotHolesSound

/-!
# When the spot history stays in the range

All requests but the first one of a large range have the start of the range as
a bound. The first one asks for the newest `limit` candles, and these are all
in the range unless there are fewer in it and older ones before it.
-/

namespace MexcApi

open Nlohmann Windows

namespace Spot

namespace RESTClient

/-- What is returned and what the writer gets is in the range. -/
def StaysInRange (startTime endTime : Int) (h : History) : Prop :=
  (∀ c ∈ h.retVal, startTime ≤ c.openTime ∧ c.openTime ≤ endTime) ∧
  ∀ b ∈ h.written, ∀ c ∈ b, startTime ≤ c.openTime ∧ c.openTime ≤ endTime

section
variable {U : JsonUtils} (series : List (Kline U)) (symbol : String) (interval : CandleInterval)
  (startTime endTime : Int) (limit : Nat)

/-- The first request does not reach below the range. -/
def Reached : Prop :=
  endTime - startTime ≤ limit * interval.numberOfMsForCandleInterval ∨
  limit ≤ (inRange Kline.openTime startTime endTime series).length ∨ ∀ k ∈ series, startTime ≤ k.openTime

/-! ## The answers -/

variable {series interval startTime endTime limit}

theorem request_le (n : Nat) (stop : Int) (cs : List Candle)
    (h : request U (exchange symbol interval series) symbol interval startTime limit n stop = .ok cs) :
    ∀ c ∈ cs, c.openTime ≤ stop :=
  endBounded_exchange series symbol interval limit n _ stop cs h

theorem request_ge (hpos : 0 < startTime) (n : Nat) (stop : Int) (cs : List Candle) (hn : 0 < n)
    (h : request U (exchange symbol interval series) symbol interval startTime limit n stop = .ok cs) :
    ∀ c ∈ cs, startTime ≤ c.openTime := by
  rw [request_later _ _ _ _ _ _ (Nat.pos_iff_ne_zero.mp hn), fetch_from series symbol interval n (by omega)] at h
  cases h
  intro c hc
  obtain ⟨k, hk, rfl⟩ := List.mem_map.mp hc
  have := ((mem_inRange _).mp (List.mem_of_mem_take hk)).2.1
  show startTime ≤ k.openTime
  omega

theorem newest_ge_iff (hs : Ascending Kline.openTime series) (hle : startTime ≤ endTime) :
    (∀ k ∈ newest limit (upTo Kline.openTime endTime series), startTime ≤ k.openTime) ↔
      limit ≤ (inRange Kline.openTime startTime endTime series).length ∨ ∀ k ∈ series, startTime ≤ k.openTime := by
  constructor
  · intro hall
    obtain ⟨pre, hup, hpre, hmem⟩ := upTo_split Kline.openTime hle hs
    refine or_iff_not_imp_left.mpr fun hlt k hk => Int.not_lt.mp fun hlow => ?_
    -- the last candle before the range is one of the newest
    obtain ⟨init, last, hlast⟩ := (List.eq_nil_or_concat' pre).resolve_left (List.ne_nil_of_mem (hmem k hk hlow))
    have hin : last ∈ newest limit (upTo Kline.openTime endTime series) := by
      unfold newest
      rw [hup, hlast, List.append_assoc, List.drop_append_of_le_length]
      · simp
      · rw [List.length_append, List.length_append, List.length_singleton]
        omega
    have h1 := hall last hin
    have h2 := hpre last (by rw [hlast]; simp)
    omega
  · intro h k hk
    rw [newest_upTo hs hle h] at hk
    exact ((mem_inRange _).mp (List.mem_of_mem_drop hk)).2.1

theorem first_ge_iff (hs : Ascending Kline.openTime series) (hpos : 0 < startTime) (hle : startTime ≤ endTime) :
    (∀ cs, request U (exchange symbol interval series) symbol interval startTime limit 0 endTime = .ok cs →
      ∀ c ∈ cs, startTime ≤ c.openTime) ↔ Reached series interval startTime endTime limit := by
  unfold request Reached
  simp only [if_true]
  by_cases h : endTime - startTime ≤ limit * interval.numberOfMsForCandleInterval
  · rw [if_neg (by omega), fetch_from series symbol interval 0 hpos]
    refine iff_of_true (fun cs hcs c hc => ?_) (Or.inl h)
    cases hcs
    obtain ⟨k, hk, rfl⟩ := List.mem_map.mp hc
    exact ((mem_inRange _).mp (List.mem_of_mem_take hk)).2.1
  · rw [if_pos (by omega), fetch_newest series symbol interval, or_iff_right h, ← newest_ge_iff hs hle]
    constructor
    · intro hall k hk
      exact hall _ rfl k.value (List.mem_map_of_mem hk)
    · intro hall cs hcs c hc
      cases hcs
      obtain ⟨k, hk, rfl⟩ := List.mem_map.mp hc
      exact hall k hk

/-! ## The download -/

theorem staysInRange_iff (hs : Ascending Kline.openTime series) (hpos : 0 < startTime) (hle : startTime ≤ endTime)
    {fuel : Nat} {h : History}
    (hrun : download U (exchange symbol interval series) symbol interval startTime limit endTime fuel = some (.ok h)) :
    StaysInRange startTime endTime h ↔ Reached series interval startTime endTime limit := by
  have hI := interval.numberOfMs_pos
  have hwalk := download_walk U (exchange symbol interval series) symbol interval startTime limit hrun
  have hret := download_retVal U (exchange symbol interval series) symbol interval startTime limit hrun
  have hwanted : wanted startTime endTime = some endTime := if_pos hle
  rw [hwanted] at hwalk
  have hbelow : ∀ oldest stop, nextEnd interval startTime oldest = some stop → stop < oldest.openTime := by
    intro oldest stop hnext
    unfold nextEnd wanted at hnext
    split at hnext
    · cases hnext
      omega
    · cases hnext
  have hend := hwalk.le_first Candle.openTime hbelow (request_le symbol) endTime rfl
  rw [← first_ge_iff symbol hs hpos hle, ← hwalk.forall_iff _ (request_ge symbol hpos)]
  constructor
  · intro hstays b hb c hc
    exact (hstays.2 b hb c hc).1
  · intro hge
    have hwritten : ∀ b ∈ h.written, ∀ c ∈ b, startTime ≤ c.openTime ∧ c.openTime ≤ endTime :=
      fun b hb c hc => ⟨hge b hb c hc, hend b hb c hc⟩
    refine ⟨fun c hc => ?_, hwritten⟩
    rw [hret] at hc
    obtain ⟨b, hb, hcb⟩ := List.mem_flatten.mp hc
    exact hwritten b (List.mem_reverse.mp hb) c hcb

end

/-! ## The download of the client -/

theorem getHistoricalPrices_inRange_iff {U : JsonUtils} {series : List (Kline U)} (symbol : String)
    {interval : CandleInterval} {startTime endTime : Int}
    (hs : Apart Kline.openTime interval.numberOfMsForCandleInterval series)
    (hpos : 0 < startTime) (hle : startTime ≤ endTime) :
    ∃ fuel h, getHistoricalPrices U (exchange symbol interval series) symbol interval startTime endTime fuel = some (.ok h) ∧
      (StaysInRange startTime endTime h ↔ Reached series interval startTime endTime limit) := by
  have hlimit : 0 < limit := by decide
  obtain ⟨fuel, h, hrun, -⟩ := download_exhausted symbol hs hlimit hpos hle
  exact ⟨fuel, h, hrun,
    staysInRange_iff symbol (hs.ascending Kline.openTime interval.numberOfMs_pos) hpos hle hrun⟩

theorem getHistoricalPrices_inRange_minutes :
    ∃ fuel h, getHistoricalPrices JsonUtils.plain (exchange "BTCUSDT" ._1m (minutes 2)) "BTCUSDT" ._1m 60000 120000 fuel =
        some (.ok h) ∧
      (StaysInRange 60000 120000 h ↔ Reached (minutes 2) ._1m 60000 120000 limit) :=
  getHistoricalPrices_inRange_iff "BTCUSDT" (by unfold Apart; decide) (by decide) (by decide)

/-- The minute of 60 s, and the one of 120060 s. -/
def distant : List (Kline JsonUtils.plain) := [minute 0, minute 2000]

theorem distant_apart : Apart Kline.openTime (CandleInterval.numberOfMsForCandleInterval ._1m) distant := by
  unfold Apart distant
  decide

theorem getHistoricalPrices_below_range :
    Apart Kline.openTime (CandleInterval.numberOfMsForCandleInterval ._1m) distant ∧
    (∀ k ∈ distant, ∃ i : Int, k.openTime = i * CandleInterval.numberOfMsForCandleInterval ._1m) ∧
    ∃ fuel h, getHistoricalPrices JsonUtils.plain
      (exchange "BTCUSDT" ._1m distant) "BTCUSDT" ._1m 120000 120060000 fuel = some (.ok h) ∧
      ¬ StaysInRange 120000 120060000 h := by
  refine ⟨distant_apart, ?_, ?_⟩
  · intro k hk
    rcases List.mem_pair.mp hk with rfl | rfl
    · exact ⟨1, rfl⟩
    · exact ⟨2001, rfl⟩
  · have hlimit : 0 < limit := by decide
    have hpos : (0 : Int) < 120000 := by decide
    have hle : (120000 : Int) ≤ 120060000 := by decide
    obtain ⟨fuel, h, hrun, -⟩ := download_exhausted "BTCUSDT" distant_apart hlimit hpos hle
    refine ⟨fuel, h, hrun, fun hstays => ?_⟩
    have hasc := distant_apart.ascending Kline.openTime (by decide)
    rcases (staysInRange_iff "BTCUSDT" hasc hpos hle hrun).mp hstays with hsmall | hmany | hnone
    · exact absurd hsmall (by decide)
    · exact absurd hmany (by decide)
    · exact absurd (hnone (minute 0) (by simp [distant])) (by decide)

end RESTClient

end Spot

end MexcApi
