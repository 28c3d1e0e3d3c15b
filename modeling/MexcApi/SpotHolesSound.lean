import MexcApi.Live
import MexcApi.SpotHistorySound

/-!
# When an empty window is the end of the history

Every request after the first one asks for a window of `limit` intervals, and
the first empty answer ends the download. The window before a candle is empty
although the range is not exhausted when the hole before that candle is wider
than the window.
-/

namespace MexcApi

open Nlohmann Windows

namespace Spot

namespace RESTClient

section
variable {U : JsonUtils} (series : List (Kline U)) (symbol : String) (interval : CandleInterval)
  (startTime endTime : Int) (limit : Nat)

/-- Up to `stop`, holes in the range are at most as wide as a window reaches. -/
def BridgedUpTo (stop : Int) : Prop :=
  ∀ y x, Adjacent series y x → startTime ≤ y.openTime → x.openTime ≤ stop →
    x.openTime - y.openTime ≤ (limit + 1) * interval.numberOfMsForCandleInterval

/-- The hole before a candle is at most as wide as a window reaches, unless the
first request covers it. -/
def Bridged : Prop :=
  ∀ y x, Adjacent series y x → startTime ≤ y.openTime → x.openTime ≤ endTime →
    limit ≤ (inRange Kline.openTime x.openTime endTime series).length →
    x.openTime - y.openTime ≤ (limit + 1) * interval.numberOfMsForCandleInterval

/-- What the series has in the window that is requested before `k`. -/
def window (k : Kline U) : List (Kline U) :=
  inRange Kline.openTime (max startTime (k.openTime - interval.numberOfMsForCandleInterval -
    limit * interval.numberOfMsForCandleInterval)) (k.openTime - interval.numberOfMsForCandleInterval) series

/-- Before the last round the holes up to the oldest candle decide, after it
the time the loop is left with. -/
def Deciding (goal : Prop) (s : History) : Prop :=
  (∃ (k : Kline U) (ks : List (Kline U)), s.candles = (k :: ks).map (·.value) ∧ k ∈ series ∧
    (BridgedUpTo series interval startTime limit k.openTime ↔ goal)) ∨
  s.candles = [] ∧ (inRange Kline.openTime startTime s.currentEndTime series = [] ↔ goal)

/-! ## The window before a candle -/

theorem reach_eq (interval : CandleInterval) (limit : Nat) : ((limit : Int) + 1) * interval.numberOfMsForCandleInterval =
    limit * interval.numberOfMsForCandleInterval + interval.numberOfMsForCandleInterval := by ring

variable {series startTime}

theorem bridged_of_exhausted (hs : Apart Kline.openTime interval.numberOfMsForCandleInterval series) {k : Kline U}
    (hk : k ∈ series)
    (hnone : inRange Kline.openTime startTime (k.openTime - interval.numberOfMsForCandleInterval) series = []) :
    BridgedUpTo series interval startTime limit k.openTime := by
  have hI := interval.numberOfMs_pos
  intro y x hadj hstart hx
  have hlt := hadj.lt Kline.openTime (hs.ascending Kline.openTime hI)
  have hgap := hs.le_of_lt Kline.openTime hI hadj.left_mem hk (by omega)
  have hmem : y ∈ inRange Kline.openTime startTime (k.openTime - interval.numberOfMsForCandleInterval) series :=
    (mem_inRange _).mpr ⟨hadj.left_mem, hstart, by omega⟩
  rw [hnone] at hmem
  cases hmem

/-- An empty window in a range that is not exhausted is a hole too wide. -/
theorem exhausted_of_bridged (hs : Apart Kline.openTime interval.numberOfMsForCandleInterval series) {k : Kline U}
    (hk : k ∈ series) (hwin : window series interval startTime limit k = [])
    (hb : BridgedUpTo series interval startTime limit k.openTime) :
    inRange Kline.openTime startTime (k.openTime - interval.numberOfMsForCandleInterval) series = [] := by
  have hI := interval.numberOfMs_pos
  have hasc := hs.ascending Kline.openTime hI
  apply inRange_eq_nil
  intro z hz
  refine Classical.byContradiction fun hn => ?_
  obtain ⟨y, hadj, hzy⟩ := exists_adjacent Kline.openTime hasc hz hk (by omega)
  have hgap := hs.le_of_lt Kline.openTime hI hadj.left_mem hk (hadj.lt Kline.openTime hasc)
  have hwide := hb y k hadj (by omega) (le_refl _)
  rw [reach_eq] at hwide
  have hmem : y ∈ window series interval startTime limit k :=
    (mem_inRange _).mpr ⟨hadj.left_mem, by omega, by omega⟩
  rw [hwin] at hmem
  cases hmem

/-- A window with a candle in it has no hole that is too wide. -/
theorem bridged_window (hs : Apart Kline.openTime interval.numberOfMsForCandleInterval series) {k k' : Kline U}
    (hk' : k' ∈ window series interval startTime limit k) :
    BridgedUpTo series interval startTime limit k.openTime ↔ BridgedUpTo series interval startTime limit k'.openTime := by
  have hI := interval.numberOfMs_pos
  obtain ⟨hmem, hlo, hhi⟩ := (mem_inRange _).mp hk'
  constructor
  · intro hb y x hadj hstart hx
    exact hb y x hadj hstart (by omega)
  · intro hb y x hadj hstart hx
    by_cases hxk : x.openTime ≤ k'.openTime
    · exact hb y x hadj hstart hxk
    · have hle := hadj.le_of_lt Kline.openTime (hs.ascending Kline.openTime hI) hmem (by omega)
      rw [reach_eq]
      omega

/-! ## The loop -/

theorem deciding_batch (hs : Apart Kline.openTime interval.numberOfMsForCandleInterval series) (hlimit : 0 < limit)
    (hpos : 0 < startTime) {goal : Prop} (s : History) (h : Deciding series interval startTime limit goal s) :
    (∃ s', batch U (exchange symbol interval series) symbol interval startTime limit s = .ok (.next s') ∧
      Deciding series interval startTime limit goal s' ∧
      remaining Candle.openTime (series.map (·.value)) s'.candles <
        remaining Candle.openTime (series.map (·.value)) s.candles) ∨
    ∃ r, batch U (exchange symbol interval series) symbol interval startTime limit s = .ok (.stop r) ∧
      (inRange Kline.openTime startTime r.currentEndTime series = [] ↔ goal) := by
  have hI := interval.numberOfMs_pos
  rcases h with ⟨k, ks, hc, hk, hgoal⟩ | ⟨hc, hgoal⟩
  · left
    have hmemk : k.value ∈ series.map (·.value) := List.mem_map_of_mem hk
    by_cases hle : startTime ≤ k.openTime - interval.numberOfMsForCandleInterval
    · have hwin : 0 < max startTime (k.openTime - interval.numberOfMsForCandleInterval -
          limit * interval.numberOfMsForCandleInterval) := by omega
      have hget : _ = Except.ok (((window series interval startTime limit k).take limit).map (·.value)) :=
        fetch_from series symbol interval s.requests hwin (k.openTime - interval.numberOfMsForCandleInterval) limit
      have hless : remaining Candle.openTime (series.map (·.value))
          (((window series interval startTime limit k).take limit).map (·.value)) <
          remaining Candle.openTime (series.map (·.value)) s.candles := by
        rw [hc]
        refine remaining_next Candle.openTime hmemk fun c hcs => ?_
        have := endBounded_exchange series symbol interval limit _ _ _ _ hget c hcs
        show c.openTime < k.openTime
        omega
      refine ⟨_, batch_request U _ symbol interval startTime limit hc hle hget, ?_, hless⟩
      cases hW : window series interval startTime limit k with
      | nil =>
        refine Or.inr ⟨by simp, ?_⟩
        rw [← hgoal]
        exact ⟨bridged_of_exhausted interval limit hs hk, exhausted_of_bridged interval limit hs hk hW⟩
      | cons k' ks' =>
        obtain ⟨m, rfl⟩ : ∃ m, limit = m + 1 := ⟨limit - 1, by omega⟩
        have hk' : k' ∈ window series interval startTime (m + 1) k := by rw [hW]; exact List.mem_cons_self
        refine Or.inl ⟨k', ks'.take m, rfl, ((mem_inRange _).mp hk').1, ?_⟩
        rw [← bridged_window interval (m + 1) hs hk']
        exact hgoal
    · have hless : remaining Candle.openTime (series.map (·.value)) [] <
          remaining Candle.openTime (series.map (·.value)) s.candles := by
        rw [hc]
        exact remaining_next Candle.openTime hmemk (List.forall_mem_nil _)
      refine ⟨_, batch_done U _ symbol interval startTime limit hc hle, Or.inr ⟨rfl, ?_⟩, hless⟩
      have hnone : inRange Kline.openTime startTime (k.openTime - interval.numberOfMsForCandleInterval) series = [] := by
        apply inRange_eq_nil
        intro z _
        omega
      rw [← hgoal]
      exact ⟨fun _ => bridged_of_exhausted interval limit hs hk hnone, fun _ => hnone⟩
  · exact Or.inr ⟨s, batch_nil U _ symbol interval startTime limit hc, hgoal⟩

/-! ## The first request -/

variable {interval endTime limit}

theorem bridged_of_first (hs : Apart Kline.openTime interval.numberOfMsForCandleInterval series) {k : Kline U}
    {ks : List (Kline U)} (hrange : inRange Kline.openTime startTime endTime series = k :: ks) :
    BridgedUpTo series interval startTime limit k.openTime := by
  have hI := interval.numberOfMs_pos
  have hasc := hs.ascending Kline.openTime hI
  have hk : k ∈ inRange Kline.openTime startTime endTime series := by rw [hrange]; exact List.mem_cons_self
  have hhi := ((mem_inRange _).mp hk).2.2
  apply bridged_of_exhausted interval limit hs ((mem_inRange _).mp hk).1
  rw [inRange_before Kline.openTime (a := []) hasc hrange (le_refl _) (by omega)]
  rfl

theorem deciding_small (hs : Apart Kline.openTime interval.numberOfMsForCandleInterval series) (hlimit : 0 < limit)
    (h : endTime - startTime ≤ limit * interval.numberOfMsForCandleInterval) {s : History}
    (hc : s.candles = ((inRange Kline.openTime startTime endTime series).take limit).map (·.value))
    (hend : s.currentEndTime = endTime) :
    Deciding series interval startTime limit (Bridged series interval startTime endTime limit) s := by
  have hI := interval.numberOfMs_pos
  have hb : Bridged series interval startTime endTime limit := by
    intro y x _ hstart hx _
    rw [reach_eq]
    omega
  cases hR : inRange Kline.openTime startTime endTime series with
  | nil =>
    rw [hR, List.take_nil, List.map_nil] at hc
    refine Or.inr ⟨hc, ?_⟩
    rw [hend]
    exact ⟨fun _ => hb, fun _ => hR⟩
  | cons k ks =>
    obtain ⟨m, rfl⟩ : ∃ m, limit = m + 1 := ⟨limit - 1, by omega⟩
    rw [hR] at hc
    have hk : k ∈ inRange Kline.openTime startTime endTime series := by rw [hR]; exact List.mem_cons_self
    exact Or.inl ⟨k, ks.take m, hc, ((mem_inRange _).mp hk).1, fun _ => hb, fun _ => bridged_of_first hs hR⟩

/-- The first request without a start covers the newest `limit` candles. -/
theorem deciding_large (hs : Apart Kline.openTime interval.numberOfMsForCandleInterval series) (hlimit : 0 < limit)
    {s : History} (hc : s.candles = (newest limit (upTo Kline.openTime endTime series)).map (·.value))
    (hend : s.currentEndTime = endTime) :
    Deciding series interval startTime limit (Bridged series interval startTime endTime limit) s := by
  have hasc := hs.ascending Kline.openTime interval.numberOfMs_pos
  cases hB : newest limit (upTo Kline.openTime endTime series) with
  | nil =>
    have hnone : ∀ x ∈ series, endTime < x.openTime := by
      intro x hx
      have hup := newest_eq_nil hlimit hB
      unfold upTo at hup
      rw [List.filter_eq_nil_iff] at hup
      simpa using hup x hx
    rw [hB] at hc
    refine Or.inr ⟨hc, ?_⟩
    rw [hend, inRange_eq_nil Kline.openTime fun x hx => Or.inr (hnone x hx)]
    refine ⟨fun _ y x hadj _ hx _ => ?_, fun _ => rfl⟩
    have := hnone x hadj.right_mem
    omega
  | cons k ks =>
    have hk : k ∈ upTo Kline.openTime endTime series := by
      have hmem : k ∈ newest limit (upTo Kline.openTime endTime series) := by rw [hB]; exact List.mem_cons_self
      exact List.mem_of_mem_drop hmem
    obtain ⟨hmem, hhi⟩ := List.mem_filter.mp hk
    simp only [decide_eq_true_eq] at hhi
    rw [hB] at hc
    refine Or.inl ⟨k, ks, hc, hmem, ?_⟩
    constructor
    · intro hb y x hadj hstart hx hn
      have hlt := hadj.lt Kline.openTime hasc
      exact hb y x hadj hstart ((newest_front Kline.openTime hasc hB hx hadj.left_mem hlt).mpr hn)
    · intro hb y x hadj hstart hx
      have hlt := hadj.lt Kline.openTime hasc
      have hxe : x.openTime ≤ endTime := by omega
      exact hb y x hadj hstart hxe ((newest_front Kline.openTime hasc hB hxe hadj.left_mem hlt).mp hx)

theorem download_exhausted (hs : Apart Kline.openTime interval.numberOfMsForCandleInterval series) (hlimit : 0 < limit)
    (hpos : 0 < startTime) (hle : startTime ≤ endTime) :
    ∃ fuel h, download U (exchange symbol interval series) symbol interval startTime limit endTime fuel = some (.ok h) ∧
      (inRange Kline.openTime startTime h.currentEndTime series = [] ↔
        Bridged series interval startTime endTime limit) := by
  obtain ⟨s, hstart, hd⟩ : ∃ s, start U (exchange symbol interval series) symbol interval startTime limit endTime = .ok s ∧
      Deciding series interval startTime limit (Bridged series interval startTime endTime limit) s := by
    by_cases h : endTime - startTime ≤ limit * interval.numberOfMsForCandleInterval
    · exact ⟨_, start_small series symbol interval startTime endTime limit hpos hle h, deciding_small hs hlimit h rfl rfl⟩
    · exact ⟨_, start_large series symbol interval startTime endTime limit hle h, deciding_large hs hlimit rfl rfl⟩
  obtain ⟨h, ⟨fuel, hrun⟩, hex⟩ := Loop.returns_of_variant
    (batch U (exchange symbol interval series) symbol interval startTime limit)
    (fun s => remaining Candle.openTime (series.map (·.value)) s.candles)
    (deciding_batch symbol interval limit hs hlimit hpos) hd
  refine ⟨fuel, h, ?_, hex⟩
  unfold download
  rw [hstart]
  exact hrun

end

/-! ## The download of the client -/

theorem getHistoricalPrices_exhausted_iff {U : JsonUtils} {series : List (Kline U)} (symbol : String)
    {interval : CandleInterval} {startTime endTime : Int}
    (hs : Apart Kline.openTime interval.numberOfMsForCandleInterval series)
    (hpos : 0 < startTime) (hle : startTime ≤ endTime) :
    ∃ fuel h, getHistoricalPrices U (exchange symbol interval series) symbol interval startTime endTime fuel = some (.ok h) ∧
      (inRange Kline.openTime startTime h.currentEndTime series = [] ↔
        Bridged series interval startTime endTime limit) :=
  download_exhausted symbol hs (by decide) hpos hle

theorem getHistoricalPrices_exhausted_minutes :
    ∃ fuel h, getHistoricalPrices JsonUtils.plain (exchange "BTCUSDT" ._1m (minutes 2)) "BTCUSDT" ._1m 60000 120000 fuel =
        some (.ok h) ∧
      (inRange Kline.openTime 60000 h.currentEndTime (minutes 2) = [] ↔ Bridged (minutes 2) ._1m 60000 120000 limit) :=
  getHistoricalPrices_exhausted_iff "BTCUSDT" (by unfold Apart; decide) (by decide) (by decide)

/-- A minute, a halt of 2000 minutes, and 1000 minutes after it. -/
def halted : List (Kline JsonUtils.plain) := minute 0 :: (List.range 1000).map fun i => minute (i + 2000)

theorem mem_halted {k : Kline JsonUtils.plain} (hk : k ∈ halted) :
    k = minute 0 ∨ ∃ i < 1000, k = minute (i + 2000) := by
  rcases List.mem_cons.mp hk with rfl | hk
  · exact Or.inl rfl
  · obtain ⟨i, hi, rfl⟩ := List.mem_map.mp hk
    exact Or.inr ⟨i, List.mem_range.mp hi, rfl⟩

theorem minute_time (i : Nat) : (minute i).openTime = 60000 * (i + 1) := rfl

theorem halted_apart : Apart Kline.openTime (CandleInterval.numberOfMsForCandleInterval ._1m) halted := by
  have hms : CandleInterval.numberOfMsForCandleInterval ._1m = 60000 := rfl
  refine List.pairwise_cons.mpr ⟨?_, ?_⟩
  · intro k hk
    obtain ⟨i, hi, rfl⟩ := List.mem_map.mp hk
    rw [hms, minute_time, minute_time]
    push_cast
    omega
  · rw [List.pairwise_map]
    refine List.pairwise_lt_range.imp fun {i j} hij => ?_
    rw [hms, minute_time, minute_time]
    push_cast
    omega

theorem after_halt {k : Kline JsonUtils.plain} (hk : k ∈ (List.range 1000).map fun i => minute (i + 2000)) :
    120060000 ≤ k.openTime ∧ k.openTime ≤ 180000000 := by
  obtain ⟨i, hi, rfl⟩ := List.mem_map.mp hk
  have := List.mem_range.mp hi
  rw [minute_time]
  push_cast
  omega

theorem halted_adjacent : Adjacent halted (minute 0) (minute 2000) := by
  refine ⟨[], (List.range 999).map fun i => minute (i + 2001), ?_⟩
  rw [halted, List.range_succ_eq_map, List.map_cons, List.map_map]
  rfl

theorem halted_not_bridged : ¬ Bridged halted ._1m 60000 180000000 limit := by
  intro hb
  have hfirst : inRange Kline.openTime 120060000 180000000 [minute 0] = [] := by
    apply inRange_eq_nil
    intro k hk
    rw [List.mem_singleton.mp hk]
    exact Or.inl (by decide)
  have hlast := inRange_eq_self Kline.openTime fun k => after_halt (k := k)
  have hcount : limit ≤ (inRange Kline.openTime 120060000 180000000 halted).length := by
    rw [halted, ← List.singleton_append, inRange_append, hfirst, hlast, List.nil_append, List.length_map,
      List.length_range, limit]
  have hwide := hb _ _ halted_adjacent (by decide) (by decide) hcount
  exact absurd hwide (by decide)

/-- The download ends at the halt, although a candle of the range lies before it. -/
theorem getHistoricalPrices_stops_early :
    Apart Kline.openTime (CandleInterval.numberOfMsForCandleInterval ._1m) halted ∧ (∀ k ∈ halted, 60000 ∣ k.openTime) ∧
    ∃ fuel h, getHistoricalPrices JsonUtils.plain
      (exchange "BTCUSDT" ._1m halted) "BTCUSDT" ._1m 60000 180000000 fuel = some (.ok h) ∧
      inRange Kline.openTime 60000 h.currentEndTime halted ≠ [] := by
  refine ⟨halted_apart, fun k hk => ?_, ?_⟩
  · rcases mem_halted hk with rfl | ⟨i, -, rfl⟩
    · exact ⟨_, minute_time 0⟩
    · exact ⟨_, minute_time _⟩
  · have hlimit : 0 < limit := by decide
    have hpos : (0 : Int) < 60000 := by decide
    have hle : (60000 : Int) ≤ 180000000 := by decide
    obtain ⟨fuel, h, hrun, hex⟩ := download_exhausted "BTCUSDT" halted_apart hlimit hpos hle
    exact ⟨fuel, h, hrun, fun hnil => halted_not_bridged (hex.mp hnil)⟩

end RESTClient

end Spot

end MexcApi
