import MexcApi.FundingSound

/-!
# The page loop always ends

Each reply says anew how many pages there are. The loop goes on only from a
page whose number is smaller than that, so the page numbers stay below the
largest number the server has reported.
-/

namespace MexcApi

open Nlohmann

namespace Futures

section
variable (U : JsonUtils) (convertTo : ℚ → Double) (server : FundingServer) (symbol : String) (startTime endTime : Int)

def pageOf (s : Paging) : Except Fault HistoricalFundingRates :=
  RESTClient.getContractFundingRateHistory U (server s.requests) symbol s.pageNum pageSize

def firstPage : Paging := { pageNum := 1, retVal := [], requests := 0 }

/-- The states of a call in which a page is asked for. -/
def Asks : Paging → Prop := Loop.Reaches (fetchPage U convertTo server symbol startTime endTime) firstPage

/-- No reply of a call reports more than `most` pages. -/
def Reports (most : Int) : Prop :=
  ∀ s page, Asks U convertTo server symbol startTime endTime s → pageOf U server symbol s = .ok page →
    page.totalPage ≤ most

theorem fetchPage_next {s s' : Paging} (h : fetchPage U convertTo server symbol startTime endTime s = .ok (.next s')) :
    ∃ page, pageOf U server symbol s = .ok page ∧ s.pageNum < page.totalPage ∧
      s'.pageNum = s.pageNum + 1 ∧ s'.requests = s.requests + 1 := by
  unfold fetchPage at h
  obtain ⟨page, hpage, h⟩ := bind_ok h
  refine ⟨page, hpage, ?_⟩
  dsimp only at h
  split at h
  · cases h
  · rename_i hmore
    have hlt : s.pageNum < page.totalPage := by
      refine Int.not_le.mp fun hle => hmore ?_
      rw [Bool.or_eq_true, decide_eq_true_eq]
      exact Or.inl hle
    split at h
    · split at h
      · cases h
      · cases h
        exact ⟨hlt, rfl, rfl⟩
    · cases h
      exact ⟨hlt, rfl, rfl⟩

theorem fetchPage_stop {s r : Paging} (h : fetchPage U convertTo server symbol startTime endTime s = .ok (.stop r)) :
    r.requests = s.requests + 1 := by
  unfold fetchPage at h
  obtain ⟨page, -, h⟩ := bind_ok h
  dsimp only at h
  split at h
  · cases h
    rfl
  · split at h
    · split at h
      · cases h
        rfl
      · cases h
    · cases h

end

section
variable {U : JsonUtils} {convertTo : ℚ → Double} {server : FundingServer} {symbol : String} {startTime endTime : Int}

theorem asks_pageNum {s : Paging} (h : Asks U convertTo server symbol startTime endTime s) : s.pageNum = s.requests + 1 := by
  induction h with
  | refl => rfl
  | next _ hnext ih =>
    obtain ⟨page, -, -, hnum, hrequests⟩ := fetchPage_next U convertTo server symbol startTime endTime hnext
    omega

/-- Every page but the first is asked for because a reply has reported it. -/
theorem asks_le {most : Int} (hmost : Reports U convertTo server symbol startTime endTime most) {s : Paging}
    (h : Asks U convertTo server symbol startTime endTime s) : s.pageNum ≤ max 1 most := by
  cases h with
  | refl => exact le_max_left 1 most
  | next ht hnext =>
    obtain ⟨page, hpage, hlt, hnum, -⟩ := fetchPage_next U convertTo server symbol startTime endTime hnext
    have := hmost _ page ht hpage
    omega

theorem requests_le {most : Int} (hmost : Reports U convertTo server symbol startTime endTime most) {fuel : Nat}
    {r : Paging} (h : getHistoricalFundingRates U convertTo server symbol startTime endTime fuel = some (.ok r)) :
    (r.requests : Int) ≤ max 1 most := by
  have hstop : ∀ s r : Paging, Asks U convertTo server symbol startTime endTime s →
      fetchPage U convertTo server symbol startTime endTime s = .ok (.stop r) → (r.requests : Int) ≤ max 1 most := by
    intro s r hs hr
    have hle := asks_le hmost hs
    have hnum := asks_pageNum hs
    have hrequests := fetchPage_stop U convertTo server symbol startTime endTime hr
    omega
  unfold getHistoricalFundingRates at h
  obtain ⟨outcome, hrun, hr⟩ := Option.map_eq_some_iff.mp h
  cases outcome with
  | error e => cases hr
  | ok s =>
    cases hr
    have hnext : ∀ s s' : Paging, Asks U convertTo server symbol startTime endTime s →
        fetchPage U convertTo server symbol startTime endTime s = .ok (.next s') →
        Asks U convertTo server symbol startTime endTime s' := fun _ _ hs hs' => hs.next hs'
    have hfirst : Asks U convertTo server symbol startTime endTime firstPage := .refl
    have hle : (s.requests : Int) ≤ max 1 most := Loop.run_inv _ hnext hstop hfirst hrun
    exact hle

/-- The loop ends because the page numbers do not go beyond an int32. -/
theorem loop_ends (hint32 : Reports U convertTo server symbol startTime endTime 2147483647) :
    ∃ r, Loop.Returns (fetchPage U convertTo server symbol startTime endTime) firstPage r := by
  have hfirst : Asks U convertTo server symbol startTime endTime firstPage := .refl
  refine Loop.ends_of_variant _ (fun s : Paging => (2147483647 - s.pageNum).toNat) (fun s s' hs hnext => ?_) hfirst
  have hs' : Asks U convertTo server symbol startTime endTime s' := hs.next hnext
  obtain ⟨page, -, -, hnum, -⟩ := fetchPage_next U convertTo server symbol startTime endTime hnext
  have hle := asks_le hint32 hs'
  refine ⟨hs', ?_⟩
  show (2147483647 - s'.pageNum).toNat < (2147483647 - s.pageNum).toNat
  omega

end

theorem getHistoricalFundingRates_ends (U : JsonUtils) (convertTo : ℚ → Double) {server : FundingServer} {symbol : String}
    {startTime endTime : Int} (hint32 : Reports U convertTo server symbol startTime endTime 2147483647) :
    (∃ fuel r, getHistoricalFundingRates U convertTo server symbol startTime endTime fuel = some r) ∧
    (∀ s, Asks U convertTo server symbol startTime endTime s → 1 ≤ s.pageNum ∧ s.pageNum ≤ 2147483647) ∧
    ∀ most, Reports U convertTo server symbol startTime endTime most →
      (∀ s, Asks U convertTo server symbol startTime endTime s → ((s.requests + 1 : Nat) : Int) ≤ max 1 most) ∧
      ∀ fuel r, getHistoricalFundingRates U convertTo server symbol startTime endTime fuel = some (.ok r) →
        (r.requests : Int) ≤ max 1 most := by
  refine ⟨?_, fun s hs => ?_, fun most hmost => ⟨fun s hs => ?_, fun fuel r => requests_le hmost⟩⟩
  · obtain ⟨r, fuel, hrun⟩ := loop_ends hint32
    refine ⟨fuel, r.map fun s => { s with retVal := sortRates s.retVal }, ?_⟩
    unfold getHistoricalFundingRates
    exact congrArg (Option.map _) hrun
  · have hnum := asks_pageNum hs
    have hle := asks_le hint32 hs
    omega
  · have hnum := asks_pageNum hs
    have hle := asks_le hmost hs
    omega

def threePages : FundingServer := fun _ _ => .ok { result := 200, body := "", json := some (.obj [
  ("code", .num (.int 0)),
  ("data", .obj [("resultList", .arr [(Funding.settlement 7).json]), ("totalPage", .num (.int 3))]),
  ("success", .bool true)]) }

theorem threePages_reports {startTime endTime : Int} {most : Int} (h : 3 ≤ most) :
    Reports JsonUtils.plain .finite threePages "BTC_USDT" startTime endTime most := by
  intro s page _ hpage
  cases hpage
  exact h

theorem getHistoricalFundingRates_ends_three :
    (∃ fuel r, getHistoricalFundingRates JsonUtils.plain .finite threePages "BTC_USDT" 0 9 fuel = some r) ∧
    (∀ s, Asks JsonUtils.plain .finite threePages "BTC_USDT" 0 9 s → 1 ≤ s.pageNum ∧ s.pageNum ≤ 2147483647) ∧
    ∀ most, Reports JsonUtils.plain .finite threePages "BTC_USDT" 0 9 most →
      (∀ s, Asks JsonUtils.plain .finite threePages "BTC_USDT" 0 9 s → ((s.requests + 1 : Nat) : Int) ≤ max 1 most) ∧
      ∀ fuel r, getHistoricalFundingRates JsonUtils.plain .finite threePages "BTC_USDT" 0 9 fuel = some (.ok r) →
        (r.requests : Int) ≤ max 1 most :=
  getHistoricalFundingRates_ends JsonUtils.plain .finite (threePages_reports (by decide))

end Futures

end MexcApi
