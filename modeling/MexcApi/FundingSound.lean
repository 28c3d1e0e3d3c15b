import MexcApi.DecimalText
import MexcApi.FuturesConnector
import MexcApi.Pages
import MexcApi.Windows
import Mathlib.Data.List.Sort

/-!
# The funding rate history

The exchange serves its rates, newest first, in pages addressed by index. The
pages of an unchanged list are its beginning, up to where the loop stops, and
nothing behind that is in the range. When rates are put in front of the list
between the requests, entries move to later pages: none is skipped, but some
are served twice.
-/

namespace MexcApi

open Nlohmann Windows Pages

namespace Futures

namespace Funding

/-- A decimal as the exchange sends it, as a number or as a text. -/
inductive Decimal where
  | number (n : Number)
  | text (d : DecimalText)

def Decimal.json : Decimal → Json
  | number n => .num n
  | text d => .str d.text

/-- Of a number there is what `std::to_string` keeps. -/
def Decimal.value : Decimal → ℚ
  | number n => toStringValue n.toRat
  | text d => d.value

/-- A rate that the exchange holds, and the object it is sent as, with any other members. -/
structure Rate where
  symbol : String
  fundingRate : Decimal
  settleTime : Int
  json : Json
  symbol_sent : json.find? "symbol" = some (.str symbol)
  fundingRate_sent : json.find? "fundingRate" = some fundingRate.json
  settleTime_sent : json.find? "settleTime" = some (.num (.int settleTime))

/-- The rate as the caller is to get it. -/
def Rate.returned (convertTo : ℚ → Double) (r : Rate) : FundingRate where
  symbol := r.symbol
  fundingRate := convertTo r.fundingRate.value
  fundingTime := r.settleTime

def totalPage (length size : Nat) : Nat := (length + size - 1) / size

def pageData (rates : List Rate) (req : FundingRateRequest) : Json := .obj [
  ("currentPage", .num (.int req.pageNum)),
  ("pageSize", .num (.int req.pageSize)),
  ("resultList", .arr ((page req.pageSize.toNat (req.pageNum.toNat - 1) rates).map (·.json))),
  ("totalCount", .num (.int rates.length)),
  ("totalPage", .num (.int (totalPage rates.length req.pageSize.toNat)))]

def pageReply (rates : List Rate) (req : FundingRateRequest) : Json :=
  .obj [("code", .num (.int 0)), ("data", pageData rates req), ("success", .bool true)]

def refusal : Json := .obj [("code", .num (.int 1001)), ("success", .bool false)]

/-- The endpoint, with the rates `lists k` of one symbol at request `k`. It
knows no other symbol. -/
def exchange (symbol : String) (lists : Nat → List Rate) : FundingServer := fun k req =>
  .ok { result := 200, body := "", json := some (if req.symbol = symbol then pageReply (lists k) req else refusal) }

/-! ## One page -/

def Rate.decoded (r : Rate) : HistoricalFundingRate :=
  { symbol := r.symbol, fundingRate := r.fundingRate.value, settleTime := r.settleTime }

section
variable {U : JsonUtils} (hU : U.Lawful) (hD : U.ReadsDecimals)

include hD in
theorem Decimal.read (d : Decimal) {json : Json} {key : String} (h : json.find? key = some d.json) :
    readDecimal U json key = .ok d.value := by
  unfold readDecimal
  rw [h]
  cases d with
  | number n => rfl
  | text d => exact hD d json key h

include hU hD

theorem fromJson_sent (r : Rate) : HistoricalFundingRate.fromJson U r.json = .ok r.decoded := by
  unfold HistoricalFundingRate.fromJson
  rw [hU.present _ _ r.symbol_sent nofun, r.fundingRate.read hD r.fundingRate_sent,
    hU.present _ _ r.settleTime_sent nofun]
  rfl

def Rate.encoded (r : Rate) : Encoded (HistoricalFundingRate.fromJson U) := ⟨r.json, r.decoded, fromJson_sent hU hD r⟩

theorem mapM_sent (rates : List Rate) :
    (rates.map (·.json)).mapM (HistoricalFundingRate.fromJson U) = .ok (rates.map Rate.decoded) := by
  have h := Encoded.mapM_json (rates.map (Rate.encoded hU hD))
  rwa [List.map_map, List.map_map] at h

theorem fromJson_pageReply (rates : List Rate) (req : FundingRateRequest) :
    HistoricalFundingRates.fromJson U (pageReply rates req) = .ok {
      code := 0, success := true, data := pageData rates req
      pageSize := req.pageSize, totalCount := rates.length, totalPage := totalPage rates.length req.pageSize.toNat
      currentPage := req.pageNum
      resultList := (page req.pageSize.toNat (req.pageNum.toNat - 1) rates).map Rate.decoded } := by
  have hread : ∀ (key : String) (n : Int), (pageData rates req).find? key = some (.num (.int n)) →
      U.readValue Json.getInt32 (pageData rates req) key (0 : Int) = .ok n :=
    fun key n h => hU.present _ _ h nofun
  have hsize := hread "pageSize" _ rfl
  have hcount := hread "totalCount" _ rfl
  have htotal := hread "totalPage" _ rfl
  have hcurrent := hread "currentPage" _ rfl
  have hlist : (pageData rates req).find? "resultList" =
      some (.arr ((page req.pageSize.toNat (req.pageNum.toNat - 1) rates).map (·.json))) := rfl
  unfold HistoricalFundingRates.fromJson
  rw [Response.fromJson_success hU rfl rfl (show (pageReply rates req).find? "data" = some (pageData rates req) from rfl)]
  simp only [bind, Except.bind, hsize, hcount, htotal, hcurrent, hlist, mapM_sent hU hD]
  rfl

theorem fetch_exchange (symbol : String) (lists : Nat → List Rate) (k : Nat) :
    ∃ data, RESTClient.getContractFundingRateHistory U (exchange symbol lists k) symbol (k + 1) pageSize = .ok {
      code := 0, success := true, data
      pageSize := pageSize, totalCount := (lists k).length, totalPage := totalPage (lists k).length pageSize
      currentPage := k + 1
      resultList := (page pageSize k (lists k)).map Rate.decoded } := by
  let req : FundingRateRequest := { symbol, pageNum := k + 1, pageSize := pageSize }
  have h : handleMEXCResponse (HistoricalFundingRates.fromJson U) HistoricalFundingRates.toResponse
      { result := 200, body := "", json := some (pageReply (lists k) req) } = _ :=
    handleMEXCResponse_ok rfl (fromJson_pageReply hU hD (lists k) req) rfl
  refine ⟨pageData (lists k) req, ?_⟩
  unfold RESTClient.getContractFundingRateHistory exchange
  simp only [bind, Except.bind, if_true, checkResponse_ok]
  rw [h]
  rfl

end

/-! ## One round -/

section
variable {U : JsonUtils} (lists : Nat → List Rate) (convertTo : ℚ → Double) (symbol : String)
  (startTime endTime : Int)

def selected (m : Nat) : List Rate := inRange Rate.settleTime startTime endTime (collect pageSize lists m)

def Finished (k : Nat) : Prop :=
  (lists k).length ≤ (k + 1) * pageSize ∨ page pageSize k (lists k) = [] ∨
    ∃ r ∈ (page pageSize k (lists k)).getLast?, r.settleTime < startTime

theorem totalPage_le {length k : Nat} : totalPage length pageSize ≤ k + 1 ↔ length ≤ (k + 1) * pageSize := by
  unfold totalPage pageSize
  omega

theorem selected_succ (m : Nat) : (selected lists startTime endTime (m + 1)).map (Rate.returned convertTo) =
    (selected lists startTime endTime m).map (Rate.returned convertTo) ++
      (((page pageSize m (lists m)).map Rate.decoded).filter fun r =>
        r.settleTime ≥ startTime ∧ r.settleTime ≤ endTime).map (toFundingRate convertTo) := by
  unfold selected
  rw [collect_succ, inRange_append, List.map_append, List.filter_map, List.map_map]
  rfl

/-- The pages so far, none of which was the last. -/
def Inv (s : Paging) : Prop :=
  s.pageNum = s.requests + 1 ∧ s.retVal = (selected lists startTime endTime s.requests).map (Rate.returned convertTo) ∧
    ∀ k < s.requests, ¬ Finished lists startTime k

def Post (s : Paging) : Prop :=
  ∃ m, s.requests = m + 1 ∧ s.retVal = (selected lists startTime endTime (m + 1)).map (Rate.returned convertTo) ∧
    Finished lists startTime m ∧ ∀ k < m, ¬ Finished lists startTime k

theorem fetchPage_spec (hU : U.Lawful) (hD : U.ReadsDecimals) {s : Paging} (h : Inv lists convertTo startTime endTime s) :
    (∃ s', fetchPage U convertTo (exchange symbol lists) symbol startTime endTime s = .ok (.next s') ∧
      Inv lists convertTo startTime endTime s' ∧ s'.requests = s.requests + 1 ∧
      (s.requests + 1) * pageSize < (lists s.requests).length) ∨
    ∃ r, fetchPage U convertTo (exchange symbol lists) symbol startTime endTime s = .ok (.stop r) ∧
      Post lists convertTo startTime endTime r := by
  obtain ⟨hnum, hret, hgo⟩ := h
  obtain ⟨data, hfetch⟩ := fetch_exchange hU hD symbol lists s.requests
  have hsel := selected_succ lists convertTo startTime endTime s.requests
  rw [← hret] at hsel
  have hcond : (decide ((s.requests : Int) + 1 ≥ (totalPage (lists s.requests).length pageSize : Int)) ||
      ((page pageSize s.requests (lists s.requests)).map Rate.decoded).isEmpty) = true ↔
      (lists s.requests).length ≤ (s.requests + 1) * pageSize ∨ page pageSize s.requests (lists s.requests) = [] := by
    have hle : (s.requests : Int) + 1 ≥ (totalPage (lists s.requests).length pageSize : Int) ↔
        totalPage (lists s.requests).length pageSize ≤ s.requests + 1 := by omega
    rw [Bool.or_eq_true, decide_eq_true_eq, List.isEmpty_iff, List.map_eq_nil_iff, hle, totalPage_le]
  unfold fetchPage
  rw [hnum]
  simp only [bind, Except.bind, hfetch]
  by_cases hlast : (lists s.requests).length ≤ (s.requests + 1) * pageSize ∨
      page pageSize s.requests (lists s.requests) = []
  · right
    rw [if_pos (hcond.mpr hlast), ← hsel]
    refine ⟨_, rfl, s.requests, rfl, rfl, ?_, hgo⟩
    rcases hlast with h | h
    · exact Or.inl h
    · exact Or.inr (Or.inl h)
  · rw [if_neg (fun h => hlast (hcond.mp h)), List.getLast?_map, ← hsel]
    have hmore : (s.requests + 1) * pageSize < (lists s.requests).length :=
      Nat.lt_of_not_le fun h => hlast (Or.inl h)
    cases hold : (page pageSize s.requests (lists s.requests)).getLast? with
    | none => exact absurd (Or.inr (List.getLast?_eq_none_iff.mp hold)) hlast
    | some oldest =>
      simp only [Option.map_some]
      by_cases hlt : oldest.decoded.settleTime < startTime
      · right
        rw [if_pos hlt]
        exact ⟨_, rfl, s.requests, rfl, rfl, Or.inr (Or.inr ⟨oldest, hold, hlt⟩), hgo⟩
      · left
        rw [if_neg hlt]
        refine ⟨_, rfl, ⟨by simp, rfl, ?_⟩, rfl, hmore⟩
        intro k hk
        rcases Nat.lt_succ_iff_lt_or_eq.mp hk with hk | rfl
        · exact hgo k hk
        · rintro (h | h | ⟨r, hr, hrlt⟩)
          · exact hlast (Or.inl h)
          · exact hlast (Or.inr h)
          · rw [hold] at hr
            cases hr
            exact hlt hrlt

theorem inv_start : Inv lists convertTo startTime endTime { pageNum := 1, retVal := [], requests := 0 } :=
  ⟨rfl, rfl, fun k hk => absurd hk (Nat.not_lt_zero k)⟩

theorem returns_of_bounded (hU : U.Lawful) (hD : U.ReadsDecimals) {n : Nat} (hn : ∀ k, (lists k).length ≤ n) :
    ∃ r, Loop.Returns (fetchPage U convertTo (exchange symbol lists) symbol startTime endTime)
      { pageNum := 1, retVal := [], requests := 0 } (.ok r) ∧ Post lists convertTo startTime endTime r := by
  refine Loop.returns_of_variant _ (fun s => n - s.requests) ?_ (inv_start lists convertTo startTime endTime)
  intro s hs
  rcases fetchPage_spec lists convertTo symbol startTime endTime hU hD hs with ⟨s', hs', hi, hreq, hmore⟩ | hstop
  · left
    refine ⟨s', hs', hi, ?_⟩
    have := hn s.requests
    unfold pageSize at hmore
    omega
  · exact Or.inr hstop

theorem post_of_run (hU : U.Lawful) (hD : U.ReadsDecimals) {fuel : Nat} {r : Except Fault Paging}
    (h : Loop.run (fetchPage U convertTo (exchange symbol lists) symbol startTime endTime) fuel
      { pageNum := 1, retVal := [], requests := 0 } = some r) :
    ∃ s, r = .ok s ∧ Post lists convertTo startTime endTime s := by
  refine Loop.run_spec _ ?_ (inv_start lists convertTo startTime endTime) h
  intro s hs
  rcases fetchPage_spec lists convertTo symbol startTime endTime hU hD hs with ⟨s', hs', hi, -⟩ | hstop
  · exact Or.inl ⟨s', hs', hi⟩
  · exact Or.inr hstop

/-! ## What is behind the last page -/

def Descending (l : List Rate) : Prop := l.Pairwise fun a b => b.settleTime < a.settleTime

variable {lists startTime}

theorem behind_last {m : Nat} (hdesc : Descending (lists m)) (hfin : Finished lists startTime m) :
    ∀ r ∈ (lists m).drop ((m + 1) * pageSize), r.settleTime < startTime := by
  intro r hr
  rcases hfin with hlen | hnil | ⟨oldest, hold, hlt⟩
  · rw [List.drop_eq_nil_of_le hlen] at hr
    cases hr
  · have hle := page_eq_nil pageSize (by decide) hnil
    rw [List.drop_eq_nil_of_le (by rw [Nat.succ_mul]; omega)] at hr
    cases hr
  · have hd : Descending ((lists m).drop (m * pageSize)) := List.Pairwise.sublist (List.drop_sublist ..) hdesc
    rw [drop_page] at hd
    have := (List.pairwise_append.mp hd).2.2 oldest (List.mem_of_getLast? hold) r hr
    omega

end

/-! ## The final sort -/

theorem sortRates_pairwise (l : List FundingRate) : (sortRates l).Pairwise fun a b => a.fundingTime ≤ b.fundingTime := by
  have htrans : ∀ a b c : FundingRate, decide (a.fundingTime ≤ b.fundingTime) = true →
      decide (b.fundingTime ≤ c.fundingTime) = true → decide (a.fundingTime ≤ c.fundingTime) = true := by
    intro a b c hab hbc
    simp only [decide_eq_true_eq] at *
    omega
  have htotal : ∀ a b : FundingRate, (decide (a.fundingTime ≤ b.fundingTime) || decide (b.fundingTime ≤ a.fundingTime)) =
      true := by
    intro a b
    simp only [Bool.or_eq_true, decide_eq_true_eq]
    omega
  exact (List.pairwise_mergeSort htrans htotal l).imp fun hab => by simpa using hab

theorem sortRates_perm (l : List FundingRate) : (sortRates l).Perm l := List.mergeSort_perm ..

theorem eq_of_fundingTime_eq {a b : FundingRate} : ∀ {l : List FundingRate},
    l.Pairwise (fun x y => y.fundingTime < x.fundingTime) → a ∈ l → b ∈ l → a.fundingTime = b.fundingTime → a = b
  | [], _, ha, _, _ => by cases ha
  | x :: l, h, ha, hb, heq => by
    obtain ⟨hx, hl⟩ := List.pairwise_cons.mp h
    rcases List.mem_cons.mp ha with hax | hal
    · rcases List.mem_cons.mp hb with hbx | hbl
      · rw [hax, hbx]
      · have := hx b hbl
        rw [hax] at heq
        omega
    · rcases List.mem_cons.mp hb with hbx | hbl
      · have := hx a hal
        rw [hbx] at heq
        omega
      · exact eq_of_fundingTime_eq hl hal hbl heq

theorem sortRates_descending {l : List FundingRate} (h : l.Pairwise fun a b => b.fundingTime < a.fundingTime) :
    sortRates l = l.reverse := by
  have hanti : ∀ a b, a ∈ sortRates l → b ∈ l.reverse → a.fundingTime ≤ b.fundingTime →
      b.fundingTime ≤ a.fundingTime → a = b := by
    intro a b ha hb hab hba
    exact eq_of_fundingTime_eq h ((sortRates_perm l).mem_iff.mp ha) (List.mem_reverse.mp hb) (by omega)
  have hreverse : l.reverse.Pairwise fun a b => a.fundingTime ≤ b.fundingTime := by
    rw [List.pairwise_reverse]
    exact h.imp fun hab => by omega
  exact List.Perm.eq_of_pairwise hanti (sortRates_pairwise l) hreverse
    ((sortRates_perm l).trans (List.reverse_perm l).symm)

/-! ## The funding rates of a call -/

/-- What a call returns while the exchange's list grows: rates of the range, and
all of them that were there at the first request, in ascending order. It
repeats at most as many times as rates were added between the requests. -/
structure Covered (lists : Nat → List Rate) (convertTo : ℚ → Double) (startTime endTime : Int)
    (s : Paging) : Prop where
  held : ∀ y ∈ s.retVal, ∃ k, ∃ x ∈ lists k, startTime ≤ x.settleTime ∧ x.settleTime ≤ endTime ∧ y = x.returned convertTo
  ascending : s.retVal.Pairwise fun a b => a.fundingTime ≤ b.fundingTime
  complete : ∀ x ∈ lists 0, startTime ≤ x.settleTime → x.settleTime ≤ endTime → x.returned convertTo ∈ s.retVal
  repeats : s.retVal.length ≤ (s.retVal.map (·.fundingTime)).dedup.length +
    ((lists (s.requests - 1)).length - (lists 0).length)

section
variable {U : JsonUtils} (hU : U.Lawful) (hD : U.ReadsDecimals) (convertTo : ℚ → Double) (symbol : String)
  (startTime endTime : Int)

include hU hD

theorem getHistoricalFundingRates_exact {rates : List Rate} (hdesc : Descending rates) :
    ∃ fuel s, getHistoricalFundingRates U convertTo (exchange symbol fun _ => rates) symbol startTime endTime fuel =
        some (.ok s) ∧
      s.retVal = (inRange Rate.settleTime startTime endTime rates).reverse.map (Rate.returned convertTo) ∧
      s.retVal.Pairwise fun a b => a.fundingTime < b.fundingTime := by
  obtain ⟨s, ⟨fuel, hrun⟩, m, -, hret, hfin, -⟩ := returns_of_bounded (fun _ => rates) convertTo symbol startTime
    endTime hU hD (fun _ => Nat.le_refl _)
  -- the pages read hold the whole range
  have hsel : selected (fun _ => rates) startTime endTime (m + 1) = inRange Rate.settleTime startTime endTime rates := by
    have hnil : inRange Rate.settleTime startTime endTime (rates.drop ((m + 1) * pageSize)) = [] :=
      inRange_eq_nil _ fun r hr => Or.inl (behind_last hdesc hfin r hr)
    unfold selected
    rw [collect_const]
    conv_rhs => rw [← List.take_append_drop ((m + 1) * pageSize) rates, inRange_append, hnil, List.append_nil]
  have hpw : ((inRange Rate.settleTime startTime endTime rates).map (Rate.returned convertTo)).Pairwise
      fun a b => b.fundingTime < a.fundingTime := by
    rw [List.pairwise_map]
    exact List.Pairwise.filter _ hdesc
  have hsort : sortRates s.retVal = ((inRange Rate.settleTime startTime endTime rates).map
      (Rate.returned convertTo)).reverse := by
    rw [hret, hsel]
    exact sortRates_descending hpw
  refine ⟨fuel, { s with retVal := sortRates s.retVal }, ?_, ?_, ?_⟩
  · unfold getHistoricalFundingRates
    rw [hrun]
    rfl
  · show sortRates s.retVal = _
    rw [hsort, List.map_reverse]
  · show (sortRates s.retVal).Pairwise _
    rw [hsort, List.pairwise_reverse]
    exact hpw

theorem run_cases {lists : Nat → List Rate} {fuel : Nat} {r : Except Fault Paging}
    (h : getHistoricalFundingRates U convertTo (exchange symbol lists) symbol startTime endTime fuel = some r) :
    ∃ s, r = .ok { s with retVal := sortRates s.retVal } ∧ Post lists convertTo startTime endTime s := by
  unfold getHistoricalFundingRates at h
  obtain ⟨r', hrun, rfl⟩ := Option.map_eq_some_iff.mp h
  obtain ⟨s, rfl, hpost⟩ := post_of_run lists convertTo symbol startTime endTime hU hD hrun
  exact ⟨s, rfl, hpost⟩

omit hU hD in
/-- Every rate of the first list that is in the range is on a page that was read. -/
theorem mem_selected {lists : Nat → List Rate} (hgrow : Grows lists) (hdesc : ∀ k, Descending (lists k)) {m : Nat}
    (hfin : Finished lists startTime m) {r : Rate} (hr : r ∈ lists 0) (hlo : startTime ≤ r.settleTime)
    (hhi : r.settleTime ≤ endTime) : r ∈ selected lists startTime endTime (m + 1) := by
  refine (mem_inRange _).mpr ⟨?_, hlo, hhi⟩
  rcases mem_collect_or pageSize hgrow hr m with hread | hbehind
  · exact hread
  · have := behind_last (hdesc m) hfin r hbehind
    omega

omit hU hD in
theorem selected_held {lists : Nat → List Rate} {m : Nat} {r : Rate} (hr : r ∈ selected lists startTime endTime m) :
    ∃ k, r ∈ lists k ∧ startTime ≤ r.settleTime ∧ r.settleTime ≤ endTime := by
  obtain ⟨hread, hlo, hhi⟩ := (mem_inRange _).mp hr
  obtain ⟨k, -, hpage⟩ := List.mem_flatMap.mp hread
  exact ⟨k, List.mem_of_mem_drop (List.mem_of_mem_take hpage), hlo, hhi⟩

omit hU hD in
theorem selected_dedup {lists : Nat → List Rate} (hgrow : Grows lists) (hdesc : ∀ k, Descending (lists k)) {m : Nat}
    (hgo : ∀ k < m, ¬ Finished lists startTime k) :
    ((selected lists startTime endTime (m + 1)).map (·.settleTime)).length ≤
      ((selected lists startTime endTime (m + 1)).map (·.settleTime)).dedup.length +
        ((lists m).length - (lists 0).length) := by
  have hfull : ∀ k < m, (k + 1) * pageSize < (lists k).length := by
    intro k hk
    exact Nat.lt_of_not_le fun hle => hgo k hk (Or.inl hle)
  have hnodup : ((lists 0).map (·.settleTime)).Nodup := by
    rw [List.Nodup, List.pairwise_map]
    exact (hdesc 0).imp fun hab => by omega
  have hall := length_collect_le_dedup pageSize Rate.settleTime hgrow hnodup hfull
  have hsel : (selected lists startTime endTime (m + 1)).map Rate.settleTime =
      ((collect pageSize lists (m + 1)).map Rate.settleTime).filter fun t => startTime ≤ t ∧ t ≤ endTime := by
    unfold selected inRange
    rw [List.filter_map]
    rfl
  show ((selected lists startTime endTime (m + 1)).map Rate.settleTime).length ≤ _
  rw [hsel]
  exact filter_length_le_dedup _ hall

theorem getHistoricalFundingRates_growing {lists : Nat → List Rate} (hgrow : Grows lists)
    (hdesc : ∀ k, Descending (lists k)) :
    (∀ fuel r, getHistoricalFundingRates U convertTo (exchange symbol lists) symbol startTime endTime fuel = some r →
      ∃ s, r = .ok s ∧ Covered lists convertTo startTime endTime s) ∧
    ∀ n, (∀ k, (lists k).length ≤ n) →
      ∃ fuel s, getHistoricalFundingRates U convertTo (exchange symbol lists) symbol startTime endTime fuel =
        some (.ok s) := by
  constructor
  · intro fuel r hrun
    obtain ⟨s, rfl, m, hreq, hret, hfin, hgo⟩ := run_cases hU hD convertTo symbol startTime endTime hrun
    refine ⟨_, rfl, ?_, sortRates_pairwise _, ?_, ?_⟩
    · intro y hy
      have hmem := (sortRates_perm s.retVal).mem_iff.mp hy
      rw [hret] at hmem
      obtain ⟨x, hx, rfl⟩ := List.mem_map.mp hmem
      obtain ⟨k, hk, hlo, hhi⟩ := selected_held startTime endTime hx
      exact ⟨k, x, hk, hlo, hhi, rfl⟩
    · intro x hx hlo hhi
      apply (sortRates_perm s.retVal).mem_iff.mpr
      rw [hret]
      exact List.mem_map_of_mem (mem_selected startTime endTime hgrow hdesc hfin hx hlo hhi)
    · have hdup := selected_dedup startTime endTime hgrow hdesc hgo
      have htimes : s.retVal.map (·.fundingTime) = (selected lists startTime endTime (m + 1)).map (·.settleTime) := by
        rw [hret, List.map_map]
        rfl
      have hperm := (sortRates_perm s.retVal).map (·.fundingTime)
      show (sortRates s.retVal).length ≤ ((sortRates s.retVal).map (·.fundingTime)).dedup.length +
        ((lists (s.requests - 1)).length - (lists 0).length)
      rw [(hperm.dedup).length_eq, htimes, hreq, Nat.add_sub_cancel, (sortRates_perm s.retVal).length_eq,
        ← List.length_map (·.fundingTime), htimes]
      exact hdup
  · intro n hn
    obtain ⟨s, ⟨fuel, hrun⟩, -⟩ := returns_of_bounded lists convertTo symbol startTime endTime hU hD hn
    refine ⟨fuel, { s with retVal := sortRates s.retVal }, ?_⟩
    unfold getHistoricalFundingRates
    rw [hrun]
    rfl

end

/-! ## A settlement between two pages -/

def settlement (k : Nat) : Rate where
  symbol := "BTC_USDT"
  fundingRate := .number (.float (k / 10000))
  settleTime := k
  json := .obj [("fundingRate", .num (.float (k / 10000))), ("settleTime", .num (.int k)), ("symbol", .str "BTC_USDT")]
  symbol_sent := rfl
  fundingRate_sent := rfl
  settleTime_sent := rfl

/-- The first `n` settlements, newest first. -/
def history : Nat → List Rate
  | 0 => []
  | n + 1 => settlement n :: history n

theorem mem_history {n : Nat} {r : Rate} : r ∈ history n ↔ ∃ k < n, settlement k = r := by
  induction n with
  | zero => simp [history]
  | succ n ih =>
    rw [history, List.mem_cons, ih]
    constructor
    · rintro (rfl | ⟨k, hk, rfl⟩)
      · exact ⟨n, Nat.lt_succ_self n, rfl⟩
      · exact ⟨k, Nat.lt_succ_of_lt hk, rfl⟩
    · rintro ⟨k, hk, rfl⟩
      rcases Nat.lt_succ_iff_lt_or_eq.mp hk with hk | rfl
      · exact Or.inr ⟨k, hk, rfl⟩
      · exact Or.inl rfl

theorem history_lt {n : Nat} : ∀ r ∈ history n, r.settleTime < n := by
  intro r hr
  obtain ⟨k, hk, rfl⟩ := mem_history.mp hr
  exact Int.ofNat_lt.mpr hk

theorem history_descending : ∀ n, Descending (history n)
  | 0 => List.Pairwise.nil
  | n + 1 => List.pairwise_cons.mpr ⟨history_lt, history_descending n⟩

theorem history_length : ∀ n, (history n).length = n
  | 0 => rfl
  | n + 1 => by rw [history, List.length_cons, history_length n]

theorem history_drop (n : Nat) : ∀ k, (history (k + n)).drop k = history n
  | 0 => by rw [Nat.zero_add]; rfl
  | k + 1 => by rw [Nat.succ_add, history, List.drop_succ_cons, history_drop n k]

theorem getHistoricalFundingRates_three :
    ∃ fuel s, getHistoricalFundingRates .signed Double.finite (exchange "BTC_USDT" fun _ => history 3) "BTC_USDT" 1 5 fuel =
        some (.ok s) ∧
      s.retVal = (inRange Rate.settleTime 1 5 (history 3)).reverse.map (Rate.returned Double.finite) ∧
      s.retVal.Pairwise fun a b => a.fundingTime < b.fundingTime :=
  getHistoricalFundingRates_exact JsonUtils.signed_lawful JsonUtils.signed_readsDecimals Double.finite
    "BTC_USDT" 1 5 (history_descending 3)

/-- 1001 settlements at the first request, one more from the second on. -/
def oneMore (k : Nat) : List Rate := if k = 0 then history 1001 else history 1002

theorem oneMore_grows : Grows oneMore
  | 0 => ⟨[settlement 1001], rfl⟩
  | k + 1 => ⟨[], by simp [oneMore]⟩

theorem oneMore_descending (k : Nat) : Descending (oneMore k) := by
  unfold oneMore
  split <;> exact history_descending _

theorem oneMore_length (k : Nat) : (oneMore k).length ≤ 1002 := by
  unfold oneMore
  split <;> rw [history_length]
  decide

theorem getHistoricalFundingRates_oneMore :
    (∀ fuel r, getHistoricalFundingRates .signed Double.finite (exchange "BTC_USDT" oneMore) "BTC_USDT" 0 2000 fuel =
        some r → ∃ s, r = .ok s ∧ Covered oneMore Double.finite 0 2000 s) ∧
    ∀ n, (∀ k, (oneMore k).length ≤ n) →
      ∃ fuel s, getHistoricalFundingRates .signed Double.finite (exchange "BTC_USDT" oneMore) "BTC_USDT" 0 2000 fuel =
        some (.ok s) :=
  getHistoricalFundingRates_growing JsonUtils.signed_lawful JsonUtils.signed_readsDecimals Double.finite
    "BTC_USDT" 0 2000 oneMore_grows
    oneMore_descending

theorem history_nonneg {n : Nat} : ∀ r ∈ history n, 0 ≤ r.settleTime := by
  intro r hr
  obtain ⟨k, -, rfl⟩ := mem_history.mp hr
  exact Int.natCast_nonneg k

theorem oneMore_finished {m : Nat} (hfin : Finished oneMore 0 m) (hgo : ∀ k < m, ¬ Finished oneMore 0 k) : m = 1 := by
  have h0 : ¬ Finished oneMore 0 0 := by
    rintro (hlen | hnil | ⟨r, hr, hlt⟩)
    · rw [show oneMore 0 = history 1001 from rfl, history_length] at hlen
      exact absurd hlen (by decide)
    · have hlen := page_eq_nil pageSize (by decide) hnil
      rw [show oneMore 0 = history 1001 from rfl, history_length] at hlen
      omega
    · have hmem : r ∈ history 1001 := List.mem_of_mem_drop (List.mem_of_mem_take (List.mem_of_getLast? hr))
      have := history_nonneg r hmem
      omega
  have h1 : Finished oneMore 0 1 := by
    left
    rw [show oneMore 1 = history 1002 from rfl, history_length]
    decide
  have hm0 : m ≠ 0 := fun h => h0 (h ▸ hfin)
  have hm1 : ¬ 1 < m := fun h => hgo 1 h h1
  omega

/-- The settlement 1 is the last entry of the first page, and after a new one the first of the second page. -/
theorem settlement_served_twice :
    settlement 1 ∈ page pageSize 0 (oneMore 0) ∧ settlement 1 ∈ page pageSize 1 (oneMore 1) := by
  constructor
  · have hmem : settlement 1 ∈ (history 1001).take 1000 ++ (history 1001).drop 1000 := by
      rw [List.take_append_drop]
      exact mem_history.mpr ⟨1, by decide, rfl⟩
    rcases List.mem_append.mp hmem with h | h
    · exact h
    · rw [history_drop 1 1000] at h
      have := history_lt _ h
      exact absurd this (by decide)
  · show settlement 1 ∈ ((history 1002).drop 1000).take 1000
    rw [history_drop 2 1000]
    show settlement 1 ∈ history 2
    exact mem_history.mpr ⟨1, by decide, rfl⟩

theorem funding_time_repeated :
    Grows oneMore ∧ (∀ k, Descending (oneMore k)) ∧
    ∃ fuel s, getHistoricalFundingRates .signed Double.finite (exchange "BTC_USDT" oneMore) "BTC_USDT" 0 2000 fuel =
        some (.ok s) ∧ ¬ (s.retVal.map (·.fundingTime)).Nodup := by
  refine ⟨oneMore_grows, oneMore_descending, ?_⟩
  obtain ⟨s, ⟨fuel, hrun⟩, m, -, hret, hfin, hgo⟩ := returns_of_bounded oneMore Double.finite "BTC_USDT" 0 2000
    JsonUtils.signed_lawful JsonUtils.signed_readsDecimals oneMore_length
  refine ⟨fuel, { s with retVal := sortRates s.retVal }, by unfold getHistoricalFundingRates; rw [hrun]; rfl, ?_⟩
  intro hnodup
  have hnodup' := ((sortRates_perm s.retVal).map (·.fundingTime)).nodup_iff.mp hnodup
  rw [hret, oneMore_finished hfin hgo, List.map_map] at hnodup'
  have hnd := List.Nodup.of_map _ hnodup'
  unfold selected at hnd
  rw [collect_succ, inRange_append] at hnd
  obtain ⟨h0, h1⟩ := settlement_served_twice
  have hfirst : settlement 1 ∈ inRange Rate.settleTime 0 2000 (collect pageSize oneMore 1) :=
    (mem_inRange _).mpr ⟨by rw [collect_succ]; exact List.mem_append_right _ h0, by decide, by decide⟩
  have hsecond : settlement 1 ∈ inRange Rate.settleTime 0 2000 (page pageSize 1 (oneMore 1)) :=
    (mem_inRange _).mpr ⟨h1, by decide, by decide⟩
  exact List.disjoint_of_nodup_append hnd hfirst hsecond

end Funding

end Futures

end MexcApi
