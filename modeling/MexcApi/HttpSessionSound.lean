import MexcApi.HttpSession
import MexcApi.Separated

/-!
# When a query string is read back

Nothing is escaped: a name with one of the symbols that the query is built
with, or a value with the separator, is read back as other parameters.
-/

namespace MexcApi


/-- No name has `&` or `=` in it, and no value has `&`. -/
def Clean (parameters : Parameters) : Prop :=
  ∀ p ∈ parameters.entries, Separated.Clean '&' '=' (p.1.toList, p.2.toList)

def toChars (p : String × String) : Separated.Pair Char := (p.1.toList, p.2.toList)

def ofChars (p : Separated.Pair Char) : String × String := (String.ofList p.1, String.ofList p.2)

/-- A query is split at `&` and each part at its first `=`. -/
def splitQuery (query : String) : List (String × String) := (Separated.decode '&' '=' query.toList).map ofChars

/-! ## The string as a list of characters -/

theorem foldl_append_toList (entries : List (String × String)) (text : String) :
    (entries.foldl (fun queryStr p => queryStr ++ p.1 ++ "=" ++ p.2 ++ "&") text).toList =
      text.toList ++ (entries.map toChars).flatMap fun p => Separated.item '=' p ++ ['&'] := by
  induction entries generalizing text with
  | nil => simp
  | cons p entries ih =>
    rw [List.foldl_cons, ih]
    simp [toChars, Separated.item]

theorem queryStr_toList (parameters : Parameters) :
    (queryStr parameters).toList = Separated.encode '&' '=' (parameters.entries.map toChars) := by
  have hfold := foldl_append_toList parameters.entries ""
  rw [String.toList_empty, List.nil_append] at hfold
  unfold queryStr Separated.encode
  rw [← hfold]
  dsimp only
  split
  · rename_i hempty
    rw [String.isEmpty_iff.mp hempty]
    rfl
  · exact String.toList_ofList

theorem ofChars_toChars : ofChars ∘ toChars = id := by
  funext p
  simp [ofChars, toChars]

theorem toChars_ofChars : toChars ∘ ofChars = id := by
  funext p
  simp [ofChars, toChars]

theorem splitQuery_eq_iff (query : String) (entries : List (String × String)) :
    splitQuery query = entries ↔ Separated.decode '&' '=' query.toList = entries.map toChars := by
  unfold splitQuery
  constructor
  · rintro rfl
    rw [List.map_map, toChars_ofChars, List.map_id]
  · intro h
    rw [h, List.map_map, ofChars_toChars, List.map_id]

theorem clean_iff (parameters : Parameters) :
    Clean parameters ↔ ∀ p ∈ parameters.entries.map toChars, Separated.Clean '&' '=' p := by
  rw [List.forall_mem_map]
  exact Iff.rfl

/-! ## Queries -/

theorem splitQuery_queryStr (parameters : Parameters) :
    splitQuery (queryStr parameters) = parameters.entries ↔ Clean parameters := by
  rw [splitQuery_eq_iff, queryStr_toList, Separated.decode_encode_iff (by decide), clean_iff]

theorem queryStr_injective {m m' : Parameters} (hm : Clean m) (hm' : Clean m') (h : queryStr m = queryStr m') :
    m = m' := by
  have hentries := (splitQuery_queryStr m).mpr hm
  rw [h, (splitQuery_queryStr m').mpr hm'] at hentries
  exact SortedMap.ext hentries.symm

/-! ## Times -/

theorem natRepr_digits (n : Nat) : ∀ c ∈ n.repr.toList, c.isDigit = true := by
  intro c hc
  rw [Nat.repr_eq_ofList_toDigits, String.toList_ofList] at hc
  exact Nat.isDigit_of_mem_toDigits (by decide) (by decide) hc

theorem intToString_separate (ts : Int) : '&' ∉ (toString ts).toList := by
  have hnat : ∀ n : Nat, '&' ∉ n.repr.toList := fun n h => absurd (natRepr_digits n '&' h) (by decide)
  cases ts with
  | ofNat n => exact hnat n
  | negSucc n =>
    have hrepr : (toString (Int.negSucc n)).toList = '-' :: n.succ.repr.toList := by
      show ("-" ++ n.succ.repr).toList = _
      rw [String.toList_append]
      rfl
    rw [hrepr, List.mem_cons]
    rintro (h | h)
    · exact absurd h (by decide)
    · exact hnat _ h

theorem Clean.insertOrAssign {m : Parameters} (hm : Clean m) {key value : String}
    (h : Separated.Clean '&' '=' (key.toList, value.toList)) : Clean (m.insertOrAssign key value) := by
  intro p hp
  rcases SortedMap.mem_insertEntry _ _ hp with rfl | hp
  · exact h
  · exact hm p hp

theorem Clean.timestamp {m : Parameters} (hm : Clean m) (ts : Int) :
    Clean (m.insertOrAssign "timestamp" (toString ts)) := by
  have hname : '&' ∉ "timestamp".toList ∧ '=' ∉ "timestamp".toList := by decide
  exact hm.insertOrAssign ⟨hname.1, hname.2, intToString_separate ts⟩

/-! ## Both sessions -/

theorem query_readBack :
    (∀ createQueryStr ∈ [Spot.HTTPSession.P.createQueryStr, Futures.HTTPSession.P.createQueryStr],
      (∀ m, splitQuery (createQueryStr m) = m.entries ↔ Clean m) ∧
      ∀ m m', Clean m → Clean m' → createQueryStr m = createQueryStr m' → m = m') ∧
    (∀ ts ts' m m', Clean m → Clean m' →
      Spot.HTTPSession.P.parameterString ts m = Spot.HTTPSession.P.parameterString ts' m' →
      m.insertOrAssign "timestamp" (toString ts) = m'.insertOrAssign "timestamp" (toString ts')) ∧
    ∀ apiKey ts m m', Clean m → Clean m' →
      Futures.HTTPSession.P.strToSign apiKey ts m = Futures.HTTPSession.P.strToSign apiKey ts m' → m = m' := by
  refine ⟨fun createQueryStr h => ?_, fun ts ts' m m' hm hm' heq => ?_, fun apiKey ts m m' hm hm' heq => ?_⟩
  · have hsame : createQueryStr = queryStr := by
      rcases List.mem_pair.mp h with rfl | rfl <;> rfl
    subst hsame
    exact ⟨splitQuery_queryStr, fun m m' hm hm' => queryStr_injective hm hm'⟩
  · exact queryStr_injective (hm.timestamp ts) (hm'.timestamp ts') heq
  · unfold Futures.HTTPSession.P.strToSign at heq
    exact queryStr_injective hm hm' ((String.append_right_inj _).mp heq)

def oneParameter : Parameters := ⟨[("symbol", "BTC_USDT&type=1")], by decide⟩

def twoParameters : Parameters := ⟨[("symbol", "BTC_USDT"), ("type", "1")], by decide⟩

/-- The value of one parameter introduces another one. -/
theorem query_ambiguous :
    oneParameter ≠ twoParameters ∧
    Spot.HTTPSession.P.createQueryStr oneParameter = Spot.HTTPSession.P.createQueryStr twoParameters ∧
    Futures.HTTPSession.P.createQueryStr oneParameter = Futures.HTTPSession.P.createQueryStr twoParameters ∧
    splitQuery (Spot.HTTPSession.P.createQueryStr oneParameter) ≠ oneParameter.entries := by
  have hsame : queryStr oneParameter = queryStr twoParameters := by decide
  refine ⟨?_, hsame, hsame, ?_⟩
  · intro h
    exact absurd (congrArg (fun m => m.entries.length) h) (by decide)
  · exact fun h => absurd ((splitQuery_queryStr oneParameter).mp h) (by unfold Clean; decide)

end MexcApi
