import MexcApi.HttpSessionSound

/-!
# What is signed is what is sent

The signature is put into the sorted map, so it stands in the middle of the
query. Without it the query is the string that was signed.
-/

namespace MexcApi

/-! ## The components of a query -/

def component (p : String × String) : String := p.1 ++ "=" ++ p.2

def components (query : String) : List String := (query.toList.splitOn '&').map String.ofList

def componentName (component : String) : String := String.ofList (Separated.splitFirst '=' component.toList).1

theorem component_toList (p : String × String) : (component p).toList = Separated.item '=' (toChars p) := by
  simp [component, toChars, Separated.item]

theorem componentName_component {p : String × String} (h : '=' ∉ p.1.toList) : componentName (component p) = p.1 := by
  unfold componentName
  rw [component_toList, Separated.splitFirst_item h]
  simp [toChars]

theorem components_queryStr {m : Parameters} (hm : Clean m) (hne : m.entries ≠ []) :
    components (queryStr m) = m.entries.map component := by
  unfold components
  rw [queryStr_toList, Separated.splitOn_encode (by decide) (by simpa using hne) ((clean_iff m).mp hm)]
  simp only [List.map_map]
  apply List.map_congr_left
  intro p _
  simp [← component_toList]

theorem intercalate_component (m : Parameters) : "&".intercalate (m.entries.map component) = queryStr m := by
  apply String.toList_injective
  rw [queryStr_toList, Separated.encode_eq_intercalate, String.toList_intercalate]
  simp [component_toList, Function.comp_def]

theorem filter_components {m : Parameters} (hm : Clean m) (want : String → Bool) :
    (m.entries.map component).filter (fun c => want (componentName c)) =
      (m.entries.filter fun p => want p.1).map component := by
  rw [List.filter_map]
  congr 1
  apply List.filter_congr
  intro p hp
  simp [componentName_component (hm p hp).2.1]

/-! ## The signature -/

theorem queryStr_ne_empty {m : Parameters} (hne : m.entries ≠ []) : (queryStr m).isEmpty = false := by
  rw [Bool.eq_false_iff]
  intro h
  have hnil : (queryStr m).toList = [] := by simp [String.isEmpty_iff.mp h]
  rw [queryStr_toList] at hnil
  exact Separated.encode_ne_nil '&' '=' (by simpa using hne) hnil

namespace Crypto

variable (C : Crypto)

def HexDigits : Prop := ∀ digest, ∀ c ∈ (C.stringToHex digest).toList, c.isHexDigit = true

variable {C}

theorem HexDigits.separate (hC : C.HexDigits) (digest : Vector UInt8 32) : '&' ∉ (C.stringToHex digest).toList := by
  intro h
  exact absurd (hC digest '&' h) (by decide)

end Crypto

namespace Spot.HTTPSession.P

variable {C : Crypto} (p : P) (ts : Int)

theorem timestamp_unsigned (m : Parameters) (value : String) (hsig : ∀ e ∈ m.entries, e.1 ≠ "signature") :
    ∀ e ∈ (m.insertOrAssign "timestamp" value).entries, e.1 ≠ "signature" := by
  intro e he
  rcases SortedMap.mem_insertEntry _ _ he with rfl | he
  · simp
  · exact hsig e he

theorem sign_ne_nil (m : Parameters) : (p.sign C ts m).entries ≠ [] := SortedMap.insertEntry_ne_nil _ _ _

theorem createRequest_target (method : Verb) (path : String) (m : Parameters) :
    (p.createRequest C ts method path m false).1.target = path ++ "?" ++ queryStr (p.sign C ts m) := by
  have hne := queryStr_ne_empty (p.sign_ne_nil ts m : (p.sign C ts m).entries ≠ [])
  simp only [createRequest, createQueryStr, Bool.false_eq_true, if_false]
  rw [hne]
  simp

theorem signed_is_sent (hC : C.HexDigits) (method : Verb) (path : String) {m : Parameters} (hm : Clean m)
    (hsig : ∀ e ∈ m.entries, e.1 ≠ "signature") :
    ∃ query, (p.createRequest C ts method path m false).1.target = path ++ "?" ++ query ∧
      (components query).filter (componentName · = "signature") =
        ["signature=" ++ C.stringToHex (C.HMAC p.apiSecret (parameterString ts m))] ∧
      (components query).filter (componentName · ≠ "signature") =
        (m.insertOrAssign "timestamp" (toString ts)).entries.map component ∧
      "&".intercalate ((components query).filter (componentName · ≠ "signature")) = parameterString ts m := by
  have hname : '&' ∉ "signature".toList ∧ '=' ∉ "signature".toList := by decide
  have hsigned : Clean (p.sign C ts m) := (hm.timestamp ts).insertOrAssign ⟨hname.1, hname.2, hC.separate _⟩
  obtain ⟨hone, hrest⟩ := SortedMap.filter_insertEntry "signature"
    (C.stringToHex (C.HMAC p.apiSecret (parameterString ts m))) (timestamp_unsigned m (toString ts) hsig)
  have hremove : (components (queryStr (p.sign C ts m))).filter (componentName · ≠ "signature") =
      (m.insertOrAssign "timestamp" (toString ts)).entries.map component := by
    rw [components_queryStr hsigned (p.sign_ne_nil ts m), filter_components hsigned (decide <| · ≠ "signature")]
    exact congrArg _ hrest
  refine ⟨queryStr (p.sign C ts m), p.createRequest_target ts method path m, ?_, hremove, ?_⟩
  · rw [components_queryStr hsigned (p.sign_ne_nil ts m), filter_components hsigned (decide <| · = "signature")]
    exact congrArg _ hone
  · rw [hremove, intercalate_component]
    rfl

def orderParameters : Parameters := ⟨[("recvWindow", "25000"), ("symbol", "BTCUSDT")], by decide⟩

/-- What the HMAC gives for these parameters with the key `secret` and the time
1700000000000, and lower-case hex. -/
def orderCrypto : Crypto where
  HMAC _ _ := #v[80, 6, 123, 169, 140, 28, 162, 69, 236, 9, 233, 89, 46, 209, 77, 106,
    72, 166, 52, 242, 210, 118, 81, 162, 125, 253, 142, 187, 217, 234, 82, 99]
  stringToHex digest := String.ofList (digest.toList.flatMap fun b =>
    [Nat.digitChar (b.toNat / 16), Nat.digitChar (b.toNat % 16)])

theorem orderCrypto_hexDigits : orderCrypto.HexDigits := by
  have hdigit : ∀ n < 16, (Nat.digitChar n).isHexDigit = true := by decide
  intro digest c hc
  simp only [orderCrypto, String.toList_ofList, List.mem_flatMap] at hc
  obtain ⟨b, -, hc⟩ := hc
  have hb : b.toNat < 256 := b.toNat_lt
  rcases List.mem_pair.mp hc with rfl | rfl
  · exact hdigit _ (by omega)
  · exact hdigit _ (by omega)

theorem signed_is_sent_order :
    ∃ query, ((P.mk "key" "secret").createRequest orderCrypto 1700000000000 .post "/api/v3/order" orderParameters
        false).1.target = "/api/v3/order" ++ "?" ++ query ∧
      (components query).filter (componentName · = "signature") = ["signature=" ++ orderCrypto.stringToHex
        (orderCrypto.HMAC "secret" (parameterString 1700000000000 orderParameters))] ∧
      (components query).filter (componentName · ≠ "signature") =
        (orderParameters.insertOrAssign "timestamp" (toString (1700000000000 : Int))).entries.map component ∧
      "&".intercalate ((components query).filter (componentName · ≠ "signature")) =
        parameterString 1700000000000 orderParameters :=
  (P.mk "key" "secret").signed_is_sent 1700000000000 orderCrypto_hexDigits .post "/api/v3/order" (by unfold Clean; decide)
    (by decide)

end Spot.HTTPSession.P

end MexcApi
