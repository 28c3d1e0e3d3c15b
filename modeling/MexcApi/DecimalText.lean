import Mathlib.Data.List.TakeWhile
import Mathlib.Data.Rat.Floor
import MexcApi.Models

/-!
# Decimal texts

A decimal text has a sign, at least one digit before the point, and a fraction.
`readDecimalValue` is to read such a text as the number it stands for.
-/

namespace MexcApi

open Nlohmann

structure DecimalText where
  negative : Bool
  whole : List (Fin 10)
  fraction : List (Fin 10)
  nonempty : whole ≠ []

namespace DecimalText

def digitChar (d : Fin 10) : Char := Char.ofNat ('0'.toNat + d)

def number : List (Fin 10) → Int := List.foldl (fun n d => 10 * n + (d.val : Int)) 0

def point : List (Fin 10) → List Char
  | [] => []
  | ds => '.' :: ds.map digitChar

def unsigned (d : DecimalText) : List Char := d.whole.map digitChar ++ point d.fraction

def text (d : DecimalText) : String := String.ofList (if d.negative then '-' :: d.unsigned else d.unsigned)

def magnitude (d : DecimalText) : ℚ := number d.whole + number d.fraction / 10 ^ d.fraction.length

def value (d : DecimalText) : ℚ := if d.negative then -d.magnitude else d.magnitude

end DecimalText

/-- Every decimal text is read exactly. -/
def JsonUtils.ReadsDecimals (U : JsonUtils) : Prop :=
  ∀ (d : DecimalText) (json : Json) (key : String), json.find? key = some (.str d.text) →
    U.readDecimalValue json key = .ok d.value

/-! ## A reader -/

def signedDecimal (s : String) : Except Fault ℚ :=
  match s.toList with
  | '-' :: cs => (decimalOfString (String.ofList cs)).map fun q => -q
  | _ => decimalOfString s

def JsonUtils.signed : JsonUtils where
  readValue := JsonUtils.plain.readValue
  readDecimalValue json key :=
    match json.find? key with
    | some (.str s) => signedDecimal s
    | _ => .ok 0
  assign := signedDecimal

namespace DecimalText

theorem digitChar_isDigit : ∀ d : Fin 10, (digitChar d).isDigit = true := by decide

theorem digitChar_value : ∀ d : Fin 10, ((digitChar d).toNat : Int) - '0'.toNat = (d.val : Int) := by decide

theorem digitsValue_digits (ds : List (Fin 10)) : digitsValue (ds.map digitChar) = number ds := by
  unfold digitsValue number
  rw [List.foldl_map]
  simp only [digitChar_value]

theorem takeWhile_unsigned (d : DecimalText) : d.unsigned.takeWhile Char.isDigit = d.whole.map digitChar ∧
    d.unsigned.dropWhile Char.isDigit = point d.fraction := by
  have hdigits : ∀ c ∈ d.whole.map digitChar, c.isDigit = true := by
    intro c hc
    obtain ⟨i, -, rfl⟩ := List.mem_map.mp hc
    exact digitChar_isDigit i
  unfold unsigned
  rw [List.takeWhile_append_of_pos hdigits, List.dropWhile_append_of_pos hdigits]
  cases d.fraction with
  | nil => exact ⟨List.append_nil _, rfl⟩
  | cons i ds => exact ⟨List.append_nil _, rfl⟩

theorem decimalOfString_unsigned (d : DecimalText) : decimalOfString (String.ofList d.unsigned) = .ok d.magnitude := by
  obtain ⟨htake, hdrop⟩ := d.takeWhile_unsigned
  have hwhole : (d.whole.map digitChar).isEmpty = false := by
    cases h : d.whole with
    | nil => exact absurd h d.nonempty
    | cons i ds => rfl
  unfold decimalOfString magnitude
  simp only [String.toList_ofList, htake, hdrop]
  cases hf : d.fraction with
  | nil =>
    have hzero : number [] = 0 := rfl
    simp [point, hwhole, digitsValue_digits, hzero]
  | cons i ds =>
    have hall : ((i :: ds).map digitChar).all Char.isDigit = true := by
      rw [List.all_map, List.all_eq_true]
      exact fun j _ => digitChar_isDigit j
    simp only [point, hall, if_true, digitsValue_digits, List.length_map]

theorem signedDecimal_text (d : DecimalText) : signedDecimal d.text = .ok d.value := by
  have hread := d.decimalOfString_unsigned
  unfold signedDecimal text value
  cases hn : d.negative with
  | true =>
    simp only [if_true, String.toList_ofList, hread]
    rfl
  | false =>
    simp only [Bool.false_eq_true, if_false, String.toList_ofList]
    -- the first character is a digit
    cases hw : d.whole with
    | nil => exact absurd hw d.nonempty
    | cons i ds =>
      have hcons : d.unsigned = digitChar i :: (ds.map digitChar ++ point d.fraction) := by
        unfold unsigned
        rw [hw]
        rfl
      have hdigit := digitChar_isDigit i
      split
      · rename_i hminus
        rw [hcons] at hminus
        rw [(List.cons.inj hminus).1] at hdigit
        cases hdigit
      · exact hread

end DecimalText

theorem JsonUtils.signed_lawful : JsonUtils.signed.Lawful where
  present := JsonUtils.plain_lawful.present
  absent := JsonUtils.plain_lawful.absent

theorem JsonUtils.signed_readsDecimals : JsonUtils.signed.ReadsDecimals := by
  intro d json key h
  simp only [signed, h]
  exact d.signedDecimal_text

end MexcApi
