import Mathlib.Data.List.TakeWhile

/-!
# Pairs in a separated text

Each pair is written with a mark between its two parts and a separator after
it; the separator of the last pair is taken away again. A text is read by
splitting it at the separator and each part at its first mark. The symbols are
of an arbitrary type.
-/

namespace Separated

abbrev Pair (α : Type) := List α × List α

variable {α : Type} (sep mark : α)

def item (p : Pair α) : List α := p.1 ++ mark :: p.2

def encode (ps : List (Pair α)) : List α := (ps.flatMap fun p => item mark p ++ [sep]).dropLast

/-- The first part has neither of the two symbols, the second one no separator. -/
def Clean (p : Pair α) : Prop := sep ∉ p.1 ∧ mark ∉ p.1 ∧ sep ∉ p.2

section
variable [DecidableEq α]

instance (p : Pair α) : Decidable (Clean sep mark p) := inferInstanceAs (Decidable (_ ∧ _ ∧ _))

def splitFirst (part : List α) : Pair α := (part.takeWhile (· ≠ mark), (part.dropWhile (· ≠ mark)).tail)

/-- A text without a symbol has no parts. -/
def decode (text : List α) : List (Pair α) :=
  if text = [] then [] else (text.splitOn sep).map (splitFirst mark)

end

/-! ## Writing -/

theorem encode_eq_intercalate : ∀ ps : List (Pair α), encode sep mark ps = [sep].intercalate (ps.map (item mark))
  | [] => rfl
  | [p] => by simp [encode]
  | p :: q :: ps => by
    have ih := encode_eq_intercalate (q :: ps)
    have hne : ((q :: ps).flatMap fun p => item mark p ++ [sep]) ≠ [] := by simp
    have hlast : encode sep mark (p :: q :: ps) = item mark p ++ [sep] ++ encode sep mark (q :: ps) := by
      unfold encode
      rw [List.flatMap_cons, List.dropLast_append_of_ne_nil hne]
    rw [hlast, ih]
    simp only [List.map_cons, List.intercalate_cons_cons]

theorem encode_ne_nil {ps : List (Pair α)} (h : ps ≠ []) : encode sep mark ps ≠ [] := by
  cases ps with
  | nil => exact absurd rfl h
  | cons p ps =>
    intro hnil
    have hlen := congrArg List.length hnil
    simp [encode, item] at hlen

/-! ## Reading what was written -/

variable {sep mark}

theorem item_separate (hne : sep ≠ mark) {p : Pair α} (h : Clean sep mark p) : sep ∉ item mark p := by
  unfold item
  rw [List.mem_append, List.mem_cons]
  rintro (hkey | rfl | hvalue)
  · exact h.1 hkey
  · exact hne rfl
  · exact h.2.2 hvalue

variable [DecidableEq α]

theorem splitFirst_item {p : Pair α} (h : mark ∉ p.1) : splitFirst mark (item mark p) = p := by
  have hkey : ∀ x ∈ p.1, decide (x ≠ mark) = true := by
    intro x hx
    rw [decide_eq_true_iff]
    rintro rfl
    exact h hx
  unfold splitFirst item
  rw [List.takeWhile_append_of_pos hkey, List.dropWhile_append_of_pos hkey]
  simp

theorem splitOn_encode (hne : sep ≠ mark) {ps : List (Pair α)} (hps : ps ≠ []) (h : ∀ p ∈ ps, Clean sep mark p) :
    (encode sep mark ps).splitOn sep = ps.map (item mark) := by
  rw [encode_eq_intercalate]
  apply List.splitOn_intercalate
  · intro part hpart
    obtain ⟨q, hq, rfl⟩ := List.mem_map.mp hpart
    exact item_separate hne (h q hq)
  · simpa using hps

theorem decode_encode (hne : sep ≠ mark) {ps : List (Pair α)} (h : ∀ p ∈ ps, Clean sep mark p) :
    decode sep mark (encode sep mark ps) = ps := by
  by_cases hps : ps = []
  · rw [hps]
    rfl
  · unfold decode
    rw [if_neg (encode_ne_nil sep mark hps), splitOn_encode hne hps h, List.map_map]
    refine (List.map_congr_left fun q hq => ?_).trans (List.map_id _)
    exact splitFirst_item (h q hq).2.1

/-! ## What is read is clean -/

variable (sep mark)

theorem separate_of_splitOn : ∀ {text part : List α}, part ∈ text.splitOn sep → sep ∉ part
  | [], part, h => by
    rw [List.splitOn_nil, List.mem_singleton] at h
    rw [h]
    exact List.not_mem_nil
  | x :: text, part, h => by
    have ih : ∀ part ∈ text.splitOn sep, sep ∉ part := fun _ => separate_of_splitOn
    rw [List.splitOn_cons_eq_if_modifyHead] at h
    by_cases hx : x = sep
    · rw [if_pos (beq_iff_eq.mpr hx), List.mem_cons] at h
      rcases h with rfl | h
      · exact List.not_mem_nil
      · exact ih part h
    · rw [if_neg (fun hb => hx (beq_iff_eq.mp hb))] at h
      cases hsplit : text.splitOn sep with
      | nil => exact absurd hsplit (List.splitOn_ne_nil sep text)
      | cons first rest =>
        rw [hsplit] at h ih
        rcases List.mem_cons.mp h with rfl | h
        · rw [List.mem_cons]
          rintro (rfl | hfirst)
          · exact hx rfl
          · exact ih first List.mem_cons_self hfirst
        · exact ih part (List.mem_cons_of_mem _ h)

theorem splitFirst_clean {part : List α} (h : sep ∉ part) : Clean sep mark (splitFirst mark part) := by
  refine ⟨fun hs => h (List.takeWhile_subset _ hs), fun hm => ?_, fun hs => ?_⟩
  · have := List.mem_takeWhile_imp hm
    simp at this
  · exact h ((List.dropWhile_sublist _).subset (List.mem_of_mem_tail hs))

theorem decode_clean (text : List α) : ∀ p ∈ decode sep mark text, Clean sep mark p := by
  unfold decode
  split
  · exact List.forall_mem_nil _
  · intro p hp
    obtain ⟨part, hpart, rfl⟩ := List.mem_map.mp hp
    exact splitFirst_clean sep mark (separate_of_splitOn sep hpart)

variable {sep mark}

/-- Exactly the clean pairs are read back. -/
theorem decode_encode_iff (hne : sep ≠ mark) (ps : List (Pair α)) :
    decode sep mark (encode sep mark ps) = ps ↔ ∀ p ∈ ps, Clean sep mark p := by
  constructor
  · intro h
    rw [← h]
    exact decode_clean sep mark _
  · exact decode_encode hne

end Separated
