import Mathlib.Order.Lattice
import Mathlib.Data.List.Pairwise
import Mathlib.Tactic.SplitIfs

/-!
# Maps with ascending keys

A map is the list of its entries, in the order in which it is gone through.
-/

@[ext] structure SortedMap (κ ν : Type) [LinearOrder κ] where
  entries : List (κ × ν)
  sorted : entries.Pairwise fun a b => a.1 < b.1

namespace SortedMap

variable {κ ν : Type} [LinearOrder κ] (key : κ) (value : ν)

def insertEntry : List (κ × ν) → List (κ × ν)
  | [] => [(key, value)]
  | entry :: rest =>
    if key < entry.1 then (key, value) :: entry :: rest
    else if key = entry.1 then (key, value) :: rest
    else entry :: insertEntry rest

theorem mem_insertEntry {entry : κ × ν} : ∀ {entries : List (κ × ν)}, entry ∈ insertEntry key value entries →
    entry = (key, value) ∨ entry ∈ entries
  | [], h => Or.inl (List.mem_singleton.mp h)
  | e :: rest, h => by
    unfold insertEntry at h
    split_ifs at h with hlt heq
    · exact (List.mem_cons.mp h).imp_right fun h => h
    · exact (List.mem_cons.mp h).imp_right fun h => List.mem_cons_of_mem _ h
    · rcases List.mem_cons.mp h with rfl | h
      · exact Or.inr List.mem_cons_self
      · exact (mem_insertEntry h).imp_right fun h => List.mem_cons_of_mem _ h

theorem insertEntry_ne_nil (entries : List (κ × ν)) : insertEntry key value entries ≠ [] := by
  cases entries with
  | nil => simp [insertEntry]
  | cons e rest =>
    unfold insertEntry
    split_ifs <;> simp

theorem insertEntry_between {entries : List (κ × ν)} (h : ∀ entry ∈ entries, entry.1 ≠ key) :
    ∃ before after, entries = before ++ after ∧ insertEntry key value entries = before ++ (key, value) :: after := by
  induction entries with
  | nil => exact ⟨[], [], rfl, rfl⟩
  | cons e rest ih =>
    obtain ⟨before, after, hrest, hinsert⟩ := ih fun entry hentry => h entry (by simp [hentry])
    unfold insertEntry
    by_cases hlt : key < e.1
    · exact ⟨[], e :: rest, rfl, by simp [hlt]⟩
    · have hne : key ≠ e.1 := fun heq => h e (by simp) heq.symm
      exact ⟨e :: before, after, by simp [hrest], by simp [hlt, hne, hinsert]⟩

theorem filter_insertEntry {entries : List (κ × ν)} (h : ∀ entry ∈ entries, entry.1 ≠ key) :
    (insertEntry key value entries).filter (·.1 = key) = [(key, value)] ∧
      (insertEntry key value entries).filter (·.1 ≠ key) = entries := by
  obtain ⟨before, after, rfl, hinsert⟩ := insertEntry_between key value h
  have hbefore : ∀ entry ∈ before, entry.1 ≠ key := fun entry hentry => h entry (by simp [hentry])
  have hafter : ∀ entry ∈ after, entry.1 ≠ key := fun entry hentry => h entry (by simp [hentry])
  have hnone : ∀ {l : List (κ × ν)}, (∀ entry ∈ l, entry.1 ≠ key) → l.filter (·.1 = key) = [] := by
    intro l hl
    simpa using hl
  have hall : ∀ {l : List (κ × ν)}, (∀ entry ∈ l, entry.1 ≠ key) → l.filter (·.1 ≠ key) = l := by
    intro l hl
    simpa using hl
  rw [hinsert]
  constructor
  · simp [hnone hbefore, hnone hafter]
  · simp only [List.filter_append, List.filter_cons, hall hbefore, hall hafter]
    simp

theorem filter_ne_insertEntry (entries : List (κ × ν)) :
    (insertEntry key value entries).filter (·.1 ≠ key) = entries.filter (·.1 ≠ key) := by
  induction entries with
  | nil => simp [insertEntry]
  | cons e rest ih =>
    unfold insertEntry
    by_cases hlt : key < e.1
    · simp [hlt]
    · by_cases heq : key = e.1
      · simp [heq]
      · simp only [hlt, heq, if_false]
        simp only [List.filter_cons, ih]

theorem filter_eq_insertEntry {entries : List (κ × ν)} (h : entries.Pairwise fun a b => a.1 < b.1) :
    (insertEntry key value entries).filter (·.1 = key) = [(key, value)] := by
  induction entries with
  | nil => simp [insertEntry]
  | cons e rest ih =>
    obtain ⟨hfirst, hrest⟩ := List.pairwise_cons.mp h
    have hnone : ¬ e.1 < key → rest.filter (·.1 = key) = [] := by
      intro hle
      rw [List.filter_eq_nil_iff]
      intro e' he'
      have := lt_of_le_of_lt (not_lt.mp hle) (hfirst e' he')
      simpa using this.ne'
    unfold insertEntry
    by_cases hlt : key < e.1
    · simp [hlt, hlt.ne', hnone (not_lt.mpr hlt.le)]
    · by_cases heq : key = e.1
      · subst heq
        simp [hnone (lt_irrefl _)]
      · simp only [hlt, heq, if_false]
        rw [List.filter_cons_of_neg (by simpa using Ne.symm heq), ih hrest]

theorem insertEntry_sorted : ∀ {entries : List (κ × ν)}, entries.Pairwise (fun a b => a.1 < b.1) →
    (insertEntry key value entries).Pairwise fun a b => a.1 < b.1
  | [], _ => List.pairwise_singleton ..
  | e :: rest, h => by
    obtain ⟨hfirst, hrest⟩ := List.pairwise_cons.mp h
    unfold insertEntry
    split_ifs with hlt heq
    · refine List.pairwise_cons.mpr ⟨fun e' he' => ?_, h⟩
      rcases List.mem_cons.mp he' with rfl | he'
      · exact hlt
      · exact lt_trans hlt (hfirst e' he')
    · refine List.pairwise_cons.mpr ⟨fun e' he' => ?_, hrest⟩
      rw [heq]
      exact hfirst e' he'
    · refine List.pairwise_cons.mpr ⟨fun e' he' => ?_, insertEntry_sorted hrest⟩
      rcases mem_insertEntry key value he' with rfl | he'
      · exact lt_of_le_of_ne (not_lt.mp hlt) (Ne.symm heq)
      · exact hfirst e' he'

theorem lookup_insertEntry [BEq κ] [LawfulBEq κ] (other : κ) (entries : List (κ × ν)) :
    (insertEntry key value entries).lookup other = if other = key then some value else entries.lookup other := by
  by_cases hother : other = key
  · rw [if_pos hother, hother]
    induction entries with
    | nil => simp [insertEntry]
    | cons e rest ih =>
      obtain ⟨k, v⟩ := e
      unfold insertEntry
      by_cases hlt : key < k
      · simp [hlt]
      · by_cases heq : key = k
        · simp [heq]
        · have hne : (key == k) = false := beq_eq_false_iff_ne.mpr heq
          simp [hlt, heq, List.lookup_cons, hne, ih]
  · have hne : (other == key) = false := beq_eq_false_iff_ne.mpr hother
    rw [if_neg hother]
    induction entries with
    | nil => simp [insertEntry, List.lookup_cons, hne]
    | cons e rest ih =>
      obtain ⟨k, v⟩ := e
      unfold insertEntry
      by_cases hlt : key < k
      · simp [hlt, List.lookup_cons, hne]
      · by_cases heq : key = k
        · have hne' : (other == k) = false := by rwa [← heq]
          simp [heq, List.lookup_cons, hne']
        · simp [hlt, heq, List.lookup_cons, ih]

def insertOrAssign (m : SortedMap κ ν) : SortedMap κ ν where
  entries := insertEntry key value m.entries
  sorted := insertEntry_sorted key value m.sorted

theorem lookup_insertOrAssign [BEq κ] [LawfulBEq κ] (m : SortedMap κ ν) (other : κ) :
    (m.insertOrAssign key value).entries.lookup other = if other = key then some value else m.entries.lookup other :=
  lookup_insertEntry key value other m.entries

end SortedMap
