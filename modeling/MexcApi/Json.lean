import Mathlib.Data.Rat.Defs

/-!
# JSON values as nlohmann::json holds them

Values, `operator==`, the key and index lookups and the typed `get`s. Doubles
are exact rationals. An object is its association list in key order, as a
`std::map` iterates it, so two objects compare member by member.

The const `operator[]` does not check: a missing key or an index past the end
is undefined behaviour, a value of another type throws. `Access` keeps the
three outcomes apart.
-/

namespace Nlohmann

inductive Fault where
  | undefined
  | jsonException (id : Nat)
  | runtimeError (what : String)
  deriving DecidableEq, Repr

theorem bind_ok {α β : Type} {x : Except Fault α} {f : α → Except Fault β} {b : β} (h : x >>= f = .ok b) :
    ∃ a, x = .ok a ∧ f a = .ok b := by
  cases x with
  | error e => cases h
  | ok a => exact ⟨a, rfl, h⟩

/-- The call ends with a value or with an exception. -/
def Defined {α : Type} (x : Except Fault α) : Prop := x ≠ .error .undefined

def Throws {α : Type} (x : Except Fault α) : Prop := ∃ e, x = .error e ∧ e ≠ .undefined

inductive Number where
  | int (n : Int)
  | float (q : ℚ)
  deriving DecidableEq, Repr

def Number.toRat : Number → ℚ
  | .int n => n
  | .float q => q

/-- `static_cast` to an integer type drops the fraction. -/
def Number.toInt : Number → Int
  | .int n => n
  | .float q => q.num.tdiv q.den

inductive Json where
  | null
  | bool (b : Bool)
  | num (n : Number)
  | str (s : String)
  | arr (xs : List Json)
  | obj (kvs : List (String × Json))
  deriving Repr, Inhabited

namespace Json

/-! ## operator== -/

mutual
/-- Numbers are compared by value, whichever of the number types holds them. -/
def eq : Json → Json → Bool
  | .null, .null => true
  | .bool a, .bool b => a == b
  | .num m, .num n => m.toRat == n.toRat
  | .str s, .str t => s == t
  | .arr xs, .arr ys => eqArr xs ys
  | .obj xs, .obj ys => eqObj xs ys
  | _, _ => false
  termination_by structural j => j
def eqArr : List Json → List Json → Bool
  | [], [] => true
  | x :: xs, y :: ys => eq x y && eqArr xs ys
  | _, _ => false
  termination_by structural xs => xs
def eqObj : List (String × Json) → List (String × Json) → Bool
  | [], [] => true
  | m :: xs, n :: ys => eqMember m n && eqObj xs ys
  | _, _ => false
  termination_by structural xs => xs
def eqMember : String × Json → String × Json → Bool
  | (k, x), (l, y) => k == l && eq x y
  termination_by structural m => m
end

/-! ## Types and sizes -/

def isNull : Json → Bool
  | .null => true
  | _ => false

def isObject : Json → Bool
  | .obj _ => true
  | _ => false

def isString : Json → Bool
  | .str _ => true
  | _ => false

def isNumberInteger : Json → Bool
  | .num (.int _) => true
  | _ => false

/-- What a range-based for loop visits: a value that is neither null nor a
container is visited as itself. -/
def elements : Json → List Json
  | .null => []
  | .arr xs => xs
  | .obj kvs => kvs.map Prod.snd
  | j => [j]

def size (j : Json) : Nat := j.elements.length

def empty (j : Json) : Bool := j.elements.isEmpty

/-! ## Lookups -/

def find? : Json → String → Option Json
  | .obj kvs, key => kvs.lookup key
  | _, _ => none

inductive Access where
  | value (j : Json)
  | missing
  | typeError

def access : Json → String → Access
  | .obj kvs, key =>
    match kvs.lookup key with
    | some v => .value v
    | none => .missing
  | _, _ => .typeError

def accessIndex : Json → Nat → Access
  | .arr xs, i =>
    match xs[i]? with
    | some v => .value v
    | none => .missing
  | _, _ => .typeError

def Access.get : Access → Except Fault Json
  | .value j => .ok j
  | .missing => .error .undefined
  | .typeError => .error (.jsonException 305)

/-- The access with a missing key read as null. -/
def Access.orNull : Access → Except Fault Json
  | .value j => .ok j
  | .missing => .ok .null
  | .typeError => .error (.jsonException 305)

/-- The non-const `operator[]` on an object adds a missing key with a null. -/
def atOrInsert : Json → String → Except Fault Json
  | .null, _ => .ok .null
  | .obj kvs, key => .ok ((kvs.lookup key).getD .null)
  | _, _ => .error (.jsonException 305)

def set (key : String) (v : Json) : List (String × Json) → List (String × Json)
  | [] => [(key, v)]
  | (k, x) :: kvs =>
    if key = k then (key, v) :: kvs
    else if key < k then (key, v) :: (k, x) :: kvs
    else (k, x) :: set key v kvs

theorem lookup_set_self (key : String) (v : Json) : ∀ kvs : List (String × Json), (set key v kvs).lookup key = some v
  | [] => by simp [set]
  | (k, x) :: kvs => by
    by_cases hk : key = k
    · simp [set, hk]
    · by_cases hlt : key < k
      · simp [set, hk, hlt]
      · have hb : (key == k) = false := by simpa using hk
        simp [set, hk, hlt, List.lookup_cons, hb, lookup_set_self key v kvs]

theorem lookup_set_ne {key other : String} (hne : other ≠ key) (v : Json) : ∀ kvs : List (String × Json),
    (set key v kvs).lookup other = kvs.lookup other
  | [] => by
    have hb : (other == key) = false := by simpa using hne
    simp [set, List.lookup_cons, hb]
  | (k, x) :: kvs => by
    have hb : (other == key) = false := by simpa using hne
    by_cases hk : key = k
    · subst hk
      simp [set, List.lookup_cons, hb]
    · by_cases hlt : key < k
      · simp [set, hk, hlt, List.lookup_cons, hb]
      · simp [set, hk, hlt, List.lookup_cons, lookup_set_ne hne v kvs]

theorem lookup_ite_set {c : Prop} [Decidable c] {key other : String} (hne : other ≠ key) (v : Json)
    (kvs : List (String × Json)) : (if c then set key v kvs else kvs).lookup other = kvs.lookup other := by
  by_cases hc : c
  · rw [if_pos hc, lookup_set_ne hne]
  · rw [if_neg hc]

/-! ## Typed gets -/

def getString : Json → Except Fault String
  | .str s => .ok s
  | _ => .error (.jsonException 302)

def getBool : Json → Except Fault Bool
  | .bool b => .ok b
  | _ => .error (.jsonException 302)

def getDouble : Json → Except Fault ℚ
  | .num n => .ok n.toRat
  | _ => .error (.jsonException 302)

def getInt64 : Json → Except Fault Int
  | .num n => .ok n.toInt
  | _ => .error (.jsonException 302)

/-- The narrower integer types also take a boolean. -/
def getInt32 : Json → Except Fault Int
  | .num n => .ok n.toInt
  | .bool b => .ok (if b then 1 else 0)
  | _ => .error (.jsonException 302)

def getStrings : Json → Except Fault (List String)
  | .arr xs => xs.mapM getString
  | _ => .error (.jsonException 302)

end Json

/-! ## operator== and the key lookups -/

namespace Json

theorem eqObj_lookup (key : String) : ∀ {xs ys : List (String × Json)}, eqObj xs ys = true →
    eq ((xs.lookup key).getD .null) ((ys.lookup key).getD .null) = true
  | [], [], _ => rfl
  | [], _ :: _, h => by simp [eqObj] at h
  | _ :: _, [], h => by simp [eqObj] at h
  | (k, x) :: xs, (l, y) :: ys, h => by
    simp only [eqObj, eqMember, Bool.and_eq_true, beq_iff_eq] at h
    obtain ⟨⟨rfl, hxy⟩, hrest⟩ := h
    by_cases hk : key = k
    · subst hk; simpa [List.lookup_cons] using hxy
    · have hb : (key == k) = false := by simpa using hk
      simpa [List.lookup_cons, hb] using eqObj_lookup key hrest

theorem orNull_obj (kvs : List (String × Json)) (key : String) :
    ((Json.obj kvs).access key).orNull = .ok ((kvs.lookup key).getD .null) := by
  cases h : kvs.lookup key <;> simp [access, h, Access.orNull]

theorem eq_obj {j : Json} {kvs : List (String × Json)} (h : eq j (.obj kvs) = true) :
    ∃ kvs', j = .obj kvs' ∧ eqObj kvs' kvs = true := by
  cases j with
  | obj kvs' => exact ⟨kvs', rfl, by rwa [eq] at h⟩
  | _ => simp [eq] at h

end Json

theorem range_split {n i : Nat} {before after : List Nat} (h : List.range n = before ++ i :: after) :
    before = List.range i ∧ i < n := by
  have hlen : before.length < n := by
    have := congrArg List.length h
    rw [List.length_range, List.length_append, List.length_cons] at this
    omega
  have hi : i = before.length := by
    have hget : (List.range n)[before.length]? = some i := by
      rw [h, List.getElem?_append_right (Nat.le_refl _), Nat.sub_self]
      rfl
    rw [List.getElem?_range hlen] at hget
    exact (Option.some.inj hget).symm
  refine ⟨?_, by omega⟩
  have htake := congrArg (List.take before.length) h
  rw [List.take_left, List.take_range] at htake
  rw [← htake, hi]
  congr 1
  omega

theorem mapM_range {α : Type} : ∀ {l : List α} {f : Nat → Except Fault α},
    (∀ i (hi : i < l.length), f i = .ok l[i]) → (List.range l.length).mapM f = .ok l
  | [], _, _ => rfl
  | x :: l, f, h => by
    have h0 : f 0 = .ok x := h 0 (by simp)
    have hrest : (List.range l.length).mapM (f ∘ Nat.succ) = .ok l := by
      apply mapM_range
      intro i hi
      exact h (i + 1) (by simpa using hi)
    rw [List.length_cons, List.range_succ_eq_map, List.mapM_cons, h0, List.mapM_map, hrest]
    rfl

/-! ## Definedness -/

section
variable {α β : Type}

@[simp] theorem defined_ok (a : α) : Defined (.ok a : Except Fault α) := nofun

@[simp] theorem defined_pure (a : α) : Defined (pure a : Except Fault α) := nofun

@[simp] theorem defined_error (e : Fault) : Defined (.error e : Except Fault α) ↔ e ≠ .undefined := by
  simp [Defined]

@[simp] theorem defined_bind (x : Except Fault α) (f : α → Except Fault β) :
    Defined (x >>= f) ↔ Defined x ∧ ∀ a, x = .ok a → Defined (f a) := by
  cases x with
  | error e => simp [bind, Except.bind]
  | ok a => simp [bind, Except.bind]

@[simp] theorem defined_map (f : α → β) (x : Except Fault α) : Defined (x.map f) ↔ Defined x := by
  cases x <;> simp [Except.map]

@[simp] theorem defined_fmap (f : α → β) (x : Except Fault α) : Defined (f <$> x) ↔ Defined x := defined_map f x

theorem Defined.ite {c : Prop} [Decidable c] {x y : Except Fault α} (hx : Defined x) (hy : Defined y) :
    Defined (if c then x else y) := by
  split
  · exact hx
  · exact hy

theorem throws_iff {x : Except Fault α} : Throws x ↔ Defined x ∧ ∀ a, x ≠ .ok a := by
  cases x with
  | error e => simp [Throws, Defined]
  | ok a => simp [Throws]

theorem returns_bind_iff (x : Except Fault α) (f : α → Except Fault β) :
    (∃ b, x >>= f = .ok b) ↔ ∃ a, x = .ok a ∧ ∃ b, f a = .ok b := by
  cases x with
  | error e => simp [bind, Except.bind]
  | ok a => simp [bind, Except.bind]

theorem undefined_bind_iff (x : Except Fault α) (f : α → Except Fault β) :
    x >>= f = .error .undefined ↔ x = .error .undefined ∨ ∃ a, x = .ok a ∧ f a = .error .undefined := by
  cases x with
  | error e => simp [bind, Except.bind]
  | ok a => simp [bind, Except.bind]

theorem returns_mapM_iff {f : α → Except Fault β} : ∀ {l : List α},
    (∃ bs, l.mapM f = .ok bs) ↔ ∀ a ∈ l, ∃ b, f a = .ok b
  | [] => by simp [pure, Except.pure]
  | a :: l => by
    rw [List.mapM_cons, returns_bind_iff, List.forall_mem_cons, ← returns_mapM_iff]
    constructor
    · rintro ⟨b, hb, bs, hbs⟩
      obtain ⟨bs', hbs', -⟩ := bind_ok hbs
      exact ⟨⟨b, hb⟩, bs', hbs'⟩
    · rintro ⟨⟨b, hb⟩, bs, hbs⟩
      refine ⟨b, hb, b :: bs, ?_⟩
      rw [hbs]
      rfl

theorem mem_of_mapM {f : α → Except Fault β} {b : β} : ∀ {l : List α} {bs : List β}, l.mapM f = .ok bs → b ∈ bs →
    ∃ a ∈ l, f a = .ok b
  | [], bs, h, hb => by
    cases h
    cases hb
  | a :: l, bs, h, hb => by
    rw [List.mapM_cons] at h
    obtain ⟨c, hc, h⟩ := bind_ok h
    obtain ⟨cs, hcs, h⟩ := bind_ok h
    cases h
    rcases List.mem_cons.mp hb with rfl | hb
    · exact ⟨a, List.mem_cons_self, hc⟩
    · obtain ⟨a', ha', hf⟩ := mem_of_mapM hcs hb
      exact ⟨a', List.mem_cons_of_mem _ ha', hf⟩

theorem defined_mapM {f : α → Except Fault β} : ∀ {l : List α}, (∀ a ∈ l, Defined (f a)) → Defined (l.mapM f)
  | [], _ => nofun
  | a :: l, h => by
    have ih : Defined (l.mapM f) := defined_mapM fun x hx => h x (List.mem_cons_of_mem _ hx)
    rw [List.mapM_cons]
    simp only [defined_bind, defined_pure, implies_true, and_true]
    exact ⟨h a List.mem_cons_self, fun _ _ => ih⟩

/-- A traversal is undefined where an element is, with nothing thrown before. -/
theorem mapM_undefined {f : α → Except Fault β} : ∀ {l : List α}, l.mapM f = .error .undefined ↔
    ∃ before x after, l = before ++ x :: after ∧ (∀ y ∈ before, ∃ b, f y = .ok b) ∧ f x = .error .undefined
  | [] => by simp [pure, Except.pure]
  | a :: l => by
    have ih := mapM_undefined (f := f) (l := l)
    rw [List.mapM_cons]
    constructor
    · intro h
      cases ha : f a with
      | error e =>
        rw [ha] at h
        cases h
        exact ⟨[], a, l, rfl, nofun, ha⟩
      | ok b =>
        cases hl : l.mapM f with
        | ok bs =>
          rw [ha, hl] at h
          cases h
        | error e =>
          rw [ha, hl] at h
          cases h
          obtain ⟨before, x, after, rfl, hbefore, hx⟩ := ih.mp hl
          refine ⟨a :: before, x, after, rfl, ?_, hx⟩
          intro y hy
          rcases List.mem_cons.mp hy with rfl | hy
          · exact ⟨b, ha⟩
          · exact hbefore y hy
    · rintro ⟨before, x, after, heq, hbefore, hx⟩
      cases before with
      | nil =>
        cases heq
        rw [hx]
        rfl
      | cons y before =>
        cases heq
        obtain ⟨b, hb⟩ := hbefore a List.mem_cons_self
        rw [hb, ih.mpr ⟨before, x, after, rfl, fun y hy => hbefore y (List.mem_cons_of_mem _ hy), hx⟩]
        rfl

theorem mapM_range_undefined {n : Nat} {f : Nat → Except Fault β} : (List.range n).mapM f = .error .undefined ↔
    ∃ i < n, (∀ j < i, ∃ b, f j = .ok b) ∧ f i = .error .undefined := by
  rw [mapM_undefined]
  constructor
  · rintro ⟨before, i, after, heq, hbefore, hi⟩
    obtain ⟨rfl, hlt⟩ := range_split heq
    exact ⟨i, hlt, fun j hj => hbefore j (List.mem_range.mpr hj), hi⟩
  · rintro ⟨i, hlt, hbefore, hi⟩
    obtain ⟨before, after, heq⟩ := List.append_of_mem (List.mem_range.mpr hlt)
    obtain ⟨rfl, -⟩ := range_split heq
    exact ⟨_, i, after, heq, fun j hj => hbefore j (List.mem_range.mp hj), hi⟩

end

namespace Json

@[simp] theorem defined_getString (j : Json) : Defined j.getString := by cases j <;> simp [getString]

@[simp] theorem defined_getBool (j : Json) : Defined j.getBool := by cases j <;> simp [getBool]

@[simp] theorem defined_getDouble (j : Json) : Defined j.getDouble := by cases j <;> simp [getDouble]

@[simp] theorem defined_getInt64 (j : Json) : Defined j.getInt64 := by cases j <;> simp [getInt64]

@[simp] theorem defined_getInt32 (j : Json) : Defined j.getInt32 := by cases j <;> simp [getInt32]

@[simp] theorem defined_getStrings (j : Json) : Defined j.getStrings := by
  cases j with
  | arr xs => exact defined_mapM fun x _ => defined_getString x
  | _ => simp [getStrings]

end Json

/-! ## Encoded values -/

structure Encoded {α : Type} (decode : Json → Except Fault α) where
  json : Json
  value : α
  decodes : decode json = .ok value

theorem Encoded.mapM_json {α : Type} {decode : Json → Except Fault α} : ∀ (l : List (Encoded decode)),
    (l.map (·.json)).mapM decode = .ok (l.map (·.value))
  | [] => rfl
  | x :: l => by
    rw [List.map_cons, List.mapM_cons, x.decodes, mapM_json l]
    rfl

end Nlohmann
