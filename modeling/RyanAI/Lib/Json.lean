import Mathlib.Tactic
import Mathlib.Data.Rat.Defs

/-!
# JSON values with Python's reading of them

`Json` is what `json.loads` returns: objects are dictionaries in insertion order, and both kinds of
number are their exact values. `truthy` is the test of an `if` or an `or`, `eqv` is `==`, under which
a number, a truth value and a float of the same value are equal and the order of the keys of an
object is irrelevant. `Raised` lists the exceptions that the operations raise on values of the wrong
type.
-/

namespace RyanAI.Lib

inductive Json where
  | null
  | bool (b : Bool)
  | num (q : ℚ)
  | str (s : String)
  | arr (items : List Json)
  | obj (fields : List (String × Json))

mutual

def Json.decEq : (a b : Json) → Decidable (a = b)
  | .null, .null => isTrue rfl
  | .bool a, .bool b => decidable_of_iff (a = b) (by simp)
  | .num a, .num b => decidable_of_iff (a = b) (by simp)
  | .str a, .str b => decidable_of_iff (a = b) (by simp)
  | .arr xs, .arr ys =>
    haveI := Json.decEqList xs ys
    decidable_of_iff (xs = ys) (by simp)
  | .obj xs, .obj ys =>
    haveI := Json.decEqFields xs ys
    decidable_of_iff (xs = ys) (by simp)
  | .null, .bool _ | .null, .num _ | .null, .str _ | .null, .arr _ | .null, .obj _ => isFalse nofun
  | .bool _, .null | .bool _, .num _ | .bool _, .str _ | .bool _, .arr _ | .bool _, .obj _ => isFalse nofun
  | .num _, .null | .num _, .bool _ | .num _, .str _ | .num _, .arr _ | .num _, .obj _ => isFalse nofun
  | .str _, .null | .str _, .bool _ | .str _, .num _ | .str _, .arr _ | .str _, .obj _ => isFalse nofun
  | .arr _, .null | .arr _, .bool _ | .arr _, .num _ | .arr _, .str _ | .arr _, .obj _ => isFalse nofun
  | .obj _, .null | .obj _, .bool _ | .obj _, .num _ | .obj _, .str _ | .obj _, .arr _ => isFalse nofun

def Json.decEqList : (xs ys : List Json) → Decidable (xs = ys)
  | [], [] => isTrue rfl
  | [], _ :: _ => isFalse nofun
  | _ :: _, [] => isFalse nofun
  | x :: xs, y :: ys =>
    haveI := Json.decEq x y
    haveI := Json.decEqList xs ys
    decidable_of_iff (x = y ∧ xs = ys) (by simp)

def Json.decEqFields : (xs ys : List (String × Json)) → Decidable (xs = ys)
  | [], [] => isTrue rfl
  | [], _ :: _ => isFalse nofun
  | _ :: _, [] => isFalse nofun
  | (k, x) :: xs, (l, y) :: ys =>
    haveI := Json.decEq x y
    haveI := Json.decEqFields xs ys
    decidable_of_iff ((k = l ∧ x = y) ∧ xs = ys) (by simp)

end

instance : DecidableEq Json := Json.decEq

abbrev Dict := List (String × Json)

inductive Raised where
  | typeError
  | attributeError
  | keyError
  | invalidOperation
  | recursionError
  deriving DecidableEq

variable {ε α β : Type} {k : String} {d : Dict} {v : Json}

theorem bind_eq_ok {f : α → Except ε β} : (x >>= f) = .ok b ↔ ∃ a, x = .ok a ∧ f a = .ok b := by
  cases x with
  | error e =>
    constructor
    · intro h
      cases h
    · rintro ⟨a, h, -⟩
      cases h
  | ok a =>
    constructor
    · intro h
      exact ⟨a, rfl, h⟩
    · rintro ⟨a', h, hf⟩
      cases h
      exact hf

theorem ok_bind (a : α) (f : α → Except ε β) : (Except.ok a >>= f) = f a := rfl

theorem error_bind (e : ε) (f : α → Except ε β) : ((Except.error e : Except ε α) >>= f) = .error e := rfl

/-- `d.get(k)`. -/
def Dict.get (d : Dict) (k : String) : Json := (d.lookup k).getD .null

/-- `d[k] = v`: a new key goes to the end. -/
def Dict.set (d : Dict) (k : String) (v : Json) : Dict :=
  match d with
  | [] => [(k, v)]
  | (k', v') :: rest => if k' = k then (k, v) :: rest else (k', v') :: Dict.set rest k v

/-- `d.update(other)`. -/
def Dict.update (d other : Dict) : Dict := other.foldl (fun acc kv => Dict.set acc kv.1 kv.2) d

/-! ## Fields of an object -/

namespace Dict

theorem lookup_cons (k k₀ : String) (v₀ : Json) (rest : Dict) :
    List.lookup k ((k₀, v₀) :: rest) = if k = k₀ then some v₀ else rest.lookup k := by
  rw [List.lookup_cons]
  by_cases hk : k = k₀
  · rw [if_pos hk, beq_iff_eq.2 hk]
  · rw [if_neg hk, beq_eq_false_iff_ne.2 hk]

theorem lookup_set (d : Dict) (k k' : String) (v : Json) :
    (Dict.set d k v).lookup k' = if k' = k then some v else d.lookup k' := by
  induction d with
  | nil => rw [Dict.set, lookup_cons]
  | cons entry rest ih =>
    obtain ⟨k₀, v₀⟩ := entry
    rw [Dict.set]
    by_cases h₀ : k₀ = k
    · subst h₀
      rw [if_pos rfl, lookup_cons, lookup_cons]
      by_cases hk : k' = k₀
      · simp [hk]
      · simp [hk]
    · rw [if_neg h₀, lookup_cons, lookup_cons, ih]
      by_cases hk : k' = k₀
      · subst hk
        simp [h₀]
      · simp [hk]

@[simp] theorem lookup_set_self (d : Dict) (k : String) (v : Json) : (Dict.set d k v).lookup k = some v := by
  rw [lookup_set, if_pos rfl]

theorem lookup_set_of_ne (d : Dict) (h : k' ≠ k) (v : Json) : (Dict.set d k v).lookup k' = d.lookup k' := by
  rw [lookup_set, if_neg h]

theorem set_set (d : Dict) (k : String) (v w : Json) : Dict.set (Dict.set d k v) k w = Dict.set d k w := by
  induction d with
  | nil => simp [Dict.set]
  | cons entry rest ih =>
    obtain ⟨k₀, v₀⟩ := entry
    by_cases h₀ : k₀ = k
    · simp [Dict.set, h₀]
    · simp [Dict.set, h₀, ih]

theorem set_of_lookup (h : d.lookup k = some v) : Dict.set d k v = d := by
  induction d with
  | nil => cases h
  | cons entry rest ih =>
    obtain ⟨k₀, v₀⟩ := entry
    rw [lookup_cons] at h
    rw [Dict.set]
    by_cases h₀ : k₀ = k
    · rw [if_pos h₀.symm] at h
      cases h
      rw [if_pos h₀, h₀]
    · rw [if_neg (Ne.symm h₀)] at h
      rw [if_neg h₀, ih h]

theorem mem_set (h : entry ∈ Dict.set d k v) : entry = (k, v) ∨ entry ∈ d := by
  induction d with
  | nil => exact .inl (List.mem_singleton.1 h)
  | cons entry' rest ih =>
    rw [Dict.set] at h
    split at h
    · rcases List.mem_cons.1 h with rfl | hrest
      · exact .inl rfl
      · exact .inr (List.mem_cons_of_mem _ hrest)
    · rcases List.mem_cons.1 h with rfl | hrest
      · exact .inr List.mem_cons_self
      · rcases ih hrest with hnew | hold
        · exact .inl hnew
        · exact .inr (List.mem_cons_of_mem _ hold)

theorem nodup_set (hd : (d.map Prod.fst).Nodup) (k : String) (v : Json) : ((Dict.set d k v).map Prod.fst).Nodup := by
  induction d with
  | nil => simp [Dict.set]
  | cons entry rest ih =>
    obtain ⟨k₀, v₀⟩ := entry
    rw [List.map_cons, List.nodup_cons] at hd
    rw [Dict.set]
    split
    · rename_i h₀
      subst h₀
      exact List.nodup_cons.2 hd
    rename_i h₀
    refine List.nodup_cons.2 ⟨?_, ih hd.2⟩
    intro hmem
    obtain ⟨entry, hentry, hkey⟩ := List.mem_map.1 hmem
    rcases mem_set hentry with rfl | hold
    · exact h₀ hkey.symm
    · exact hd.1 (List.mem_map.2 ⟨entry, hold, hkey⟩)

theorem mem_of_lookup (h : d.lookup k = some v) : (k, v) ∈ d := by
  induction d with
  | nil => cases h
  | cons entry rest ih =>
    obtain ⟨k₀, v₀⟩ := entry
    rw [lookup_cons] at h
    split at h
    · rename_i hk
      cases h
      rw [hk]
      exact List.mem_cons_self
    · exact List.mem_cons_of_mem _ (ih h)

theorem lookup_of_mem (hd : (d.map Prod.fst).Nodup) (h : (k, v) ∈ d) : d.lookup k = some v := by
  induction d with
  | nil => cases h
  | cons entry rest ih =>
    obtain ⟨k₀, v₀⟩ := entry
    rw [List.map_cons, List.nodup_cons] at hd
    rcases List.mem_cons.1 h with heq | hrest
    · cases heq
      rw [lookup_cons, if_pos rfl]
    have hne : k ≠ k₀ := by
      rintro rfl
      exact hd.1 (List.mem_map.2 ⟨(k, v), hrest, rfl⟩)
    rw [lookup_cons, if_neg hne]
    exact ih hd.2 hrest

theorem mem_keys_iff : k ∈ d.map Prod.fst ↔ (d.lookup k).isSome := by
  constructor
  · intro h
    induction d with
    | nil => cases h
    | cons entry rest ih =>
      obtain ⟨k₀, v₀⟩ := entry
      by_cases hk : k = k₀
      · rw [lookup_cons, if_pos hk]
        rfl
      · have hrest : k ∈ rest.map Prod.fst := by simpa [hk] using h
        rw [lookup_cons, if_neg hk]
        exact ih hrest
  · intro h
    obtain ⟨v, hv⟩ := Option.isSome_iff_exists.1 h
    exact List.mem_map.2 ⟨(k, v), mem_of_lookup hv, rfl⟩

end Dict

namespace Json

def truthy : Json → Bool
  | .null => false
  | .bool b => b
  | .num q => q ≠ 0
  | .str s => s ≠ ""
  | .arr items => !items.isEmpty
  | .obj fields => !fields.isEmpty

/-- `a or b`, with both operands already evaluated. -/
def orElse (a b : Json) : Json := if a.truthy then a else b

def number : Json → Option ℚ
  | .bool b => some (if b then 1 else 0)
  | .num q => some q
  | _ => none

mutual

/-- `a == b`. -/
def eqv : Json → Json → Bool
  | .null, .null => true
  | .str s, .str t => s == t
  | .arr xs, .arr ys => eqvList xs ys
  | .obj xs, .obj ys => xs.length == ys.length && eqvFields xs ys
  | .bool b, y => y.number == some (if b then 1 else 0)
  | .num q, y => y.number == some q
  | _, _ => false

def eqvList : List Json → List Json → Bool
  | [], [] => true
  | x :: xs, y :: ys => eqv x y && eqvList xs ys
  | _, _ => false

def eqvFields : List (String × Json) → List (String × Json) → Bool
  | [], _ => true
  | (k, v) :: rest, ys =>
    (match ys.lookup k with
      | some w => eqv v w
      | none => false) && eqvFields rest ys

end

def hashable : Json → Bool
  | .arr _ => false
  | .obj _ => false
  | _ => true

/-- `value.get(k)`. -/
def get (k : String) : Json → Except Raised Json
  | .obj fields => .ok (Dict.get fields k)
  | _ => .error .attributeError

/-- `value.items()`. -/
def items : Json → Except Raised Dict
  | .obj fields => .ok fields
  | _ => .error .attributeError

end Json

end RyanAI.Lib
