import PartnerEdge.Text.Lines

/-!
# JSON values

JSON values as trees. The members of an object are kept in the order of their keys, as in a map
whose keys are ordered, so that two objects with the same members are equal.
-/

namespace PartnerEdge.Text

inductive JsonTree where
  | null
  | bool (b : Bool)
  | number (n : Int)
  | string (s : Str)
  | array (items : List JsonTree)
  | object (fields : List (Str × JsonTree))
deriving Repr

namespace JsonTree

mutual

def decEq : (a b : JsonTree) → Decidable (a = b)
  | .null, b => match b with
    | .null => isTrue rfl
    | .bool _ | .number _ | .string _ | .array _ | .object _ => isFalse (by simp)
  | .bool x, b => match b with
    | .bool y => decidable_of_iff (x = y) (by simp)
    | .null | .number _ | .string _ | .array _ | .object _ => isFalse (by simp)
  | .number x, b => match b with
    | .number y => decidable_of_iff (x = y) (by simp)
    | .null | .bool _ | .string _ | .array _ | .object _ => isFalse (by simp)
  | .string x, b => match b with
    | .string y => decidable_of_iff (x = y) (by simp)
    | .null | .bool _ | .number _ | .array _ | .object _ => isFalse (by simp)
  | .array xs, b => match b with
    | .array ys => @decidable_of_iff _ (xs = ys) (by simp) (decEqItems xs ys)
    | .null | .bool _ | .number _ | .string _ | .object _ => isFalse (by simp)
  | .object xs, b => match b with
    | .object ys => @decidable_of_iff _ (xs = ys) (by simp) (decEqFields xs ys)
    | .null | .bool _ | .number _ | .string _ | .array _ => isFalse (by simp)

def decEqItems : (xs ys : List JsonTree) → Decidable (xs = ys)
  | [], [] => isTrue rfl
  | [], _ :: _ => isFalse (by simp)
  | _ :: _, [] => isFalse (by simp)
  | x :: xs, y :: ys =>
    @decidable_of_iff _ (x = y ∧ xs = ys) (by simp)
      (@instDecidableAnd _ _ (decEq x y) (decEqItems xs ys))

def decEqFields : (xs ys : List (Str × JsonTree)) → Decidable (xs = ys)
  | [], [] => isTrue rfl
  | [], _ :: _ => isFalse (by simp)
  | _ :: _, [] => isFalse (by simp)
  | (k, x) :: xs, (l, y) :: ys =>
    @decidable_of_iff _ (k = l ∧ x = y ∧ xs = ys) (by simp [and_assoc])
      (@instDecidableAnd _ _ inferInstance
        (@instDecidableAnd _ _ (decEq x y) (decEqFields xs ys)))

end

instance : DecidableEq JsonTree := decEq

/-- The map with one more member, or another value for one it has. -/
def insert (key : Str) (value : JsonTree) : List (Str × JsonTree) → List (Str × JsonTree)
  | [] => [(key, value)]
  | (k, v) :: fields =>
    if key = k then (k, value) :: fields
    else if key < k then (key, value) :: (k, v) :: fields
    else (k, v) :: insert key value fields

/-- An object, from its members in any order. -/
def ofMembers (members : List (String × JsonTree)) : JsonTree :=
  .object (members.foldl (fun fields m => insert m.1.toList m.2 fields) [])

/-- `value[key] = new`; every other value is left as it is. -/
def set (value : JsonTree) (key : String) (new : JsonTree) : JsonTree :=
  match value with
  | .object fields => .object (insert key.toList new fields)
  | value => value

/-- `Value::get` with a key. -/
def get (value : JsonTree) (key : String) : Option JsonTree :=
  match value with
  | .object fields => fields.lookup key.toList
  | _ => none

def asStr : JsonTree → Option Str
  | .string s => some s
  | _ => none

def asArray : JsonTree → Option (List JsonTree)
  | .array items => some items
  | _ => none

theorem lookup_insert_self (key : Str) (value : JsonTree) (fields : List (Str × JsonTree)) :
    (insert key value fields).lookup key = some value := by
  induction fields with
  | nil => simp [insert]
  | cons field fields ih =>
    obtain ⟨k, v⟩ := field
    rw [insert]
    split_ifs with hk hlt
    · rw [hk, List.lookup_cons_self]
    · rw [List.lookup_cons_self]
    · rw [List.lookup_cons, beq_false_of_ne hk]
      exact ih

theorem lookup_insert_of_ne {key k : Str} (hne : k ≠ key) (value : JsonTree)
    (fields : List (Str × JsonTree)) : (insert key value fields).lookup k = fields.lookup k := by
  induction fields with
  | nil => simp [insert, List.lookup_cons, beq_false_of_ne hne]
  | cons field fields ih =>
    obtain ⟨l, v⟩ := field
    rw [insert]
    split_ifs with hl hlt
    · rw [List.lookup_cons, List.lookup_cons, beq_false_of_ne (hl ▸ hne)]
    · rw [List.lookup_cons, beq_false_of_ne hne]
    · rw [List.lookup_cons, List.lookup_cons, ih]

theorem set_ofMembers (members : List (String × JsonTree)) (key : String) (value : JsonTree) :
    (ofMembers members).set key value = ofMembers (members ++ [(key, value)]) := by
  simp [ofMembers, set, List.foldl_append]

/-- The last member of a key is the one that counts. -/
theorem get_ofMembers (members : List (String × JsonTree)) (key : String) :
    (ofMembers members).get key = members.reverse.lookup key := by
  induction members using List.reverseRecOn with
  | nil => rfl
  | append_singleton members m ih =>
    obtain ⟨k, v⟩ := m
    rw [List.reverse_append, List.reverse_singleton, List.singleton_append, ← set_ofMembers,
      List.lookup_cons]
    by_cases hk : key = k
    · rw [hk, beq_self_eq_true]
      exact lookup_insert_self ..
    · rw [beq_false_of_ne hk, ← ih]
      exact lookup_insert_of_ne (fun h => hk (String.toList_injective h)) ..

example : (ofMembers [("b", .number 1), ("a", .null)]).get "b" = some (.number 1) := by decide

end JsonTree

end PartnerEdge.Text
