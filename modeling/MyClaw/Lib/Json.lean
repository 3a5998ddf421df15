import Mathlib.Data.List.Basic

set_option autoImplicit false

/-!
# JSON values

A JSON value with the partial readings that a program makes of it when it does not know its shape.

## Main definitions

* `JsonValue` — a value.
* `JsonValue.get`, `JsonValue.pointer` — the member of an object, and a path of members.
* `JsonValue.asStr`, `JsonValue.asU64`, `JsonValue.asArray`, `JsonValue.asBool` — the value if it is of
  the kind.

## Main results

* `JsonValue.induction_on` — induction over a value.
-/

/-- A JSON value. -/
inductive JsonValue
  | null
  | bool (b : Bool)
  /-- An integer of 64 bits without a sign. -/
  | num (n : ℕ)
  /-- Any other number, as its text. -/
  | otherNum (text : String)
  | str (s : String)
  | arr (items : List JsonValue)
  | obj (members : List (String × JsonValue))

namespace JsonValue

/-- **Induction over a value**: what holds of an object and of an array if it holds of what is in them, and
of everything else. -/
@[elab_as_elim]
theorem induction_on {P : JsonValue → Prop} (v : JsonValue)
    (obj : ∀ members, (∀ m ∈ members, P m.2) → P (.obj members))
    (arr : ∀ items, (∀ v ∈ items, P v) → P (.arr items)) (null : P .null) (bool : ∀ b, P (.bool b))
    (num : ∀ n, P (.num n)) (otherNum : ∀ text, P (.otherNum text)) (str : ∀ s, P (.str s)) : P v := by
  refine @JsonValue.rec P (fun items => ∀ v ∈ items, P v) (fun members => ∀ m ∈ members, P m.2)
    (fun m => P m.2) null bool num otherNum str arr obj ?_ ?_ ?_ ?_ ?_ v
  · exact fun _ h => absurd h List.not_mem_nil
  · exact fun v items hv hitems => List.forall_mem_cons.2 ⟨hv, hitems⟩
  · exact fun _ h => absurd h List.not_mem_nil
  · exact fun m members hm hmembers => List.forall_mem_cons.2 ⟨hm, hmembers⟩
  · exact fun _ _ hv => hv

/-- The member of an object. -/
def get (key : String) : JsonValue → Option JsonValue
  | .obj members => (members.find? fun m => m.1 = key).map (·.2)
  | _ => none

/-- The member at the end of a path of names. -/
def pointer (keys : List String) (v : JsonValue) : Option JsonValue :=
  keys.foldl (fun v key => v.bind (get key)) (some v)

/-- The text, if the value is one. -/
def asStr : JsonValue → Option String
  | .str s => some s
  | _ => none

/-- The number, if the value is an integer of 64 bits without a sign. -/
def asU64 : JsonValue → Option ℕ
  | .num n => some n
  | _ => none

/-- The items, if the value is an array. -/
def asArray : JsonValue → Option (List JsonValue)
  | .arr items => some items
  | _ => none

/-- The truth value, if the value is one. -/
def asBool : JsonValue → Option Bool
  | .bool b => some b
  | _ => none

/-- The text of a member, if it is one. -/
def strAt (key : String) (v : JsonValue) : Option String := (v.get key).bind asStr

/-- The number of a member, if it is one. -/
def u64At (key : String) (v : JsonValue) : Option ℕ := (v.get key).bind asU64

end JsonValue
