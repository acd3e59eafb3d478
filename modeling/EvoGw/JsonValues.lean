import Mathlib.Data.List.Basic
import Mathlib.Data.List.Infix
import Mathlib.Data.List.Sort
import Mathlib.Data.String.Basic

/-!
# JSON values as Ruby objects

`JSON.parse` turns a text into Ruby objects, and the gateway then applies Ruby's
polymorphic operations to whatever it got: `[]`, truth tests, interpolation,
splats and hash keys. This module fixes the values and these operations, with
the exceptions they raise. Objects keep the textual order of their keys.

Numbers without fraction or exponent are integers; all others are doubles, kept
as their IEEE bits. Parsing, generating and the printed form of compound values
belong to the Ruby runtime and are parameters here; no result depends on how
they are computed.
-/
namespace EvoGw.JsonValues

inductive Json where
  | null
  | bool (b : Bool)
  | int (n : ℤ)
  | float (bits : BitVec 64)
  | str (s : String)
  | arr (items : List Json)
  | obj (fields : List (String × Json))

namespace Json

mutual
def same : Json → Json → Bool
  | .null, .null => true
  | .bool a, .bool b => decide (a = b)
  | .int a, .int b => decide (a = b)
  | .float a, .float b => decide (a = b)
  | .str a, .str b => decide (a = b)
  | .arr xs, .arr ys => sameItems xs ys
  | .obj fs, .obj gs => sameFields fs gs
  | _, _ => false

def sameItems : List Json → List Json → Bool
  | [], [] => true
  | x :: xs, y :: ys => x.same y && sameItems xs ys
  | _, _ => false

def sameFields : List (String × Json) → List (String × Json) → Bool
  | [], [] => true
  | (k, v) :: fs, (k', v') :: gs => decide (k = k') && (v.same v' && sameFields fs gs)
  | _, _ => false
end

mutual
theorem same_iff (a b : Json) : a.same b = true ↔ a = b := by
  cases a with
  | arr xs =>
      cases b with
      | arr ys => simp only [same, sameItems_iff xs ys, arr.injEq]
      | _ => simp [same]
  | obj fs =>
      cases b with
      | obj gs => simp only [same, sameFields_iff fs gs, obj.injEq]
      | _ => simp [same]
  | _ => cases b <;> simp [same]

theorem sameItems_iff (xs ys : List Json) : sameItems xs ys = true ↔ xs = ys := by
  cases xs with
  | nil => cases ys <;> simp [sameItems]
  | cons x xs =>
      cases ys with
      | nil => simp [sameItems]
      | cons y ys => simp only [sameItems, Bool.and_eq_true, same_iff x y, sameItems_iff xs ys,
          List.cons.injEq]

theorem sameFields_iff (fs gs : List (String × Json)) : sameFields fs gs = true ↔ fs = gs := by
  cases fs with
  | nil => cases gs <;> simp [sameFields]
  | cons f fs =>
      obtain ⟨k, v⟩ := f
      cases gs with
      | nil => simp [sameFields]
      | cons g gs =>
          obtain ⟨k', v'⟩ := g
          simp only [sameFields, Bool.and_eq_true, decide_eq_true_eq, same_iff v v',
            sameFields_iff fs gs, List.cons.injEq, Prod.mk.injEq, and_assoc]
end

instance : DecidableEq Json := fun a b => decidable_of_iff (a.same b = true) (same_iff a b)

mutual
/-- A canonical member of the class of a value under `eql?`, by which Ruby's
hashes compare keys: objects with the same fields in another order, and the two
zeros, are one key. -/
def eqlKey : Json → Json
  | .float bits => .float (if bits = 0x8000000000000000#64 then 0#64 else bits)
  | .arr items => .arr (eqlItems items)
  | .obj fields => .obj (eqlFields fields)
  | v => v

def eqlItems : List Json → List Json
  | [] => []
  | v :: vs => v.eqlKey :: eqlItems vs

def eqlFields : List (String × Json) → List (String × Json)
  | [] => []
  | (k, v) :: fs => (eqlFields fs).orderedInsert (fun a b => a.1 ≤ b.1) (k, v.eqlKey)
end

@[simp] theorem eqlKey_str (s : String) : eqlKey (.str s) = .str s := by simp [eqlKey]

/-- No other value is the same key as a string. -/
theorem eqlKey_eq_str {v : Json} {s : String} : v.eqlKey = .str s ↔ v = .str s := by
  cases v <;> simp [eqlKey]

/-- Only `nil` and `false` fail a Ruby condition. -/
def truthy : Json → Bool
  | .null => false
  | .bool b => b
  | _ => true

@[simp] theorem truthy_str (s : String) : truthy (.str s) = true := rfl

/-- A string or an integer: what devices and users are named by. -/
def IsName : Json → Prop
  | .str _ => True
  | .int _ => True
  | _ => False

end Json

/-- The exceptions that the modelled code can raise or meet. -/
inductive RubyError where
  | parserError
  | generatorError
  | typeError
  | noMethodError
  | argumentError
  | floatDomainError
  | redisError
  | socketError
  deriving DecidableEq, Repr

/-- `Hash#[]` with a string key; an absent key reads as `nil`. -/
def fetch (fields : List (String × Json)) (key : String) : Json :=
  match fields.lookup key with
  | some v => v
  | none => .null

/-- `value[key]` for a string `key`. `String#[]` is the substring test, integers
and arrays want an integer index, and the other values have no `[]`. -/
def Json.index (v : Json) (key : String) : Except RubyError Json :=
  match v with
  | .obj fields => .ok (fetch fields key)
  | .str s => .ok (if key.toList <:+: s.toList then .str key else .null)
  | .arr _ => .error .typeError
  | .int _ => .error .typeError
  | _ => .error .noMethodError

@[simp] theorem index_obj (fields : List (String × Json)) (key : String) :
    (Json.obj fields).index key = .ok (fetch fields key) := rfl

/-- Whether `[]` raises does not depend on the key. -/
theorem index_ok {v u : Json} {key : String} (h : v.index key = .ok u) (key' : String) :
    ∃ u', v.index key' = .ok u' := by
  cases v with
  | obj fields => exact ⟨_, rfl⟩
  | str s => exact ⟨_, rfl⟩
  | _ => cases h

/-- `*value` in an argument list. A hash is splatted into its pairs. -/
def Json.splat : Json → List Json
  | .null => []
  | .arr items => items
  | .obj fields => fields.map (fun f => .arr [.str f.1, f.2])
  | v => [v]

/-- What the gateway uses of the Ruby runtime and of its libraries: `JSON.parse`,
whether `to_json` succeeds, the printed form of doubles, arrays and hashes, and
the channels which `Redis#subscribe` accepts an argument for. A string argument
is its own channel, and `nil` is refused. -/
structure Runtime where
  parse : String → Option Json
  generates : Json → Bool
  inspect : Json → String
  channels : Json → List String
  channels_str : ∀ s, channels (.str s) = [s]
  channels_null : channels .null = []

/-- `"#{value}"`. -/
def Runtime.toS (rt : Runtime) : Json → String
  | .null => ""
  | .bool b => if b then "true" else "false"
  | .int n => toString n
  | .str s => s
  | v => rt.inspect v

@[simp] theorem toS_str (rt : Runtime) (s : String) : rt.toS (.str s) = s := rfl

/-- A runtime which reads the texts of a table and whose library calls succeed. -/
def Runtime.ofTable (table : List (String × Json)) : Runtime where
  parse := fun text => table.lookup text
  generates := fun _ => true
  inspect := fun _ => ""
  channels := fun
    | .str s => [s]
    | _ => []
  channels_str := fun _ => rfl
  channels_null := rfl

end EvoGw.JsonValues
