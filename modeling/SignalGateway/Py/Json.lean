import SignalGateway.Py.Str
import SignalGateway.Py.Float
import SignalGateway.Py.Int

/-!
# `SignalGateway.Py.Json`: what `json.loads` returns

A `Json` is a Python value that `json.loads` can build. An object is the list of its items,
in order. `json.loads` leaves one item per key, so `get` takes the first.

The accessors follow Python on values of every type: `Json.truthy` is `bool(x)`,
`Json.get?` is the method `x.get`, which only a `dict` has, and `Json.hashable` says whether
`x` can be looked up in a set. `Json.toStr` is `str(x)`. The text of floats and containers is
a parameter of it.

`Json.iter` goes over the items of a list, the keys of an object and the characters of a string, and
raises for other values. `Json.contains` is the operator `in` with a string on its left.
-/

set_option autoImplicit false

namespace SignalGateway

/-- A value that `json.loads` returns. -/
inductive Json where
  | null
  | bool (b : Bool)
  | int (i : ℤ)
  | float (f : PyFloat)
  | str (s : PyStr)
  | arr (items : List Json)
  | obj (items : List (PyStr × Json))

namespace Json

/-- `bool(x)`. -/
def truthy : Json → Bool
  | null => false
  | bool b => b
  | int i => i != 0
  | float f => f != .finite 0 (by norm_num)
  | str s => !s.isEmpty
  | arr items => !items.isEmpty
  | obj items => !items.isEmpty

/-- `x or y`. -/
def or (x y : Json) : Json := if x.truthy then x else y

/-- `d.get(key)` for the items of a `dict`: the value, or `None`. -/
def lookup (items : List (PyStr × Json)) (key : String) : Json :=
  (items.lookup (lit key)).getD null

/-- `x.get(key)`. Only a `dict` has the method. -/
def get? (x : Json) (key : String) : Except PyError Json :=
  match x with
  | obj items => .ok (lookup items key)
  | _ => .error .attributeError

/-- `x.get(key, default)`. -/
def getOr? (x : Json) (key : String) (default : Json) : Except PyError Json :=
  match x with
  | obj items => .ok ((items.lookup (lit key)).getD default)
  | _ => .error .attributeError

/-- `x == s` for a string `s`. -/
def eqStr (s : PyStr) : Json → Bool
  | str t => t == s
  | _ => false

/-- `s in x` for a string `s`. -/
def contains (s : PyStr) : Json → Except PyError Bool
  | str t => .ok (decide (s <:+: t))
  | arr items => .ok (items.any (eqStr s))
  | obj items => .ok (items.lookup s).isSome
  | _ => .error .typeError

/-- What a `for` loop over `x` visits. -/
def iter : Json → Except PyError (List Json)
  | arr items => .ok items
  | obj items => .ok (items.map fun item => str item.1)
  | str s => .ok (s.map fun c => str [c])
  | _ => .error .typeError

/-- `str(x)`. -/
def toStr (repr : Json → Except PyError PyStr) : Json → Except PyError PyStr
  | null => .ok (lit "None")
  | bool b => .ok (if b then lit "True" else lit "False")
  | int i => strInt i
  | str s => .ok s
  | x => repr x

/-- `int(x)`. -/
def toInt : Json → Except PyError ℤ
  | bool b => .ok (if b then 1 else 0)
  | int i => .ok i
  | float (.finite q _) => .ok (PyFloat.truncate q)
  | float .nan => .error .valueError
  | float _ => .error .overflowError
  | str s => intStr s
  | _ => .error .typeError

/-- Whether `hash(x)` is defined. It is not for a `list` and a `dict`. -/
def hashable : Json → Bool
  | arr _ | obj _ => false
  | _ => true

/-- `value if isinstance(value, str) and value else None` -/
def strOrNone : Json → Option PyStr
  | str s => if s.isEmpty then none else some s
  | _ => none

/-- `value if isinstance(value, int) else None`. A `bool` is an `int`. -/
def intOrNone : Json → Option ℤ
  | int i => some i
  | bool b => some (if b then 1 else 0)
  | _ => none

/-- `x` as a bound of a slice. -/
def toIndex (x : Json) : Except PyError ℤ :=
  match x.intOrNone with
  | some i => .ok i
  | none => .error .typeError

end Json

end SignalGateway
