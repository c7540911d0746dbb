/-!
# Jovian — JSON values, and reading them (`nlohmann::json`)

The values, and the accessors whose failures are exceptions:

* **`Json.valueString`, `valueBool`, `valueJson`** — `j.value(key, default)`: the default where
  an object has no such key, an exception where it has one of another type, and where `j` is
  no object at all.
* `Json.contains`, `isObject`, … never throw.

`Json.discarded` is what `json::parse` returns for a text that is not JSON when it is told
not to throw; it is no object either.
-/

namespace Jovian

@[simp] theorem ok_bind {ε α β : Type} (a : α) (f : α → Except ε β) : (.ok a >>= f) = f a := rfl

@[simp] theorem error_bind {ε α β : Type} (e : ε) (f : α → Except ε β) :
    (.error e >>= f) = .error e := rfl

/-- A JSON value. A number keeps its spelling: nothing here computes with it. -/
inductive Json where
  | discarded
  | null
  | bool (b : Bool)
  | number (spelling : String)
  | string (s : String)
  | array (elements : List Json)
  | object (members : List (String × Json))
deriving Repr

namespace Json

/-- What an accessor throws. -/
inductive Error where
  /-- `type_error` 306: `value()` on what is not an object. -/
  | notAnObject
  /-- `type_error` 302: a conversion to another type. -/
  | wrongType (key : String)
  /-- `type_error` 316: `dump()` of a string that is not UTF-8. -/
  | invalidUtf8
deriving DecidableEq, Repr

def isObject : Json → Bool
  | .object _ => true
  | _ => false

def isArray : Json → Bool
  | .array _ => true
  | _ => false

/-- The member `key` of an object; `none` also where `j` is none. -/
def get? (key : String) : Json → Option Json
  | .object members => members.lookup key
  | _ => none

def contains (j : Json) (key : String) : Bool :=
  (j.get? key).isSome

/-- `j.value(key, default)` -/
def value {α : Type} (j : Json) (key : String) (default : α) (get : Json → Option α) :
    Except Error α :=
  match j with
  | .object members =>
    match members.lookup key with
    | none => .ok default
    | some v =>
      match get v with
      | some a => .ok a
      | none => .error (.wrongType key)
  | _ => .error .notAnObject

def string? : Json → Option String
  | .string s => some s
  | _ => none

def bool? : Json → Option Bool
  | .bool b => some b
  | _ => none

def valueString (j : Json) (key default : String) : Except Error String :=
  j.value key default string?

def valueBool (j : Json) (key : String) (default : Bool) : Except Error Bool :=
  j.value key default bool?

/-- `value` of a `json` default: any value will do. -/
def valueJson (j : Json) (key : String) (default : Json) : Except Error Json :=
  j.value key default some

/-- The strings of an array, the rest left out. -/
def strings (elements : List Json) : List String :=
  elements.filterMap string?

section Value

variable {α : Type} {members : List (String × Json)} {key : String} {default : α}
  {get : Json → Option α}

theorem value_missing (h : members.lookup key = none) :
    (Json.object members).value key default get = .ok default := by
  simp [value, h]

theorem value_found {v : Json} {a : α} (h : members.lookup key = some v) (hget : get v = some a) :
    (Json.object members).value key default get = .ok a := by
  simp [value, h, hget]

/-- **When `value()` does not throw.** -/
theorem value_ok_iff {j : Json} :
    (∃ a, j.value key default get = .ok a) ↔
      j.isObject = true ∧ ∀ v, j.get? key = some v → (get v).isSome = true := by
  cases j with
  | object members =>
    simp only [value, isObject, get?, true_and]
    cases members.lookup key with
    | none => simp
    | some v => cases hget : get v <;> simp [hget]
  | _ => simp [value, isObject]

end Value

section ValueString

variable {j : Json} {key default : String}

theorem valueString_of_get (default : String) (hj : j.isObject = true) {s : String}
    (h : j.get? key = some (.string s)) : j.valueString key default = .ok s := by
  cases j with
  | object members => exact value_found h rfl
  | _ => cases hj

/-- What `value()` returned and is not the default was there. -/
theorem get_of_valueString {s : String} (h : j.valueString key default = .ok s)
    (hs : s ≠ default) : j.get? key = some (.string s) := by
  cases j with
  | object members =>
    simp only [valueString, value] at h
    show members.lookup key = _
    cases hv : members.lookup key with
    | none =>
      rw [hv] at h
      exact absurd (Except.ok.inj h).symm hs
    | some v =>
      rw [hv] at h
      cases v with
      | string s' =>
        have hs' : s' = s := Except.ok.inj h
        rw [hs']
      | _ => cases h
  | _ => cases h

theorem valueJson_eq (key : String) (hj : j.isObject = true) (default : Json) :
    j.valueJson key default = .ok ((j.get? key).getD default) := by
  cases j with
  | object members =>
    simp only [valueJson, value, get?]
    cases members.lookup key <;> rfl
  | _ => cases hj

end ValueString

end Json

end Jovian
