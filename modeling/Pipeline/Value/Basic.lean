import Pipeline.Number.Binary64

namespace Pipeline

open Number

structure Raised where
  label : String
  words : String
  /-- Whether it counts as a type error or as a value error. -/
  isUsual : Bool
deriving DecidableEq

/-- What the library does not look into. -/
inductive Foreign where
  | date
  | timeOfDay
  | moment
  | bytes (content : List UInt8)
  /-- A text with code points that are no characters. -/
  | brokenText
  /-- A generator that raises before it yields a member. -/
  | faulty (r : Raised)
  /-- A value of a class of the caller, with its literal or what is raised in place of it. -/
  | object (kind : String) (literal : Raised ⊕ String)
deriving DecidableEq

namespace Foreign

def kind : Foreign → String
  | date => "datetime.date"
  | timeOfDay => "datetime.time"
  | moment => "datetime.datetime"
  | bytes _ => "bytes"
  | brokenText => "str"
  | faulty _ => "generator"
  | object kind _ => kind

def decoded? (content : List UInt8) : Option String :=
  String.fromUTF8? (ByteArray.mk content.toArray)

end Foreign

inductive Value where
  | null
  | bool (b : Bool)
  | int (n : Int)
  | float (x : Binary64)
  | text (s : String)
  | tuple (items : List Value)
  | list (items : List Value)
  | set (items : List Value)
  | frozenSet (items : List Value)
  | dict (entries : List (String × Value))
  /-- A dictionary with a key that is no text. -/
  | mapping (entries : List (Value × Value))
  | stream (items : List Value)
  | connection (tail head : Value)
  | foreign (v : Foreign)

namespace Value

instance : Inhabited Value := ⟨.null⟩

def kind : Value → String
  | null => "NoneType"
  | bool _ => "bool"
  | int _ => "int"
  | float _ => "float"
  | text _ => "str"
  | tuple _ => "tuple"
  | list _ => "list"
  | set _ => "set"
  | frozenSet _ => "frozenset"
  | dict _ => "dict"
  | mapping _ => "dict"
  | stream _ => "generator"
  | connection _ _ => "Connection"
  | foreign v => v.kind

/-- What a value counts as where a yes or no is wanted: zero and what is empty count as no. -/
def truthy : Value → Bool
  | null => false
  | bool b => b
  | int n => n != 0
  | float x => !x.isZero
  | text s => s != ""
  | tuple items | list items | set items | frozenSet items => !items.isEmpty
  | dict entries => !entries.isEmpty
  | mapping entries => !entries.isEmpty
  | foreign (.bytes content) => !content.isEmpty
  | stream _ | connection _ _ | foreign _ => true

/-- The members a value yields one after the other; a text yields its characters and a dictionary
its keys. -/
def items? : Value → Option (List Value)
  | text s => some (s.toList.map fun c => text c.toString)
  | tuple items | list items | set items | frozenSet items | stream items => some items
  | dict entries => some (entries.map fun e => text e.1)
  | mapping entries => some (entries.map (·.1))
  | null | bool _ | int _ | float _ | connection _ _ | foreign _ => none

def raises? : Value → Option Raised
  | foreign (.faulty r) => some r
  | _ => none

/-- A whole number, where yes and no count as 1 and 0. -/
def int? : Value → Option Int
  | bool b => some (if b then 1 else 0)
  | int n => some n
  | _ => none

def number? : Value → Option Exact
  | float x => Exact.ofBinary64 x
  | v => v.int?.map Exact.ofInt

def isNumber : Value → Bool
  | bool _ | int _ | float _ => true
  | _ => false

def stageName? : Value → Option String
  | text s => if s = "" then none else some s
  | _ => none

theorem stageName?_eq_some_iff {v : Value} {s : String} :
    v.stageName? = some s ↔ v = .text s ∧ s ≠ "" := by
  cases v <;> simp [stageName?]
  constructor
  · rintro ⟨h, rfl⟩; exact ⟨rfl, h⟩
  · rintro ⟨rfl, h⟩; exact ⟨h, rfl⟩

end Value

end Pipeline
