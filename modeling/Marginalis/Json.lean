import Mathlib.Data.List.Basic

/-!
# JSON values

`Json` is a JSON document as a tree, with the accessors programs use on it : the value
under a key, a value as a string, and the replacement of one entry of an object. The text
of a document is another matter : `JsonCodec` is any printer with any parser, and `render`
the printer that adds no white space.
-/

/-- A JSON document. A number is its literal, and the entries of an object are in the order
of their keys. -/
inductive Json
  | null
  | bool (b : Bool)
  | number (literal : String)
  | string (s : String)
  | array (elements : List Json)
  | object (fields : List (String × Json))

namespace Json

def asObject : Json → Option (List (String × Json))
  | object fields => some fields
  | _ => none

def asStr : Json → Option String
  | string s => some s
  | _ => none

def asArray : Json → Option (List Json)
  | array elements => some elements
  | _ => none

/-- The value of an entry, none when the document is not an object. -/
def get (value : Json) (key : String) : Option Json := do
  let fields ← value.asObject
  fields.lookup key

/-- The entry `key` when it is a string. -/
def getStr (value : Json) (key : String) : Option String := do
  let entry ← value.get key
  entry.asStr

/-- Set an entry, at the place its key has in the order. -/
def insertField (key : String) (value : Json) : List (String × Json) → List (String × Json)
  | [] => [(key, value)]
  | (k, v) :: fields =>
    if key = k then (key, value) :: fields
    else if key < k then (key, value) :: (k, v) :: fields
    else (k, v) :: insertField key value fields

theorem lookup_insertField (key : String) (value : Json) (fields : List (String × Json)) :
    (insertField key value fields).lookup key = some value := by
  induction fields with
  | nil => simp [insertField]
  | cons field fields ih =>
    obtain ⟨k, v⟩ := field
    unfold insertField
    split_ifs with heq hlt
    · simp
    · simp
    · have hne : (key == k) = false := beq_false_of_ne heq
      rw [List.lookup_cons, hne]
      exact ih

@[simp] theorem getStr_object_insertField (key s : String) (fields : List (String × Json)) :
    (object (insertField key (string s) fields)).getStr key = some s := by
  simp [getStr, get, asObject, lookup_insertField, asStr]

/-! ## The compact text -/

/-- A character inside a JSON string. -/
def escape (c : Char) : String :=
  if c = '"' then "\\\"" else if c = '\\' then "\\\\"
  else if c = '\n' then "\\n" else if c = '\r' then "\\r" else if c = '\t' then "\\t"
  else if c.toNat = 8 then "\\b" else if c.toNat = 12 then "\\f"
  else if c.toNat < 0x20 then
    "\\u00" ++ String.singleton (Nat.digitChar (c.toNat / 16)) ++
      String.singleton (Nat.digitChar (c.toNat % 16))
  else String.singleton c

def quote (s : String) : String := "\"" ++ String.join (s.toList.map escape) ++ "\""

mutual

/-- A document without white space. -/
def render : Json → String
  | null => "null"
  | bool b => if b then "true" else "false"
  | number literal => literal
  | string s => quote s
  | array elements => "[" ++ renderElements elements ++ "]"
  | object fields => "\x7b" ++ renderFields fields ++ "\x7d"

def renderElements : List Json → String
  | [] => ""
  | [e] => render e
  | e :: e' :: es => render e ++ "," ++ renderElements (e' :: es)

def renderFields : List (String × Json) → String
  | [] => ""
  | [(k, v)] => quote k ++ ":" ++ render v
  | (k, v) :: f :: fs => quote k ++ ":" ++ render v ++ "," ++ renderFields (f :: fs)

end

end Json

/-- A printer of JSON documents with a parser. -/
structure JsonCodec where
  encode : Json → String
  parse : String → Option Json
