/-! # JSON values

`Json` keeps the members of an object in the order of the text, repeated names included, because a
document is judged before it is simplified.  `Json.canonical` is the value that a document means
where only its content counts: every object sorted by name, the last member of a name winning. -/

namespace BlockFlow

/-- A number is an integer that fits 64 bits, signed or unsigned, or else a binary floating point
number. -/
inductive Json.Number where
  | int (n : Int)
  | float (x : Float)
  deriving Inhabited

/-- A JSON value. -/
inductive Json where
  | null
  | bool (b : Bool)
  | num (n : Json.Number)
  | str (s : String)
  | arr (items : List Json)
  | obj (members : List (String × Json))
  deriving Inhabited

namespace Json

/-- The member of this name, the last one if it is repeated. -/
def lookup? (name : String) : List (String × Json) → Option Json
  | [] => none
  | (k, v) :: ms => (lookup? name ms).or (if k = name then some v else none)

/-- Adds a member to members sorted by name, unless its name is there already. -/
def addMember (k : String) (v : Json) : List (String × Json) → List (String × Json)
  | [] => [(k, v)]
  | (k', v') :: ms =>
    if k < k' then (k, v) :: (k', v') :: ms
    else if k = k' then (k', v') :: ms
    else (k', v') :: addMember k v ms

mutual

/-- Every object sorted by name, of members with one name only the last. -/
def canonical : Json → Json
  | .arr items => .arr (canonicalItems items)
  | .obj members => .obj (canonicalMembers members)
  | .null => .null
  | .bool b => .bool b
  | .num n => .num n
  | .str s => .str s

/-- The items of a list, each in canonical form. -/
def canonicalItems : List Json → List Json
  | [] => []
  | v :: vs => canonical v :: canonicalItems vs

/-- The members of an object, sorted by name and each in canonical form. -/
def canonicalMembers : List (String × Json) → List (String × Json)
  | [] => []
  | (k, v) :: ms => addMember k (canonical v) (canonicalMembers ms)

end

end Json

end BlockFlow
