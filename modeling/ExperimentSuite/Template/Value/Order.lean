import ExperimentSuite.Template.Value

/-!
# Equality and order of values

Numbers of different kinds are equal when they have one value, and a truth value
equals zero or one. The order puts values of different kinds one after another:
undefined ones, none, truth values, numbers, texts, lists and mappings. Floats
are totally ordered, the negative zero before the positive one. Mappings are
kept in the order of their keys.
-/

namespace ExperimentSuite

namespace Template

namespace Value

/-- A pair of numbers of one kind. -/
inductive NumberPair where
  | ints (a b : Int)
  | floats (a b : Float)

/-- Two values as numbers of one kind: floats if one of them is a float. -/
def numberPair? : Value → Value → Option NumberPair
  | .float x, b => b.float?.map (.floats x)
  | a, .float y => a.float?.map (.floats · y)
  | a, b => do
      let m ← a.int?
      let n ← b.int?
      return .ints m n

/-- Whether a value is a float or an integer that a float holds exactly. -/
def isExact : Value → Bool
  | .int n => exactInt? (floatOfInt n) == some n
  | _ => true

/-- Whether two values are one number. -/
def sameNumber (a b : Value) : Bool :=
  match numberPair? a b with
  | some (.ints m n) => m == n
  | some (.floats x y) => x == y && isExact a && isExact b
  | none => false

mutual

/-- Equality of values. -/
def same : Value → Value → Bool
  | .undefined _, .undefined _ => true
  | .null, .null => true
  | .str a, .str b => a == b
  | .list as, .list bs => sameItems as bs
  | .map as, .map bs => sameEntries as bs
  | a, b => sameNumber a b

/-- Itemwise equality. -/
def sameItems : List Value → List Value → Bool
  | [], [] => true
  | a :: as, b :: bs => same a b && sameItems as bs
  | _, _ => false

/-- Entrywise equality. -/
def sameEntries : List (Value × Value) → List (Value × Value) → Bool
  | [], [] => true
  | (k, a) :: as, (l, b) :: bs => same k l && same a b && sameEntries as bs
  | _, _ => false

end

/-- The place of a value's kind among the kinds. -/
def rank : Value → Nat
  | .undefined _ => 0
  | .null => 1
  | .bool _ => 2
  | .int _ => 3
  | .float _ => 3
  | .str _ => 4
  | .list _ => 5
  | .map _ => 6

/-- The place of a float among all floats. -/
def floatKey (x : Float) : Int :=
  let bits := x.toBits
  let magnitude : Int := (bits &&& 0x7FFFFFFFFFFFFFFF).toNat
  if bits >>> 63 == 1 then -magnitude - 1 else magnitude

/-- The order of two numbers. -/
def compareNumbers (a b : Value) : Ordering :=
  match numberPair? a b with
  | some (.ints m n) => compare m n
  | some (.floats x y) => compare (floatKey x) (floatKey y)
  | none => .eq

mutual

/-- The order of two values. -/
def order : Value → Value → Ordering
  | .str a, .str b => if a < b then .lt else if a = b then .eq else .gt
  | .list as, .list bs => orderItems as bs
  | .map as, .map bs => orderEntries as bs
  | a, b => (compare a.rank b.rank).then (compareNumbers a b)

/-- The order of two lists: that of their first items that differ. -/
def orderItems : List Value → List Value → Ordering
  | [], [] => .eq
  | [], _ :: _ => .lt
  | _ :: _, [] => .gt
  | a :: as, b :: bs => (order a b).then (orderItems as bs)

/-- The order of two lists of entries. -/
def orderEntries : List (Value × Value) → List (Value × Value) → Ordering
  | [], [] => .eq
  | [], _ :: _ => .lt
  | _ :: _, [] => .gt
  | (k, a) :: as, (l, b) :: bs => ((order k l).then (order a b)).then (orderEntries as bs)

end

/-- Stores an entry in the order of keys; an equal key stays and gets the new value. -/
def insertEntry (key value : Value) : List (Value × Value) → List (Value × Value)
  | [] => [(key, value)]
  | (k, v) :: rest =>
      match order key k with
      | .lt => (key, value) :: (k, v) :: rest
      | .eq => (k, value) :: rest
      | .gt => (k, v) :: insertEntry key value rest

/-- The value under a key. -/
def valueUnder? (key : Value) (entries : List (Value × Value)) : Option Value :=
  (entries.find? fun e => order key e.1 == .eq).map (·.2)

end Value

end Template

end ExperimentSuite
