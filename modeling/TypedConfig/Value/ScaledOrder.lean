import TypedConfig.Decimal.Scaled
import TypedConfig.Value.Order

/-!
# The order of values in machine integers

Values are compared step by step, as their order is, but their numbers are compared
as scaled numbers.  A step that finds a difference decides, and none behind it is
taken; a step that leaves the range of the machine leaves no answer.
-/

namespace TypedConfig
namespace Value

/-- What two steps decide, of which the later one is taken only where the earlier
one finds no difference. -/
def decideInTurn (first next : Checked Ordering) : Checked Ordering :=
  match first with
  | some .eq => next
  | decided => decided

mutual

/-- The order of values whose numbers are scaled numbers. -/
def compare? : Value → Value → Checked Ordering
  | .null s, .null t => some (Ord.compare s t)
  | .unknown s, .unknown t => some (Ord.compare s t)
  | .bool a, .bool b => some (Ord.compare a b)
  | .number a, .number b => a.scaled.compare? b.scaled
  | .string a, .string b => some (Ord.compare a b)
  | .list s as, .list t bs => decideInTurn (some (Ord.compare s t)) (compareAll? as bs)
  | .set s as, .set t bs => decideInTurn (some (Ord.compare s t)) (compareAll? as bs)
  | .map s as, .map t bs => decideInTurn (some (Ord.compare s t)) (compareEntries? as bs)
  | .tuple as, .tuple bs => compareAll? as bs
  | .object as, .object bs => compareEntries? as bs
  | a, b => some (Ord.compare a.rank b.rank)

/-- The order of sequences of values. -/
def compareAll? : List Value → List Value → Checked Ordering
  | [], [] => some .eq
  | [], _ :: _ => some .lt
  | _ :: _, [] => some .gt
  | a :: as, b :: bs => decideInTurn (a.compare? b) (compareAll? as bs)

/-- The order of sequences of names and values. -/
def compareEntries? : List (String × Value) → List (String × Value) → Checked Ordering
  | [], [] => some .eq
  | [], _ :: _ => some .lt
  | _ :: _, [] => some .gt
  | (n, a) :: as, (m, b) :: bs =>
      decideInTurn (decideInTurn (some (Ord.compare n m)) (a.compare? b))
        (compareEntries? as bs)

end

@[simp] theorem decideInTurn_some
    (first next : Ordering) :
    decideInTurn (some first) (some next) = some (first.then next) := by
  cases first <;> rfl

end Value
end TypedConfig
