import TagTemplate.Value.Basic

/-! The order of values. Only values of one sort have one: texts, octets, numbers and truth values
together, dates, and lists whose first different items have one. -/
namespace TagTemplate.Value

mutual
def less? : Value → Value → Option Bool
  | text a, text b => some (decide (a < b))
  | octets a, octets b => some (decide (a.map UInt8.toNat < b.map UInt8.toNat))
  | moment a, moment b => if a.isComparable b then some (decide (a.instant < b.instant)) else none
  | tuple as, tuple bs => lessItems? as bs
  | list as, list bs => lessItems? as bs
  | a, b =>
    match number? a, number? b with
    | some m, some n => some (m.order? n == some .lt)
    | _, _ => none

def lessItems? : List Value → List Value → Option Bool
  | [], [] => some false
  | [], _ :: _ => some true
  | _ :: _, [] => some false
  | a :: as, b :: bs => if sameKey a b then lessItems? as bs else less? a b
end

def sorted? (values : List Value) : Option (List Value) :=
  match values with
  | [] => some []
  | [value] => some [value]
  | _ =>
    if values.all fun a => values.all fun b => (less? a b).isSome then
      some (values.mergeSort fun a b => less? b a != some true)
    else none

end TagTemplate.Value
