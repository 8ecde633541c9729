import Conform.Unicode.Direction

/-!
# Directions in domain names

If any label of a domain name is written from right to left, each label must
begin with a letter and keep to the direction of that letter to its end.
-/

namespace Conform

namespace Domain

open Unicode (Direction)

/-- Whether some character of a label makes the whole name one of mixed directions. -/
def turnsLeft (label : List Char) : Bool :=
  label.any fun c =>
    match Direction.ofChar c with
    | .rightToLeft | .arabicNumber => true
    | _ => false

/-- Whether a label may be written from left to right. -/
def runsRight (ds : List Direction) : Bool :=
  ds.all (fun d => d != .rightToLeft && d != .arabicNumber) &&
    match ds.reverse.find? (· != .mark) with
    | some .leftToRight | some .europeanNumber => true
    | _ => false

/-- Whether a label may be written from right to left; it has numbers of one kind only. -/
def runsLeft (ds : List Direction) : Bool :=
  !ds.contains .leftToRight && !(ds.contains .arabicNumber && ds.contains .europeanNumber) &&
    match ds.reverse.find? (· != .mark) with
    | some .rightToLeft | some .arabicNumber | some .europeanNumber => true
    | _ => false

/-- Whether a label keeps to the direction of its first character. -/
def keepsDirection (label : List Char) : Bool :=
  let ds := label.map Direction.ofChar
  match ds with
  | [] => true
  | .leftToRight :: _ => runsRight ds
  | .rightToLeft :: _ => runsLeft ds
  | _ => false

/-- Whether the labels of a name may stand together. -/
def keepDirection (labels : List (List Char)) : Bool :=
  !labels.any turnsLeft || labels.all keepsDirection

end Domain

end Conform
