import TypedTrees.Decimal.Shortest
/-!
How a floating point number is written: the shortest digits that read back, laid out by a record of
decisions. `FloatLayout.display` is for values shown in texts, `FloatLayout.conversion` for the
conversion of a number to a string.
-/
namespace TypedTrees

/-- The decisions of a written form. The exponent of a number is that of its leading digit. -/
structure FloatLayout where
  /-- The exponents for which the digits are written around a plain decimal point. For all others
  an exponent follows the digits. -/
  positional : Int → Bool
  /-- Whether a whole number ends in `.0`. -/
  pointZero : Bool

namespace FloatLayout

/-- Values in texts: positional from 0.0001 up to below 10 to the 16th, whole numbers with `.0`. -/
def display : FloatLayout where
  positional := fun e => -4 ≤ e && e < 16
  pointZero := true

/-- Numbers turned into strings: always positional, whole numbers without a point. -/
def conversion : FloatLayout where
  positional := fun _ => true
  pointZero := false

def zeros (n : Nat) : String := String.ofList (List.replicate n '0')

/-- The written form of a positive decimal. -/
def decimal (layout : FloatLayout) (d : Decimal) : String :=
  let d := d.trim
  let digits := toString d.digits
  let count := digits.length
  let lead := d.exponent + (count : Int) - 1
  let whole := if layout.pointZero then ".0" else ""
  if layout.positional lead then
    if lead < 0 then "0." ++ zeros (-lead - 1).toNat ++ digits
    else
      let places := lead.toNat + 1
      if count ≤ places then digits ++ zeros (places - count) ++ whole
      else
        let chars := digits.toList
        String.ofList (chars.take places) ++ "." ++ String.ofList (chars.drop places)
  else
    let mantissa := match digits.toList with
      | [] => ""
      | [c] => String.singleton c
      | c :: rest => String.singleton c ++ "." ++ String.ofList rest
    mantissa ++ "e" ++ toString lead

/-- The written form of a number. The sign of zero is kept, that of a NaN is not. -/
def text (layout : FloatLayout) (x : Float) : String :=
  if x.isNaN then "NaN"
  else
    let bits := x.toBits
    let sign := if bits >>> 63 = 1 then "-" else ""
    let magnitude := bits &&& 0x7FFFFFFFFFFFFFFF
    let body :=
      if x.isInf then "inf"
      else if magnitude = 0 then if layout.pointZero then "0.0" else "0"
      else layout.decimal (Dyadic.ofBits magnitude).shortest
    sign ++ body

end FloatLayout

end TypedTrees
