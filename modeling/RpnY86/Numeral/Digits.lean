/-! # Writing numbers

Numbers as text: `decimal` and `hex` write an integer with the fewest digits and a sign only in
front of a negative one; `paddedDigits` fills up with zeros. -/

namespace RpnY86.Numeral

/-- The digits of `n` in the given radix, most significant first, at least one. -/
def digits (radix n : Nat) : List Char :=
  if _h : 2 ≤ radix ∧ radix ≤ n then digits radix (n / radix) ++ [Nat.digitChar (n % radix)]
  else [Nat.digitChar n]
termination_by n
decreasing_by exact Nat.div_lt_self (by omega) (by omega)

/-- The digits of `n`, with zeros in front up to `width` characters. -/
def paddedDigits (radix width n : Nat) : List Char :=
  let ds := digits radix n
  List.replicate (width - ds.length) '0' ++ ds

/-- An integer in the given radix, with a sign if it is negative. -/
def signedDigits (radix : Nat) : Int → List Char
  | .ofNat n => digits radix n
  | .negSucc n => '-' :: digits radix (n + 1)

/-- An integer in decimal. -/
def decimal (n : Int) : String := String.ofList (signedDigits 10 n)

/-- An integer in lower-case hexadecimal. -/
def hex (n : Int) : String := String.ofList (signedDigits 16 n)

/-- A natural number in at least `width` lower-case hexadecimal digits. -/
def paddedHex (width n : Nat) : String := String.ofList (paddedDigits 16 width n)

end RpnY86.Numeral
