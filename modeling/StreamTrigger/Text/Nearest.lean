namespace StreamTrigger.Text

def nearestNat (n : Nat) : Nat :=
  let unit := 1 <<< (n.log2 - 52)
  let quotient := n / unit
  let twice := n % unit * 2
  let up := unit < twice || (twice == unit && quotient % 2 == 1)
  (if up then quotient + 1 else quotient) * unit

/-- What a binary floating point number of 53 bits holds: the nearest such number, a half going to the even neighbour. -/
def nearest (n : Int) : Int := if 0 ≤ n then nearestNat n.toNat else -(nearestNat n.natAbs : Int)

end StreamTrigger.Text
