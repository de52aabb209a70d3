import Think.Number.Arith

/-! # Random numbers

A linear congruential generator on 31 bits. Ranges are drawn without bias, by drawing as many bits
as the range needs until they fall into it.
-/

namespace Think.Random

def modulus : Nat := Nat.pow 2 31

def next (state : Nat) : Nat := (state * 1103515245 + 12345) % modulus

/-- A float between zero and one, and the new state. -/
def unit (state : Nat) : Float × Nat :=
  let x := next state
  (Binary64.nearest false x modulus, x)

/-- The state that a number sets. What has no integer sets zero. -/
def seed (n : Number) : Nat :=
  match n.toInt with
  | .ok k => (k % modulus).toNat
  | .error _ => 0

/-- Draws words of 31 bits until there are enough. -/
def words : (count : Nat) → (acc state : Nat) → Nat × Nat
  | 0, acc, state => (acc, state)
  | k + 1, acc, state =>
    let x := next state
    words k (acc * modulus + x) x

/-- A number of `k` random bits, and the new state. -/
def bits (k state : Nat) : Nat × Nat :=
  let count := (k + 30) / 31
  let (r, state) := words count 0 state
  (r / Nat.pow 2 (31 * count - k), state)

/-- Draws until the bits fall below `n`; `fuel` bounds the tries. -/
def below (n k : Nat) : (fuel state : Nat) → Option (Nat × Nat)
  | 0, _ => none
  | fuel + 1, state =>
    let (r, state) := bits k state
    if r < n then some (r, state) else below n k fuel state

/-- An integer from `a` up to but not including `b`, and the new state. -/
def range (a b : Int) (state : Nat) : Int × Nat :=
  let n := (b - a).toNat
  match below n (Nat.log2 n + 1) 100000 state with
  | some (r, state) => (a + r, state)
  | none => (a, state)

end Think.Random
