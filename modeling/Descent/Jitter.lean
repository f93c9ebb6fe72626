import Descent.Scalar

/-!
The deterministic source of step jitter: the xoshiro256++ generator, seeded from one word. A draw
is an exact multiple of `2 ^ -51` in `[-1, 1)`, and it is rounded only when it becomes a scalar.
-/

namespace Descent

structure Jitter where
  s0 : UInt64
  s1 : UInt64
  s2 : UInt64
  s3 : UInt64
  deriving DecidableEq

namespace Jitter

def rotateLeft (word : UInt64) (amount : UInt64) : UInt64 :=
  word <<< amount ||| word >>> (64 - amount)

def rotateRight32 (word : UInt32) (amount : UInt32) : UInt32 :=
  word >>> amount ||| word <<< (32 - amount)

/-- One step of a congruential generator and its permuted output. -/
def congruential (state : UInt64) : UInt64 × UInt32 :=
  let state := state * 6364136223846793005 + 11634580027462260723
  let folded := (((state >>> 18) ^^^ state) >>> 27).toUInt32
  (state, rotateRight32 folded (state >>> 59).toUInt32)

def congruentialPair (state : UInt64) : UInt64 × UInt64 :=
  let (state, low) := congruential state
  let (state, high) := congruential state
  (state, low.toUInt64 ||| high.toUInt64 <<< 32)

def mixed (state : UInt64) : UInt64 × UInt64 :=
  let state := state + 0x9e3779b97f4a7c15
  let z := (state ^^^ (state >>> 30)) * 0xbf58476d1ce4e5b9
  let z := (z ^^^ (z >>> 27)) * 0x94d049bb133111eb
  (state, z ^^^ (z >>> 31))

def fill (word : UInt64 → UInt64 × UInt64) (state : UInt64) : Jitter :=
  let (state, s0) := word state
  let (state, s1) := word state
  let (state, s2) := word state
  let (_, s3) := word state
  { s0, s1, s2, s3 }

/-- The all-zero state would never change and is replaced. -/
def ofSeed (seed : UInt64) : Jitter :=
  let state := fill congruentialPair seed
  if state = ⟨0, 0, 0, 0⟩ then fill mixed 0 else state

def next (state : Jitter) : UInt64 × Jitter :=
  let result := rotateLeft (state.s0 + state.s3) 23 + state.s0
  let shifted := state.s1 <<< 17
  let s2 := state.s2 ^^^ state.s0
  let s3 := state.s3 ^^^ state.s1
  let s1 := state.s1 ^^^ s2
  let s0 := state.s0 ^^^ s3
  (result, { s0, s1, s2 := s2 ^^^ shifted, s3 := rotateLeft s3 45 })

def middle : Nat := Nat.pow 2 51

/-- The multiple of `2 ^ -51` that a word stands for: its upper 52 bits, shifted to be centred
at zero. -/
def centred {F : Type} [Scalar F] (word : UInt64) : F :=
  let upper := (word >>> 12).toNat
  if upper < middle then -(((middle - upper : Nat) : F) / ((middle : Nat) : F))
  else ((upper - middle : Nat) : F) / ((middle : Nat) : F)

def draw {F : Type} [Scalar F] (state : Jitter) : F × Jitter :=
  let (word, state) := state.next
  (centred word, state)

end Jitter

end Descent
