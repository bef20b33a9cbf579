import Cohort.Scalar.Basic
/-
  Hashing scalars and lists of scalars.

  The hash of a list of key values starts with the hash of the first value and COMBINES the others
  in order.  `combine` first mixes what it has and then adds the next hash, so that swapped values
  give different hashes; the mixer multiplies by an odd constant and folds high bits into low ones,
  steps that can all be undone, hence nothing of either argument is lost.  NULL and the empty list
  have fixed hashes.
-/

namespace Cohort.Hash

/-- The hash of NULL. -/
def ofNull : UInt64 := 0xA21258D088C87A13

/-- The hash of a key without values. -/
def ofNoValues : UInt64 := 49820

/-- The odd factor of the mixer. -/
def mixFactor : UInt64 := 0xE9846AF9B1A615D

/-- Spread the bits of a word over all its places. -/
def mix (x : UInt64) : UInt64 :=
  let x := (x ^^^ (x >>> 32)) * mixFactor
  let x := (x ^^^ (x >>> 32)) * mixFactor
  x ^^^ (x >>> 28)

/-- Add the hash of the next value to the hash of those before it. -/
def combine (before next : UInt64) : UInt64 := mix (mix before + 0x9E3779B9 + next)

/-- The hash of a list of values, given the hash of each. -/
def ofValues (hashValue : Scalar → UInt64) : List Scalar → UInt64
  | [] => ofNoValues
  | v :: vs => vs.foldl (fun before w => combine before (hashValue w)) (hashValue v)

/-- The hash of a sequence of bytes, on top of what was hashed before. -/
def addBytes (before : UInt64) (bytes : List UInt8) : UInt64 :=
  bytes.foldl (fun acc b => combine acc b.toUInt64) before

/-- The hash of one value.  It looks at the content only: a number, a truth value and a float of the
    same word hash alike. -/
def ofScalar : Scalar → UInt64
  | .null => ofNull
  | .boolean b => combine 0 (if b then 1 else 0)
  | .int v => combine 0 v.toUInt64
  | .float x => combine 0 x.bits
  | .text s => combine (addBytes 1 s.toUTF8.toList) 0xFF

/-- What a hash table is told about a key: a whole word replaces what was there, loose bytes are
    combined into it. -/
inductive Input
  | word (value : UInt64)
  | bytes (values : List UInt8)

/-- The state of a pass-through hasher after one input. -/
def feed (state : UInt64) : Input → UInt64
  | .word w => w
  | .bytes bs => addBytes state bs

/-- The result of a pass-through hasher, which starts at zero. -/
def passThrough (inputs : List Input) : UInt64 := inputs.foldl feed 0

/-- A key that hands over its own hash is found under exactly that hash. -/
theorem passThrough_word (w : UInt64) : passThrough [.word w] = w := rfl

end Cohort.Hash
