import PulseNoise.Error
import PulseNoise.Sampling.ChaCha
import PulseNoise.Sampling.NormalLayers

/-!
# Distributions

Samples of the normal and of the uniform distribution from a stream of random words.

* `Distribution.normal?` and `Distribution.uniform?` check the parameters of a distribution; they
  draw nothing.
* `Distribution.sample` takes one sample from a generator, `Distribution.samples` a number of them.
* `Distribution.samples_add` says that samples are one stream: drawing a number of them and then
  another number is drawing both numbers at once.
-/

namespace PulseNoise.Sampling

inductive DistributionKind
  /-- The Gaussian of a mean and a spread. -/
  | normal
  /-- The flat distribution on an interval without its upper end. -/
  | uniform
  deriving BEq, DecidableEq, Repr

namespace DistributionKind

instance : Inhabited DistributionKind := ⟨normal⟩

instance : ToString DistributionKind :=
  ⟨fun
    | normal => "normal"
    | uniform => "uniform"⟩

end DistributionKind

/-- A distribution with checked parameters. -/
inductive Distribution
  | normal (mean spread : Float)
  /-- All of `low + u * width` for `u` from zero up to one. -/
  | uniform (low width : Float)
  deriving DecidableEq, Repr

/-- The double in `[2 ^ e, 2 ^ (e + 1))` whose fraction bits are the upper bits of a word; the
exponent is given with its bias. -/
def withFraction (biasedExponent w : UInt64) : Float :=
  Float.ofBits ((biasedExponent <<< 52) ||| (w >>> 12))

def unitDouble (w : UInt64) : Float := withFraction 1023 w - 1.0

def openUnitDouble (w : UInt64) : Float :=
  withFraction 1023 w - (1.0 - Float.ofBits 0x3ca0000000000000)

/-- A double in `[0, 1)` from the upper 53 bits of a word. -/
def fineUnitDouble (w : UInt64) : Float :=
  (w >>> 11).toFloat * Float.ofBits 0x3ca0000000000000

/-- An attempt of a sampling method that did not give a sample is repeated so many times at most.
Attempts succeed far more often than they fail, so that the bound is not met in practice. -/
def attempts : Nat := 4294967296

/-- What stands for a sample of the standard normal when all attempts have failed: a NaN. -/
def unsampled : Float := 0.0 / 0.0

/-- A distance beyond the start of the normal's tail, by rejection. There is none when all attempts
fail. -/
def tailDistance : Nat → Generator → Option Float × Generator
  | 0, g => (none, g)
  | fuel + 1, g =>
    let (a, g) := g.next
    let (c, g) := g.next
    let x := (openUnitDouble a).log / tailStart
    let y := (openUnitDouble c).log
    if -2.0 * y < x * x then tailDistance fuel g else (some x, g)

/-- A sample of the standard normal. A word chooses a layer and a place in it; the place is a
sample when it lies below the next layer, and else the tail or the density decides. There is none
when all attempts fail. -/
def standardNormal : Nat → Generator → Option Float × Generator
  | 0, g => (none, g)
  | fuel + 1, g =>
    let (w, g) := g.next
    let i := (w &&& 0xff).toNat
    let u := withFraction 1024 w - 3.0
    let x := u * layerEdges.getD i 0.0
    if x.abs < layerEdges.getD (i + 1) 0.0 then (some x, g)
    else if i = 0 then
      let (distance, g) := tailDistance attempts g
      (distance.map fun d => if u < 0.0 then d - tailStart else tailStart - d, g)
    else
      let (w, g) := g.next
      let low := layerHeights.getD (i + 1) 0.0
      let height := low + (layerHeights.getD i 0.0 - low) * fineUnitDouble w
      if height < (-x * x / 2.0).exp then (some x, g) else standardNormal fuel g

/-- The greatest width, going down from a double given by its bits, at which no sample reaches
the upper end. -/
def fitWidth (low high : Float) : Nat → Float
  | 0 => 0.0
  | bits + 1 =>
    let width := Float.ofBits (UInt64.ofNat (bits + 1))
    if high ≤ width * (1.0 - Float.ofBits 0x3cb0000000000000) + low then fitWidth low high bits
    else width

namespace Distribution

/-- The normal distribution; the spread has to be finite and must not be negative. -/
def normal? (mean spread : Float) : Except Error Distribution :=
  if spread < 0.0 then .error (.invalidArgument (.negativeSpread spread))
  else if !spread.isFinite then .error (.invalidArgument (.infiniteSpread mean spread))
  else .ok (.normal mean spread)

/-- The uniform distribution; the interval has to be non-empty and of finite width. -/
def uniform? (low high : Float) : Except Error Distribution :=
  if high ≤ low || !(high - low).isFinite then
    .error (.invalidArgument (.emptyRange low high))
  else .ok (.uniform low (fitWidth low high (high - low).toBits.toNat))

def sample : Distribution → Generator → Float × Generator
  | normal mean spread, g =>
    let (z, g) := standardNormal attempts g
    (mean + spread * z.getD unsampled, g)
  | uniform low width, g =>
    let (w, g) := g.next
    (unitDouble w * width + low, g)

/-- So many samples after those already taken, which are given last one first. -/
def samplesOnto (d : Distribution) : Nat → List Float → Generator → List Float × Generator
  | 0, taken, g => (taken.reverse, g)
  | n + 1, taken, g =>
    let (x, g) := d.sample g
    d.samplesOnto n (x :: taken) g

/-- So many samples, one after the other. -/
def samples (d : Distribution) (n : Nat) (g : Generator) : List Float × Generator :=
  d.samplesOnto n [] g

theorem samplesOnto_eq (d : Distribution) (n : Nat) (taken : List Float) (g : Generator) :
    d.samplesOnto n taken g = (taken.reverse ++ (d.samples n g).1, (d.samples n g).2) := by
  induction n generalizing taken g with
  | zero => simp [samplesOnto, samples]
  | succ n ih =>
    simp only [samples, samplesOnto]
    rw [ih, ih [(d.sample g).1]]
    simp

theorem samples_zero (d : Distribution) (g : Generator) : d.samples 0 g = ([], g) := rfl

theorem samples_succ (d : Distribution) (n : Nat) (g : Generator) :
    d.samples (n + 1) g =
      ((d.sample g).1 :: (d.samples n (d.sample g).2).1, (d.samples n (d.sample g).2).2) := by
  show d.samplesOnto n [(d.sample g).1] (d.sample g).2 = _
  rw [samplesOnto_eq]
  rfl

theorem length_samples (d : Distribution) (n : Nat) (g : Generator) :
    (d.samples n g).1.length = n := by
  induction n generalizing g with
  | zero => rfl
  | succ n ih => simp [samples_succ, ih]

/-- Samples come as one stream, however they are asked for. -/
theorem samples_add (d : Distribution) (m n : Nat) (g : Generator) :
    d.samples (m + n) g =
      ((d.samples m g).1 ++ (d.samples n (d.samples m g).2).1,
        (d.samples n (d.samples m g).2).2) := by
  induction m generalizing g with
  | zero => simp [samples_zero]
  | succ m ih =>
    rw [Nat.succ_add]
    simp [samples_succ, ih]

end Distribution

end PulseNoise.Sampling
