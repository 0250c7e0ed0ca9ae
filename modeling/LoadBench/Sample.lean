/-
  LoadBench.Sample

  What one command measured, and the samples of one batch in the order in which
  its commands were issued.
-/

import LoadBench.Label

namespace LoadBench

/-- What one issued command measured. -/
structure Sample where
  /-- The label text of the command. -/
  label : String
  /-- The query the command belongs to. -/
  query : String
  /-- The second since the epoch in which the command was issued. -/
  second : UInt64
  /-- How long the command took, in microseconds. -/
  latency : UInt64
  /-- Whether the command failed. -/
  failed : Bool
  /-- Whether the system under load gave up on the command. -/
  timedOut : Bool
  /-- Bytes received in reply. -/
  received : UInt64
  /-- Bytes sent. -/
  sent : UInt64
  deriving DecidableEq, Repr

namespace Sample

/-- The sample of a command that succeeded without any traffic. -/
def plain (label query : String) (second latency : UInt64) : Sample :=
  ⟨label, query, second, latency, false, false, 0, 0⟩

/-- The group a sample is accounted under. -/
def group (sample : Sample) : Label := Label.ofName sample.label

/-- The key of the statistics kept for one query under one label. -/
def queryKey (sample : Sample) : String := sample.label ++ "-" ++ sample.query

end Sample

/-- Bytes sent and received. -/
structure Traffic where
  sent : UInt64
  received : UInt64
  deriving DecidableEq, Repr

/-- The bytes of samples; none if 64 bits do not hold both sums. -/
def Traffic.ofSamples? (samples : List Sample) : Option Traffic :=
  let sent := (samples.map fun sample => sample.sent.toNat).foldr (· + ·) 0
  let received := (samples.map fun sample => sample.received.toNat).foldr (· + ·) 0
  if sent < UInt64.size ∧ received < UInt64.size then
    some ⟨UInt64.ofNat sent, UInt64.ofNat received⟩
  else none

/-- The samples of one batch, in order. -/
structure Measurements where
  samples : List Sample
  deriving DecidableEq, Repr

namespace Measurements

/-- No samples. -/
def empty : Measurements := ⟨[]⟩

instance : Inhabited Measurements := ⟨empty⟩

/-- One more sample behind the others. -/
def add (measured : Measurements) (sample : Sample) : Measurements :=
  ⟨measured.samples ++ [sample]⟩

/-- The samples of another batch behind these. -/
def merge (measured other : Measurements) : Measurements :=
  ⟨measured.samples ++ other.samples⟩

/-- How many commands were issued. -/
def count (measured : Measurements) : Nat := measured.samples.length

/-- Whether nothing was issued. -/
def isEmpty (measured : Measurements) : Bool := measured.samples.isEmpty

@[simp] theorem samples_add (measured : Measurements) (sample : Sample) :
    (measured.add sample).samples = measured.samples ++ [sample] := rfl

@[simp] theorem samples_merge (measured other : Measurements) :
    (measured.merge other).samples = measured.samples ++ other.samples := rfl

@[simp] theorem count_add (measured : Measurements) (sample : Sample) :
    (measured.add sample).count = measured.count + 1 := by
  simp [count]

@[simp] theorem count_merge (measured other : Measurements) :
    (measured.merge other).count = measured.count + other.count := by
  simp [count]

end Measurements

end LoadBench
