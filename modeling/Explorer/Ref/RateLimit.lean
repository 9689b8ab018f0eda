import Explorer.Ref.Rust
import Mathlib.Data.List.FinRange

/-!
# The inbound limiter (`crates/http-api/src/rate_limit.rs`)

One `SlidingWindow` per partition, six reused slots per window, and a sweep
that drops whole windows every few thousand calls. Everything here runs
under the mutex of `RateLimiterInner`, so a call is one atomic step and the
limiter is a function of the sequence of calls.

Segment numbers are `u64` in the source and only ever compared, reduced
modulo the slot count and shortened by a saturating subtraction, which is
what `Nat` does; the counts are `u32` and do saturate, so the saturation is
written out.
-/

namespace Explorer.Ref

/-- `SEGMENTS`: the window is the trailing six segments. -/
def segments : Nat := 6

/-- `SWEEP_EVERY_OPS`. -/
def sweepEveryOps : Nat := 4096

/-- A slot of the ring: the segment it counts and how many it counted.
`(0, 0)` is both the empty slot and the reset one. -/
structure Bucket where
  segment : Nat
  count : Nat
  deriving Repr, DecidableEq

/-- `SlidingWindow`: slot `segment % SEGMENTS` holds the segment's count.
The slot index is a `Fin`, so no access can fall outside the array. -/
structure SlidingWindow where
  buckets : Fin segments → Bucket

/-- `SlidingWindow::new`. -/
def SlidingWindow.new : SlidingWindow := ⟨fun _ => ⟨0, 0⟩⟩

/-- `now_segment.saturating_sub(SEGMENTS - 1)`: the oldest segment still
inside the window that ends at `now`. -/
def windowStart (now : Nat) : Nat := now - (segments - 1)

/-- The slot of a segment. -/
def slot (now : Nat) : Fin segments :=
  ⟨now % segments, Nat.mod_lt _ (by decide)⟩

/-- The reset half of the counting loop: a slot that rolled out is zeroed. -/
def SlidingWindow.rolled (w : SlidingWindow) (now : Nat) : SlidingWindow :=
  ⟨fun i =>
    if (w.buckets i).segment < windowStart now then ⟨0, 0⟩ else w.buckets i⟩

/-- The summing half of the counting loop, slot by slot and saturating. -/
def SlidingWindow.total (w : SlidingWindow) (now : Nat) : Nat :=
  (List.finRange segments).foldl
    (fun total i =>
      if (w.buckets i).segment < windowStart now then total
      else satAdd32 total (w.buckets i).count) 0

/-- The write after an admission: the slot of `now` counts one more, or is
taken over from whatever older segment held it. -/
def SlidingWindow.record (w : SlidingWindow) (now : Nat) : SlidingWindow :=
  ⟨fun i =>
    if i = slot now then
      if (w.buckets i).segment = now then
        ⟨now, satAdd32 (w.buckets i).count 1⟩
      else ⟨now, 1⟩
    else w.buckets i⟩

/-- `SlidingWindow::try_admit`. A refusal records nothing, but the slots it
zeroed stay zeroed. -/
def SlidingWindow.tryAdmit (w : SlidingWindow) (now : Nat) (limit : UInt32) :
    Bool × SlidingWindow :=
  if limit.toNat ≤ w.total now then (false, w.rolled now)
  else (true, (w.rolled now).record now)

/-- The `windows` map of the limiter, by partition key. -/
abbrev Windows := String → Option SlidingWindow

/-- `sweep_dead_windows`: keep a window only if one of its slots is still
inside the window that ends at `now`. -/
def sweepDeadWindows (windows : Windows) (now : Nat) : Windows := fun p =>
  (windows p).filter fun w =>
    (List.finRange segments).any fun i =>
      decide (windowStart now ≤ (w.buckets i).segment)

/-- The part of `RateLimiterInner` that `admit_partition` reads and writes. -/
structure RateLimiter where
  windows : Windows
  opsSinceSweep : Nat

/-- A limiter nothing has called yet. -/
def RateLimiter.new : RateLimiter := ⟨fun _ => none, 0⟩

/-- One call of `admit_partition`. -/
structure Call where
  partition : String
  limit : UInt32
  segment : Nat
  deriving Repr, DecidableEq

/-- The tail of `admit_partition`: the partition's window, created on first
use, decides. -/
def admitIn (windows : Windows) (c : Call) : Bool × Windows :=
  let r := ((windows c.partition).getD .new).tryAdmit c.segment c.limit
  (r.1, fun p => if p = c.partition then some r.2 else windows p)

/-- `RateLimiterInner::admit_partition`: the counter is bumped by
`fetch_add`, and the call that finds it at the threshold sweeps first. -/
def admitPartition (s : RateLimiter) (c : Call) : Bool × RateLimiter :=
  if sweepEveryOps ≤ s.opsSinceSweep then
    let r := admitIn (sweepDeadWindows s.windows c.segment) c
    (r.1, ⟨r.2, 0⟩)
  else
    let r := admitIn s.windows c
    (r.1, ⟨r.2, s.opsSinceSweep + 1⟩)

/-- The limiter after a sequence of calls. -/
def limiterAfter (calls : List Call) : RateLimiter :=
  calls.foldl (fun s c => (admitPartition s c).2) .new

/-- What the limiter answers to `c` after the calls `pre`. -/
def decision (pre : List Call) (c : Call) : Bool :=
  (admitPartition (limiterAfter pre) c).1

/-- The same limiter with the sweep left out, for comparison only. -/
def windowsUnswept (calls : List Call) : Windows :=
  calls.foldl (fun w c => (admitIn w c).2) fun _ => none

/-- What the limiter would answer if it never swept. -/
def decisionUnswept (pre : List Call) (c : Call) : Bool :=
  (admitIn (windowsUnswept pre) c).1

end Explorer.Ref
