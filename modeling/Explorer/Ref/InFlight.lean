import Explorer.Lib.Threads
import Explorer.Ref.Admission

/-!
# The gate of the API (`rate_limit_middleware` in `crates/http-api`)

Requests share the windows, under a mutex, and the counter `in_flight`, which
they change by atomic operations. What a request does between two of these is
its own, so a step here is one of them: the clock is read, a window decides,
the counter is loaded, exchanged or brought down.

A `compare_exchange_weak` may fail although the counter is what it compares
with, and the action says whether it does. The handler is everything behind
`next.run`: it ends, or is dropped with the connection, and the guard goes with
it in a step of its own. `usize` has 64 bits.
-/

namespace Explorer.Ref

open Explorer.Lib

/-- What `RateLimiterInner` keeps of the configuration. -/
structure Gate (Ip : Type) where
  enabled : Bool
  requireApiKey : Bool
  limits : Limits Ip
  capacity : UInt64

/-- `global_concurrent_limit.saturating_add(global_queue_limit).max(1)`. -/
def gateCapacity (globalConcurrentLimit globalQueueLimit : UInt64) : UInt64 :=
  let sum := globalConcurrentLimit.toNat + globalQueueLimit.toNat
  max (if sum < 2 ^ 64 then UInt64.ofNat sum else UInt64.ofNat (2 ^ 64 - 1)) 1

/-- What the middleware reads of a request. `apiKeys` and `forwarded` are the
values of the two headers in the order in which they came. -/
structure GateRequest (Ip : Type) where
  method : String
  path : String
  apiKeys : List (List UInt8)
  forwarded : List (List UInt8)
  peer : Option Ip

/-- `is_exempt_path`. -/
def isExemptPath (path : String) : Bool :=
  path == "/health" || path == "/version" ||
    "/swagger-ui".toList.isPrefixOf path.toList ||
    "/api-docs".toList.isPrefixOf path.toList

/-- `presented_key`. -/
def GateRequest.presentedKey {Ip : Type} (r : GateRequest Ip) :
    Option String :=
  (r.apiKeys.head?.bind headerText).map String.ofList

/-- The three ways around the gate. -/
def GateRequest.bypasses {Ip : Type} (gate : Gate Ip) (r : GateRequest Ip) :
    Bool :=
  !gate.enabled || r.method == "OPTIONS" || isExemptPath r.path

/-- The key is one of the configured ones. -/
def GateRequest.known {Ip : Type} (gate : Gate Ip) (r : GateRequest Ip) :
    Bool :=
  match r.presentedKey with
  | some key => (gate.limits.keyLimits key).isSome
  | none => false

/-- What the requests share; `segment` is the clock. -/
structure GateState where
  limiter : RateLimiter
  segment : Nat
  inFlight : UInt64

inductive GateEnd where
  | served
  | cancelled
  | unauthorized
  | rateLimited
  | shed
  deriving DecidableEq

/-- Where a request stands. `running` with `true` and `leaving` have the
guard. -/
inductive GatePhase where
  | arrived
  | admitting (segment : Nat)
  | entering
  | claiming (current : UInt64)
  | running (guarded : Bool)
  | leaving (served : Bool)
  | ended (result : GateEnd)
  deriving DecidableEq

structure GateThread (Ip : Type) where
  request : GateRequest Ip
  phase : GatePhase

inductive GateAct where
  | check
  | callAdmit
  | load
  | exchange (spurious : Bool)
  | finish
  | cancel
  | release
  deriving DecidableEq

section

variable {Ip : Type} [DecidableEq Ip] (ip : IpText Ip) (gate : Gate Ip)

/-- One step of `rate_limit_middleware` and, in it, of `try_enter`. -/
def gateStep (s : GateState) (t : GateThread Ip) :
    GateAct → Option (GateState × GateThread Ip)
  | .check =>
      match t.phase with
      | .arrived =>
          if t.request.bypasses gate then
            some (s, { t with phase := .running false })
          else if gate.requireApiKey && !t.request.known gate then
            some (s, { t with phase := .ended .unauthorized })
          else some (s, { t with phase := .admitting s.segment })
      | _ => none
  | .callAdmit =>
      match t.phase with
      | .admitting segment =>
          let r := admitRequest ip gate.limits s.limiter
            ⟨t.request.presentedKey, t.request.peer, t.request.forwarded,
              segment⟩
          if r.1 then
            some ({ s with limiter := r.2 }, { t with phase := .entering })
          else
            some ({ s with limiter := r.2 },
              { t with phase := .ended .rateLimited })
      | _ => none
  | .load =>
      match t.phase with
      | .entering => some (s, { t with phase := .claiming s.inFlight })
      | _ => none
  | .exchange spurious =>
      match t.phase with
      | .claiming current =>
          if gate.capacity ≤ current then
            some (s, { t with phase := .ended .shed })
          else if s.inFlight = current ∧ spurious = false then
            some ({ s with inFlight := current + 1 },
              { t with phase := .running true })
          else some (s, { t with phase := .claiming s.inFlight })
      | _ => none
  | .finish =>
      match t.phase with
      | .running true => some (s, { t with phase := .leaving true })
      | .running false => some (s, { t with phase := .ended .served })
      | _ => none
  | .cancel =>
      match t.phase with
      | .running true => some (s, { t with phase := .leaving false })
      | .running false => some (s, { t with phase := .ended .cancelled })
      | _ => none
  | .release =>
      match t.phase with
      | .leaving served =>
          some ({ s with inFlight := s.inFlight - 1 },
            { t with phase := .ended (if served then .served else .cancelled) })
      | _ => none

/-- The requests and the clock. -/
def gateSystem :
    ThreadSystem GateState (GateThread Ip) (GateRequest Ip) GateAct Nat where
  spawn _ request := ⟨request, .arrived⟩
  step := gateStep ip gate
  env s segments := some { s with segment := s.segment + segments }

end

/-- No request has come yet. -/
def gateStart {Ip : Type} : Threads GateState (GateThread Ip) :=
  ⟨⟨.new, 0, 0⟩, []⟩

end Explorer.Ref
