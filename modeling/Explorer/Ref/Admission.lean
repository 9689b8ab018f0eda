import Explorer.Ref.RateLimit

/-!
# Whom a request is counted against (`crates/http-api/src/rate_limit.rs`)

`RateLimiter::new` reads the tiers into one map from keys to budgets and the
trusted proxies into addresses; `admit` finds the partition of a request and
hands it to `admit_partition`. A known key is its own partition, anything else
goes by the client's address, which behind a trusted proxy comes out of
`X-Forwarded-For`.

`IpAddr` enters by what the module does with it: its `FromStr`, its `Display`
and its equality.
-/

namespace Explorer.Ref

/-- `IpAddr` as text: `FromStr` and `Display`. -/
structure IpText (Ip : Type) where
  parse : List Char → Option Ip
  display : Ip → String

structure RateLimitTier where
  perMinute : Int64
  keys : List String
  deriving DecidableEq

/-- What `RateLimiter::new` keeps of the configuration for `admit`. -/
structure RateLimitConfig where
  trustedProxies : List String
  perIpPerMinute : UInt32
  keyTiers : List RateLimitTier

/-- `HashMap<String, i64>`. -/
abbrev KeyLimits := String → Option Int64

/-- `limits.insert(key.clone(), tier.per_minute)`, an empty key skipped. -/
def KeyLimits.insertKey (perMinute : Int64) (limits : KeyLimits)
    (key : String) : KeyLimits :=
  if key.isEmpty then limits
  else fun k => if k = key then some perMinute else limits k

/-- `build_key_limits`. -/
def buildKeyLimits (tiers : List RateLimitTier) : KeyLimits :=
  tiers.foldl
    (fun limits tier => tier.keys.foldl (.insertKey tier.perMinute) limits)
    fun _ => none

/-- The fields of `RateLimiterInner` that no call writes. -/
structure Limits (Ip : Type) where
  perIpPerMinute : UInt32
  keyLimits : KeyLimits
  trustedProxies : List Ip

/-- `RateLimiter::new`: a proxy that does not parse is left out. -/
def limitsOf {Ip : Type} (ip : IpText Ip) (config : RateLimitConfig) :
    Limits Ip where
  perIpPerMinute := config.perIpPerMinute
  keyLimits := buildKeyLimits config.keyTiers
  trustedProxies := config.trustedProxies.filterMap fun raw =>
    ip.parse (trim raw.toList)

/-- `HeaderValue::to_str`: visible ASCII and tabs only. -/
def headerText (value : List UInt8) : Option (List Char) :=
  if value.all fun b => (32 ≤ b && b < 127) || b == 9 then
    some (value.map fun b => Char.ofNat b.toNat)
  else none

section

variable {Ip : Type} [DecidableEq Ip]

/-- The loop over the hops, from the right. -/
def firstUntrusted (ip : IpText Ip) (trusted : List Ip) :
    List (List Char) → Option Ip
  | [] => none
  | hop :: rest =>
      match ip.parse (trim hop) with
      | none => firstUntrusted ip trusted rest
      | some a =>
          if a ∈ trusted then firstUntrusted ip trusted rest else some a

/-- `resolve_client_ip`. `headers` are the values of `X-Forwarded-For` in the
order in which they came; `HeaderMap::get` reads the first. -/
def resolveClientIp (ip : IpText Ip) (trusted : List Ip) (peer : Ip)
    (headers : List (List UInt8)) : Ip :=
  if peer ∈ trusted then
    match headers.head?.bind headerText with
    | none => peer
    | some forwarded =>
        (firstUntrusted ip trusted (forwarded.splitOn ',').reverse).getD peer
  else peer

/-- A call of `admit`, with the segment its clock reads. -/
structure AdmitCall (Ip : Type) where
  key : Option String
  peer : Option Ip
  headers : List (List UInt8)
  segment : Nat

/-- `admit`. The budget of a key goes to the window as `per_minute as u32`. -/
def admitRequest (ip : IpText Ip) (limits : Limits Ip) (s : RateLimiter)
    (r : AdmitCall Ip) : Bool × RateLimiter :=
  match r.key.bind fun key => (limits.keyLimits key).map (Prod.mk key) with
  | some (key, perMinute) =>
      if perMinute ≤ 0 then (true, s)
      else
        admitPartition s
          ⟨"apikey:" ++ key, perMinute.toUInt64.toUInt32, r.segment⟩
  | none =>
      if limits.trustedProxies.isEmpty then (true, s)
      else
        match r.peer with
        | none => (true, s)
        | some peer =>
            let clientIp :=
              resolveClientIp ip limits.trustedProxies peer r.headers
            admitPartition s
              ⟨"ip:" ++ ip.display clientIp, limits.perIpPerMinute, r.segment⟩

end

/-! ## The IPv4 half of `IpAddr` -/

/-- `read_number(10, Some(3), false)`: an octet, without leading zeros. -/
def parseOctet (cs : List Char) : Option UInt8 :=
  if cs.isEmpty || 3 < cs.length || !cs.all Char.isDigit then none
  else if 1 < cs.length && cs.head? == some '0' then none
  else
    let n := cs.foldl (fun n c => 10 * n + (c.toNat - '0'.toNat)) 0
    if n < 256 then some (UInt8.ofNat n) else none

/-- `Ipv4Addr::from_str`. -/
def parseIpv4 (cs : List Char) : Option (List UInt8) :=
  let fields := cs.splitOn '.'
  if fields.length = 4 then fields.mapM parseOctet else none

def ipv4Text : IpText (List UInt8) where
  parse := parseIpv4
  display octets := ".".intercalate (octets.map fun b => toString b.toNat)

end Explorer.Ref
