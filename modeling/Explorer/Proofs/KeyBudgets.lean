import Explorer.Ref.Admission
import Explorer.Proofs.SlidingWindow

/-!
# The budget of a key

`admit` writes to the windows through one call of `admit_partition` or not at
all, so a sequence of its calls is a sequence of calls of the windows, with
`partitionOf` from one to the other. The partition of a known key is its own:
no other key has its name and no address does. What the sliding window gives
its partitions is then what `admit` gives the keys, under the limit that is
left of `per_minute` once it is a `u32`.

`keyBudget_iff` says for which budgets that is the configured one. From 2^32
on it is not: 2^32 itself comes out as a limit of 0, which refuses every call.
-/

namespace Explorer.Ref

variable {Ip : Type} [DecidableEq Ip] (ip : IpText Ip) (limits : Limits Ip)

/-- `tier` is the last of the tiers that list the key. -/
def LastListed (tiers : List RateLimitTier) (key : String)
    (perMinute : Int64) : Prop :=
  ∃ before tier after, tiers = before ++ tier :: after ∧ key ∈ tier.keys ∧
    tier.perMinute = perMinute ∧ ∀ t ∈ after, key ∉ t.keys

/-- The limiter after a sequence of calls of `admit`. -/
def admitRun (calls : List (AdmitCall Ip)) : RateLimiter :=
  calls.foldl (fun s r => (admitRequest ip limits s r).2) .new

/-- What `admit` answers to `r` after the calls `pre`. -/
def admits (pre : List (AdmitCall Ip)) (r : AdmitCall Ip) : Bool :=
  (admitRequest ip limits (admitRun ip limits pre) r).1

/-- The calls among `calls` that are admitted, starting from `s`. -/
def admittedOf (s : RateLimiter) : List (AdmitCall Ip) → List (AdmitCall Ip)
  | [] => []
  | r :: rest =>
      if (admitRequest ip limits s r).1 then
        r :: admittedOf (admitRequest ip limits s r).2 rest
      else admittedOf (admitRequest ip limits s r).2 rest

/-- The clock does not go back. -/
def InOrder (calls : List (AdmitCall Ip)) : Prop :=
  calls.Pairwise fun a b => a.segment ≤ b.segment

/-- The call has this key. -/
def AdmitCall.carries (key : String) (r : AdmitCall Ip) : Bool :=
  decide (r.key = some key)

/-- How many calls with the key were admitted in the six segments that end at
`now`. -/
def admittedWith (key : String) (now : Nat)
    (pre : List (AdmitCall Ip)) : Nat :=
  (admittedOf ip limits .new pre).countP fun a =>
    a.carries key && decide (now - 5 ≤ a.segment ∧ a.segment ≤ now)

/-- The key has the budget `n`. -/
structure KeyBudget (key : String) (n : Int64) : Prop where
  unlimited : n ≤ 0 → ∀ pre r, r.key = some key → InOrder (pre ++ [r]) →
    admits ip limits pre r = true
  limited : 0 < n → ∀ pre r, r.key = some key → InOrder (pre ++ [r]) →
    (admits ip limits pre r = true ↔
      (admittedWith ip limits key r.segment pre : Int) < n.toInt)
  /-- Calls with other keys, or with none, do not matter. -/
  apart : ∀ pre r, r.key = some key → InOrder (pre ++ [r]) →
    admits ip limits (pre.filter (·.carries key)) r = admits ip limits pre r

/-! ## The tiers -/

theorem foldl_insertKey (perMinute : Int64) (limits : KeyLimits)
    (keys : List String) (key : String) :
    keys.foldl (.insertKey perMinute) limits key =
      if key ≠ "" ∧ key ∈ keys then some perMinute else limits key := by
  induction keys generalizing limits with
  | nil => simp
  | cons k rest ih =>
      rw [List.foldl_cons, ih]
      by_cases hmem : key ≠ "" ∧ key ∈ rest
      · rw [if_pos hmem, if_pos ⟨hmem.1, List.mem_cons_of_mem k hmem.2⟩]
      · rw [if_neg hmem, KeyLimits.insertKey]
        by_cases hk : key = k
        · subst hk
          by_cases hempty : key = "" <;> simp [hempty]
        · have hiff : (key ≠ "" ∧ key ∈ k :: rest) ↔
              (key ≠ "" ∧ key ∈ rest) := by simp [hk]
          rw [if_neg (fun h => hmem (hiff.1 h))]
          by_cases hempty : k.isEmpty = true
          · rw [if_pos hempty]
          · rw [if_neg hempty]
            exact if_neg hk

theorem buildKeyLimits_append (tiers : List RateLimitTier)
    (tier : RateLimitTier) (key : String) :
    buildKeyLimits (tiers ++ [tier]) key =
      if key ≠ "" ∧ key ∈ tier.keys then some tier.perMinute
      else buildKeyLimits tiers key := by
  rw [buildKeyLimits, List.foldl_append, List.foldl_cons, List.foldl_nil,
    foldl_insertKey, buildKeyLimits]

theorem buildKeyLimits_empty (tiers : List RateLimitTier) :
    buildKeyLimits tiers "" = none := by
  induction tiers using List.reverseRecOn with
  | nil => rfl
  | append_singleton tiers tier ih =>
      rw [buildKeyLimits_append, if_neg (fun h => h.1 rfl), ih]

/-- The last tier that lists a key wins. -/
theorem LastListed.buildKeyLimits {tiers : List RateLimitTier} {key : String}
    {perMinute : Int64} (h : LastListed tiers key perMinute)
    (hkey : key ≠ "") : buildKeyLimits tiers key = some perMinute := by
  obtain ⟨before, tier, after, rfl, hmem, rfl, hafter⟩ := h
  induction after using List.reverseRecOn with
  | nil => rw [buildKeyLimits_append, if_pos ⟨hkey, hmem⟩]
  | append_singleton after last ih =>
      rw [← List.cons_append, ← List.append_assoc, buildKeyLimits_append,
        if_neg (fun h => hafter last (by simp) h.2)]
      exact ih fun t ht => hafter t (List.mem_append_left [last] ht)

/-! ## Calls of the windows -/

/-- The call of `admit_partition` that a call of `admit` makes, if any. -/
def partitionOf (r : AdmitCall Ip) : Option Call :=
  match r.key.bind fun key => (limits.keyLimits key).map (Prod.mk key) with
  | some (key, perMinute) =>
      if perMinute ≤ 0 then none
      else
        some ⟨"apikey:" ++ key, perMinute.toUInt64.toUInt32, r.segment⟩
  | none =>
      if limits.trustedProxies.isEmpty then none
      else r.peer.map fun peer =>
        ⟨"ip:" ++ ip.display
            (resolveClientIp ip limits.trustedProxies peer r.headers),
          limits.perIpPerMinute, r.segment⟩

theorem admit_eq (s : RateLimiter) (r : AdmitCall Ip) :
    admitRequest ip limits s r =
      match partitionOf ip limits r with
      | none => (true, s)
      | some c => admitPartition s c := by
  unfold admitRequest partitionOf
  generalize (r.key.bind fun key =>
    (limits.keyLimits key).map (Prod.mk key)) = known
  cases known with
  | none =>
      by_cases hproxies : limits.trustedProxies.isEmpty = true
      · simp [hproxies]
      · cases r.peer <;> simp [hproxies]
  | some entry =>
      obtain ⟨key, perMinute⟩ := entry
      by_cases hle : perMinute ≤ 0 <;> simp [hle]

theorem admitRun_eq (calls : List (AdmitCall Ip)) :
    admitRun ip limits calls =
      limiterAfter (calls.filterMap (partitionOf ip limits)) := by
  induction calls using List.reverseRecOn with
  | nil => rfl
  | append_singleton pre r ih =>
      rw [admitRun, List.foldl_append, ← admitRun, ih, List.foldl_cons,
        List.foldl_nil, admit_eq, List.filterMap_append]
      cases hpart : partitionOf ip limits r with
      | none => simp [hpart]
      | some c => simp [hpart, limiterAfter]

theorem admits_none {r : AdmitCall Ip} (h : partitionOf ip limits r = none)
    (pre : List (AdmitCall Ip)) : admits ip limits pre r = true := by
  rw [admits, admit_eq, h]

theorem admits_some {r : AdmitCall Ip} {c : Call}
    (h : partitionOf ip limits r = some c) (pre : List (AdmitCall Ip)) :
    admits ip limits pre r =
      decision (pre.filterMap (partitionOf ip limits)) c := by
  rw [admits, admit_eq, h, admitRun_eq]
  rfl

theorem partitionOf_segment {r : AdmitCall Ip} {c : Call}
    (h : partitionOf ip limits r = some c) : c.segment = r.segment := by
  unfold partitionOf at h
  split at h
  · split at h
    · cases h
    · rw [← Option.some.inj h]
  · split at h
    · cases h
    · obtain ⟨peer, -, rfl⟩ := Option.map_eq_some_iff.1 h
      rfl

theorem InOrder.chronological {calls : List (AdmitCall Ip)}
    (h : InOrder calls) :
    Chronological (calls.filterMap (partitionOf ip limits)) := by
  rw [Chronological, List.pairwise_filterMap]
  refine h.imp fun hle c hc d hd => ?_
  rw [partitionOf_segment ip limits hc, partitionOf_segment ip limits hd]
  exact hle

/-! ## A known key -/

/-- The call that a call with the key makes. -/
def keyCall (key : String) (perMinute : Int64) (segment : Nat) : Call :=
  ⟨"apikey:" ++ key, perMinute.toUInt64.toUInt32, segment⟩

theorem partitionOf_known {key : String} {perMinute : Int64}
    {r : AdmitCall Ip} (hknown : limits.keyLimits key = some perMinute)
    (hpos : ¬ perMinute ≤ 0) (hr : r.key = some key) :
    partitionOf ip limits r = some (keyCall key perMinute r.segment) := by
  simp [partitionOf, hr, hknown, hpos, keyCall]

theorem apikey_ne_ip (key address : String) :
    "ip:" ++ address ≠ "apikey:" ++ key := by
  intro h
  have h := congrArg String.toList h
  rw [String.toList_append, String.toList_append] at h
  exact absurd (List.cons.inj h).1 (by decide)

/-- No other call has the partition of the key. -/
theorem key_of_partition {key : String} {r : AdmitCall Ip} {c : Call}
    (h : partitionOf ip limits r = some c)
    (hc : c.partition = "apikey:" ++ key) : r.key = some key := by
  unfold partitionOf at h
  split at h
  · next other perMinute hknown =>
      split at h
      · cases h
      · rw [← Option.some.inj h] at hc
        have hsame : other = key := (String.append_right_inj _).1 hc
        obtain ⟨k, hk, hother⟩ := Option.bind_eq_some_iff.1 hknown
        obtain ⟨_, -, hpair⟩ := Option.map_eq_some_iff.1 hother
        rw [hk, (Prod.mk.inj hpair).1, hsame]
  · split at h
    · cases h
    · obtain ⟨peer, -, rfl⟩ := Option.map_eq_some_iff.1 h
      exact absurd hc (apikey_ne_ip key _)

section

variable {key : String} {perMinute : Int64}
  (hknown : limits.keyLimits key = some perMinute)
  (hpos : ¬ perMinute ≤ 0)

include hknown hpos

theorem partition_iff {r : AdmitCall Ip} {c : Call}
    (h : partitionOf ip limits r = some c) :
    c.partition = "apikey:" ++ key ↔ r.key = some key := by
  refine ⟨key_of_partition ip limits h, fun hr => ?_⟩
  rw [partitionOf_known ip limits hknown hpos hr, Option.some.injEq] at h
  rw [← h]
  rfl

theorem filterMap_carries (calls : List (AdmitCall Ip)) :
    (calls.filter (·.carries key)).filterMap (partitionOf ip limits) =
      (calls.filterMap (partitionOf ip limits)).filter fun c =>
        decide (c.partition = "apikey:" ++ key) := by
  induction calls with
  | nil => rfl
  | cons r rest ih =>
      by_cases hr : r.key = some key
      · have hpart := partitionOf_known ip limits hknown hpos hr
        simp [AdmitCall.carries, hr, hpart, keyCall, ← ih]
      · cases hpart : partitionOf ip limits r with
        | none => simp [AdmitCall.carries, hr, hpart, ← ih]
        | some c =>
            have hne := mt (partition_iff ip limits hknown hpos hpart).1 hr
            simp [AdmitCall.carries, hr, hpart, hne, ← ih]

/-- The calls admitted with the key are those admitted to its partition. -/
theorem countP_admittedOf (now : Nat) (s : RateLimiter)
    (calls : List (AdmitCall Ip)) :
    ((admittedOf ip limits s calls).countP fun a => a.carries key &&
        decide (now - 5 ≤ a.segment ∧ a.segment ≤ now)) =
      (admittedFrom s (calls.filterMap (partitionOf ip limits))).countP
        fun a => decide (a.partition = "apikey:" ++ key ∧
          now - 5 ≤ a.segment ∧ a.segment ≤ now) := by
  induction calls generalizing s with
  | nil => rfl
  | cons r rest ih =>
      cases hpart : partitionOf ip limits r with
      | none =>
          have hr : r.key ≠ some key := by
            intro hr
            rw [partitionOf_known ip limits hknown hpos hr] at hpart
            cases hpart
          rw [admittedOf, admit_eq, hpart, List.filterMap_cons_none hpart,
            if_pos rfl, List.countP_cons, ih]
          simp [AdmitCall.carries, hr]
      | some c =>
          have hiff := partition_iff ip limits hknown hpos hpart
          have hsegment := partitionOf_segment ip limits hpart
          have hadmit : admitRequest ip limits s r = admitPartition s c := by
            rw [admit_eq, hpart]
          rw [admittedOf, hadmit, List.filterMap_cons_some hpart,
            admittedFrom]
          by_cases hadmitted : (admitPartition s c).1 = true
          · rw [if_pos hadmitted, if_pos hadmitted, List.countP_cons,
              List.countP_cons, ih]
            simp only [AdmitCall.carries, hiff, hsegment, Bool.decide_and]
          · rw [if_neg hadmitted, if_neg hadmitted]
            exact ih _

/-- What a key gets is its budget as a `u32`. -/
theorem admits_iff {pre : List (AdmitCall Ip)} {r : AdmitCall Ip}
    (hr : r.key = some key) (horder : InOrder (pre ++ [r])) :
    admits ip limits pre r = true ↔
      admittedWith ip limits key r.segment pre <
        perMinute.toUInt64.toUInt32.toNat := by
  have hpart := partitionOf_known ip limits hknown hpos hr
  have hchron := horder.chronological ip limits
  rw [List.filterMap_append, List.filterMap_cons_some hpart,
    List.filterMap_nil] at hchron
  obtain ⟨-, -, hlog, -⟩ := run_follows _ (List.pairwise_append.mp hchron).1
  rw [admits_some ip limits hpart, (decision_eq_windowLog hchron).1,
    decide_eq_true_iff, ← hlog, admittedWith,
    countP_admittedOf ip limits hknown hpos]
  rfl

theorem admits_filter {pre : List (AdmitCall Ip)} {r : AdmitCall Ip}
    (hr : r.key = some key) (horder : InOrder (pre ++ [r])) :
    admits ip limits (pre.filter (·.carries key)) r =
      admits ip limits pre r := by
  have hpart := partitionOf_known ip limits hknown hpos hr
  have hchron := horder.chronological ip limits
  rw [List.filterMap_append, List.filterMap_cons_some hpart,
    List.filterMap_nil] at hchron
  rw [admits_some ip limits hpart, admits_some ip limits hpart,
    filterMap_carries ip limits hknown hpos]
  exact decision_filter hchron

end

/-! ## Calls that are all the same -/

theorem windowLog_replicate {c : Call} {m : Nat} (h : m ≤ c.limit.toNat) :
    windowLog (List.replicate m c) = List.replicate m c := by
  induction m with
  | zero => rfl
  | succ m ih =>
      have hcount : windowCount (List.replicate m c) c = m := by
        simp [windowCount, List.countP_replicate]
      rw [List.replicate_succ', windowLog_append, ih (by omega), hcount,
        decide_eq_true (by omega : m < c.limit.toNat)]
      rfl

/-- The call after the last that the limit leaves room for is refused. -/
theorem decision_replicate (c : Call) :
    decision (List.replicate c.limit.toNat c) c = false := by
  have hchron : Chronological (List.replicate c.limit.toNat c ++ [c]) := by
    rw [← List.replicate_succ', Chronological, List.pairwise_replicate]
    exact .inr (Nat.le_refl _)
  have hcount : windowCount (List.replicate c.limit.toNat c) c =
      c.limit.toNat := by
    simp [windowCount, List.countP_replicate]
  rw [(decision_eq_windowLog hchron).1, windowLog_replicate (Nat.le_refl _),
    hcount, decide_eq_false (Nat.lt_irrefl _)]

omit [DecidableEq Ip] in
theorem inOrder_replicate (m : Nat) (r : AdmitCall Ip) :
    InOrder (List.replicate m r ++ [r]) := by
  rw [← List.replicate_succ', InOrder, List.pairwise_replicate]
  exact .inr (Nat.le_refl _)

theorem admits_replicate {r : AdmitCall Ip} {c : Call}
    (h : partitionOf ip limits r = some c) :
    admits ip limits (List.replicate c.limit.toNat r) r = false := by
  rw [admits_some ip limits h, List.filterMap_replicate_of_some h,
    decision_replicate]

theorem admittedOf_length_le (s : RateLimiter) (calls : List (AdmitCall Ip)) :
    (admittedOf ip limits s calls).length ≤ calls.length := by
  induction calls generalizing s with
  | nil => exact Nat.le_refl 0
  | cons r rest ih =>
      rw [admittedOf]
      split
      · exact Nat.succ_le_succ (ih _)
      · exact Nat.le_succ_of_le (ih _)

theorem admittedWith_le (key : String) (now : Nat)
    (pre : List (AdmitCall Ip)) :
    admittedWith ip limits key now pre ≤ pre.length :=
  Nat.le_trans List.countP_le_length (admittedOf_length_le ip limits .new pre)

/-- Calls that touch no window are all admitted. -/
theorem admittedOf_replicate {r : AdmitCall Ip}
    (h : partitionOf ip limits r = none) (m : Nat) (s : RateLimiter) :
    admittedOf ip limits s (List.replicate m r) = List.replicate m r := by
  induction m generalizing s with
  | zero => rfl
  | succ m ih =>
      have hadmit : admitRequest ip limits s r = (true, s) := by
        rw [admit_eq, h]
      rw [List.replicate_succ, admittedOf, hadmit, if_pos rfl, ih]

/-! ## Which budgets are kept -/

theorem toUInt32_toNat {n : Int64} (h : ¬ n ≤ 0) :
    n.toUInt64.toUInt32.toNat = n.toInt.toNat % 2 ^ 32 := by
  rw [UInt64.toNat_toUInt32, Int64.toNat_toUInt64_of_le]
  · rfl
  · rw [Int64.le_iff_toInt_le] at h ⊢
    omega

variable {limits} in
theorem keyBudget_known {key : String} {n : Int64}
    (hknown : limits.keyLimits key = some n) :
    KeyBudget ip limits key n ↔ n.toInt < 2 ^ 32 := by
  constructor
  · intro h
    by_contra hbig
    have hpos : ¬ n ≤ 0 := by
      rw [Int64.le_iff_toInt_le, Int64.toInt_zero]
      omega
    let r : AdmitCall Ip := ⟨some key, none, [], 0⟩
    have hpart := partitionOf_known ip limits (r := r) hknown hpos rfl
    have hlimit : (keyCall key n r.segment).limit.toNat =
        n.toInt.toNat % 2 ^ 32 := toUInt32_toNat hpos
    have hle := admittedWith_le ip limits key r.segment
      (List.replicate (keyCall key n r.segment).limit.toNat r)
    rw [List.length_replicate] at hle
    have hadmits := (h.limited (by simpa using hpos) _ r rfl
      (inOrder_replicate (keyCall key n r.segment).limit.toNat r)).2
      (by omega)
    rw [admits_replicate ip limits hpart] at hadmits
    cases hadmits
  · intro hsmall
    by_cases hpos : n ≤ 0
    · have hall : ∀ pre r, r.key = some key →
          admits ip limits pre r = true := by
        intro pre r hr
        exact admits_none ip limits (by simp [partitionOf, hr, hknown, hpos])
          pre
      refine ⟨fun _ pre r hr _ => hall pre r hr, fun h => ?_, ?_⟩
      · exact absurd hpos (by simpa using h)
      · intro pre r hr _
        rw [hall _ r hr, hall _ r hr]
    · refine ⟨fun h => absurd h hpos, fun _ pre r hr horder => ?_,
        fun pre r hr horder => admits_filter ip limits hknown hpos hr horder⟩
      rw [admits_iff ip limits hknown hpos hr horder, toUInt32_toNat hpos]
      rw [Int64.le_iff_toInt_le, Int64.toInt_zero] at hpos
      omega

/-- The empty key is left out of the map, so it goes by address. -/
theorem keyBudget_unknown {key : String} {n : Int64}
    (hunknown : limits.keyLimits key = none) :
    KeyBudget ip limits key n ↔ n ≤ 0 ∧ limits.trustedProxies = [] := by
  constructor
  · intro h
    have hle : n ≤ 0 := by
      by_contra hpos
      let r : AdmitCall Ip := ⟨some key, none, [], 0⟩
      have hpart : partitionOf ip limits r = none := by
        simp [partitionOf, r, hunknown]
      have hadmits := (h.limited (by simpa using hpos) _ r rfl
        (inOrder_replicate n.toInt.toNat r)).1 (admits_none ip limits hpart _)
      rw [admittedWith, admittedOf_replicate ip limits hpart] at hadmits
      rw [Int64.le_iff_toInt_le, Int64.toInt_zero] at hpos
      have hclamp : n.toNatClampNeg = n.toInt.toNat := rfl
      simp [List.countP_replicate, AdmitCall.carries, r] at hadmits
      omega
    refine ⟨hle, ?_⟩
    cases hproxies : limits.trustedProxies with
    | nil => rfl
    | cons proxy rest =>
        let r : AdmitCall Ip := ⟨some key, some proxy, [], 0⟩
        obtain ⟨c, hpart⟩ : ∃ c, partitionOf ip limits r = some c := by
          simp [partitionOf, r, hunknown, hproxies]
        have hadmits := h.unlimited hle _ r rfl
          (inOrder_replicate c.limit.toNat r)
        rw [admits_replicate ip limits hpart] at hadmits
        cases hadmits
  · rintro ⟨hle, hproxies⟩
    have hall : ∀ pre r, r.key = some key → admits ip limits pre r = true := by
      intro pre r hr
      exact admits_none ip limits
        (by simp [partitionOf, hr, hunknown, hproxies]) pre
    refine ⟨fun _ pre r hr _ => hall pre r hr, fun h => ?_, ?_⟩
    · exact absurd hle (by simpa using h)
    · intro pre r hr _
      rw [hall _ r hr, hall _ r hr]

/-- A key that some tier lists has the budget of the last such tier just if
the budget is less than 2^32. The empty key, which is no known key, has it
just if the budget is unlimited and so is everyone without a key. -/
theorem keyBudget_iff (config : RateLimitConfig) (key : String) (n : Int64)
    (h : LastListed config.keyTiers key n) :
    KeyBudget ip (limitsOf ip config) key n ↔
      (key ≠ "" ∧ n.toInt < 2 ^ 32) ∨
      (key = "" ∧ n ≤ 0 ∧ (limitsOf ip config).trustedProxies = []) := by
  by_cases hkey : key = ""
  · subst hkey
    rw [keyBudget_unknown ip (limitsOf ip config)
      (buildKeyLimits_empty config.keyTiers)]
    simp
  · have hknown : (limitsOf ip config).keyLimits key = some n :=
      h.buildKeyLimits hkey
    rw [keyBudget_known ip hknown]
    simp [hkey]

/-- 2^32 calls a minute come out as none. -/
theorem keyBudget_lost :
    LastListed [⟨4294967296, ["partner-1"]⟩] "partner-1" 4294967296 ∧
    admits ipv4Text (limitsOf ipv4Text
      ⟨[], 5, [⟨4294967296, ["partner-1"]⟩]⟩) []
      ⟨some "partner-1", none, [], 0⟩ = false ∧
    ¬ KeyBudget ipv4Text (limitsOf ipv4Text
      ⟨[], 5, [⟨4294967296, ["partner-1"]⟩]⟩) "partner-1" 4294967296 := by
  refine ⟨⟨[], _, [], rfl, by decide, rfl, by simp⟩, by decide +kernel, ?_⟩
  have hknown : (limitsOf ipv4Text
      ⟨[], 5, [⟨4294967296, ["partner-1"]⟩]⟩).keyLimits "partner-1" =
        some 4294967296 := by
    decide +kernel
  rw [keyBudget_known ipv4Text hknown]
  decide +kernel

theorem keyBudget_iff_last_tier :
    KeyBudget ipv4Text
      (limitsOf ipv4Text
        ⟨[], 5, [⟨20000, ["own-1", "own-2"]⟩, ⟨1, ["own-1"]⟩]⟩)
      "own-1" 1 :=
  (keyBudget_iff ipv4Text
    ⟨[], 5, [⟨20000, ["own-1", "own-2"]⟩, ⟨1, ["own-1"]⟩]⟩ "own-1" 1
    ⟨[⟨20000, ["own-1", "own-2"]⟩], ⟨1, ["own-1"]⟩, [], rfl, by decide, rfl,
      by simp⟩).2 (.inl ⟨by decide, by decide⟩)

end Explorer.Ref
