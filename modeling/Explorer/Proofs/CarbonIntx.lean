import Explorer.Ref.Rust

/-!
# What `parse_carbon_intx_i64_raw` accepts

The text it reads is one header byte and eight bytes of an `i64`, the lowest
first, each byte two hexadecimal digits. The function cuts its text at every
second byte and gives each piece to `u8::from_str_radix`, which is wider than
two digits: it takes a plus sign for the first of them. And a cut inside a
character that UTF-8 writes with more bytes panics.

`scanPair` says what one piece is, and `carbonBytes_scan` what the loop makes of
eight of them. The texts that go wrong are then the ones where a scan that the
function comes to is cut, or ends well over a plus sign.
-/

namespace Explorer.Ref

/-! ## The grammar -/

/-- Hexadecimal digits, two to a byte. -/
def hexPairs : List Char → Option (List Nat)
  | [] => some []
  | [_] => none
  | c :: d :: rest => do
      let high ← hexDigit c
      let low ← hexDigit d
      let bytes ← hexPairs rest
      return (16 * high + low) :: bytes

/-- The bytes of an `i64` in two's complement, the lowest first. -/
def intBytes (v : Int) : List Nat :=
  (List.range 8).map fun i => (v / 256 ^ i % 256).toNat

/-- The text is the Carbon `intx` of `v`. -/
def Encodes (cs : List Char) (v : Int) : Prop :=
  (hexPairs cs = some (0x08 :: intBytes v) ∧ 0 ≤ v ∧ v < 2 ^ 63) ∨
    (hexPairs cs = some (0x88 :: intBytes v) ∧ -2 ^ 63 ≤ v ∧ v < 0)

/-- The function accepts the texts of the grammar and no other, with the value
they stand for, and returns an error on all others. -/
structure ReadsRight (field value : String) : Prop where
  accepts : ∀ v, parseCarbonIntxI64Raw field value = .ok v ↔
    Encodes (trim value.toList) v
  returns : parseCarbonIntxI64Raw field value ≠ .panic

/-! ## Pieces of two bytes -/

/-- What the next two bytes of a text are. -/
inductive Pair where
  | digits (byte : Nat) (rest : List Char)
  | plus (byte : Nat) (rest : List Char)
  | other
  | cut

/-- Two digits, a plus sign and a digit, anything else that ends after two
bytes, or a character that goes on. -/
def scanPair : List Char → Pair
  | [] => .cut
  | [c] => if c.utf8Size = 2 then .other else .cut
  | c :: d :: rest =>
      if c.utf8Size = 2 then .other
      else if c.utf8Size = 1 ∧ d.utf8Size = 1 then
        match hexDigit c, hexDigit d with
        | some high, some low => .digits (16 * high + low) rest
        | none, some low => if c = '+' then .plus low rest else .other
        | _, none => .other
      else .cut

/-- What the next pieces of a text are: cut before they end, no bytes, or the
bytes, and whether a plus sign is among them. -/
inductive Pieces where
  | bytes (signed : Bool) (values : List Nat)
  | other
  | cut

def Pieces.cons (signed : Bool) (byte : Nat) : Pieces → Pieces
  | .bytes signed' values => .bytes (signed || signed') (byte :: values)
  | .other => .other
  | .cut => .cut

def scanPairs : Nat → List Char → Pieces
  | 0, _ => .bytes false []
  | n + 1, cs =>
      match scanPair cs with
      | .digits byte rest => (scanPairs n rest).cons false byte
      | .plus byte rest => (scanPairs n rest).cons true byte
      | .other => .other
      | .cut => .cut

/-- The header announces the sign of the eight bytes. -/
def SignFits (header : Nat) (bytes : List Nat) : Prop :=
  (header = 0x08 ∧ Nat.ofDigits 256 bytes < 2 ^ 63) ∨
    (header = 0x88 ∧ 2 ^ 63 ≤ Nat.ofDigits 256 bytes)

/-- After a header: the pieces are cut, or they are taken for a value although
a plus sign stands in the text. -/
def MisreadAfter (signed : Bool) (header : Nat) (rest : List Char) : Prop :=
  (header = 0x08 ∨ header = 0x88) ∧
    match scanPairs 8 rest with
    | .cut => True
    | .other => False
    | .bytes signed' values => (signed || signed') ∧ SignFits header values

/-- The texts that the function gets wrong. -/
def Misread (cs : List Char) : Prop :=
  byteLen cs = 18 ∧
    match scanPair cs with
    | .cut => True
    | .other => False
    | .digits header rest => MisreadAfter false header rest
    | .plus header rest => MisreadAfter true header rest

/-! ## Digits -/

theorem hexDigit_range {c : Char} {n : Nat} (h : hexDigit c = some n) :
    n < 16 ∧ 48 ≤ c.toNat ∧ c.toNat ≤ 102 := by
  simp only [hexDigit] at h
  split at h
  · cases h
    omega
  · split at h
    · cases h
      omega
    · split at h
      · cases h
        omega
      · cases h

theorem utf8Size_of_hexDigit {c : Char} {n : Nat} (h : hexDigit c = some n) :
    c.utf8Size = 1 := by
  obtain ⟨-, -, hle⟩ := hexDigit_range h
  rw [Char.utf8Size_eq_one_iff]
  exact UInt32.le_iff_toNat_le.mpr (hle.trans (by decide))

theorem not_isWhitespace_of_hexDigit {c : Char} {n : Nat}
    (h : hexDigit c = some n) : isWhitespace c = false := by
  obtain ⟨-, hge, hle⟩ := hexDigit_range h
  simp only [isWhitespace, Bool.or_eq_false_iff, Bool.and_eq_false_iff,
    decide_eq_false_iff_not, beq_eq_false_iff_ne]
  omega

theorem hexDigit_eq_none_of_wide {c : Char} (h : c.utf8Size ≠ 1) :
    hexDigit c = none := by
  cases hc : hexDigit c with
  | none => rfl
  | some n => exact absurd (utf8Size_of_hexDigit hc) h

/-! ## Reading a piece -/

theorem u8FromHex_pair (c d : Char) :
    u8FromHex [c, d] =
      if c = '+' then u8Digits 0 [d] else u8Digits 0 [c, d] := by
  by_cases hplus : c = '+'
  · subst hplus
    rfl
  · rw [if_neg hplus, u8FromHex.eq_def]
    split
    · cases ‹[c, d] = []›
    · cases ‹[c, d] = ['+']›
    · cases ‹[c, d] = ['-']›
    · rename_i heq
      exact absurd (List.cons.inj heq).1 hplus
    · rfl

theorem u8Digits_one (d : Char) :
    u8Digits 0 [d] = match hexDigit d with
      | none => .error "invalid digit found in string"
      | some low => .ok low := by
  cases hd : hexDigit d with
  | none => simp only [u8Digits, hd]
  | some low =>
      have hlow := (hexDigit_range hd).1
      simp only [u8Digits, hd]
      rw [if_neg (by omega), Nat.zero_mul, Nat.zero_add]

theorem u8Digits_two (c d : Char) :
    u8Digits 0 [c, d] = match hexDigit c, hexDigit d with
      | some high, some low => .ok (16 * high + low)
      | _, _ => .error "invalid digit found in string" := by
  cases hc : hexDigit c with
  | none => simp only [u8Digits, hc]
  | some high =>
      have hhigh := (hexDigit_range hc).1
      cases hd : hexDigit d with
      | none =>
          simp only [u8Digits, hc, hd]
          rw [if_neg (by omega)]
      | some low =>
          have hlow := (hexDigit_range hd).1
          simp only [u8Digits, hc, hd]
          rw [if_neg (by omega), if_neg (by omega), Nat.zero_mul, Nat.zero_add,
            Nat.mul_comm]

theorem takeBytes_pair {c d : Char} (hc : c.utf8Size = 1)
    (hd : d.utf8Size = 1) (rest : List Char) :
    takeBytes 2 (c :: d :: rest) = some [c, d] := by
  simp [takeBytes, hc, hd]

theorem takeBytes_wide {c : Char} (hc : c.utf8Size = 2) (rest : List Char) :
    takeBytes 2 (c :: rest) = some [c] := by
  simp [takeBytes, hc]

theorem u8FromHex_wide {c : Char} (hc : c.utf8Size ≠ 1) :
    u8FromHex [c] = .error "invalid digit found in string" := by
  have hdigits : u8Digits 0 [c] = .error "invalid digit found in string" := by
    rw [u8Digits_one, hexDigit_eq_none_of_wide hc]
  rw [u8FromHex.eq_def]
  split
  · cases ‹[c] = []›
  · rfl
  · rfl
  · rename_i heq
    obtain ⟨rfl, rfl⟩ := List.cons.inj heq
    exact absurd (by decide) hc
  · exact hdigits

/-- What `&value[start..start + 2]` is and how it is read, piece by piece. -/
inductive PairOf : List Char → Pair → Prop
  | digits {c d : Char} {rest : List Char} {high low : Nat} :
      hexDigit c = some high → hexDigit d = some low →
      PairOf (c :: d :: rest) (.digits (16 * high + low) rest)
  | plus {d : Char} {rest : List Char} {low : Nat} : hexDigit d = some low →
      PairOf ('+' :: d :: rest) (.plus low rest)
  | other {cs piece : List Char} {e : String} : takeBytes 2 cs = some piece →
      u8FromHex piece = .error e → PairOf cs .other
  | cut {cs : List Char} : takeBytes 2 cs = none → PairOf cs .cut

theorem pairOf_ascii {c d : Char} (hc : c.utf8Size = 1) (hd : d.utf8Size = 1)
    (rest : List Char) :
    PairOf (c :: d :: rest) (match hexDigit c, hexDigit d with
      | some high, some low => .digits (16 * high + low) rest
      | none, some low => if c = '+' then .plus low rest else .other
      | _, none => .other) := by
  have htake := takeBytes_pair hc hd rest
  cases hhigh : hexDigit c with
  | some high =>
      cases hlow : hexDigit d with
      | some low => exact .digits hhigh hlow
      | none =>
          have hplus : c ≠ '+' := by
            rintro rfl
            cases hhigh
          refine .other htake (e := "invalid digit found in string") ?_
          rw [u8FromHex_pair, if_neg hplus, u8Digits_two, hhigh, hlow]
  | none =>
      by_cases hplus : c = '+'
      · subst hplus
        cases hlow : hexDigit d with
        | some low =>
            show PairOf _ (if '+' = '+' then .plus low rest else .other)
            rw [if_pos rfl]
            exact .plus hlow
        | none =>
            refine .other htake (e := "invalid digit found in string") ?_
            rw [u8FromHex_pair, if_pos rfl, u8Digits_one, hlow]
      · have hread : u8FromHex [c, d] =
            .error "invalid digit found in string" := by
          rw [u8FromHex_pair, if_neg hplus, u8Digits_two, hhigh]
        cases hlow : hexDigit d with
        | some low =>
            show PairOf _ (if c = '+' then .plus low rest else .other)
            rw [if_neg hplus]
            exact .other htake hread
        | none => exact .other htake hread

theorem pairOf_scanPair (cs : List Char) : PairOf cs (scanPair cs) := by
  have hsize : ∀ c : Char, 0 < c.utf8Size := Char.utf8Size_pos
  match cs with
  | [] => exact .cut rfl
  | [c] =>
      rw [scanPair]
      split
      · rename_i hc
        exact .other (takeBytes_wide hc []) (u8FromHex_wide (by omega))
      · rename_i hc
        refine .cut ?_
        have := hsize c
        simp only [takeBytes]
        split
        · have hleft : 1 + 1 - c.utf8Size = 0 + 1 := by omega
          rw [hleft]
          rfl
        · rfl
  | c :: d :: rest =>
      rw [scanPair]
      split
      · rename_i hc
        exact .other (takeBytes_wide hc _) (u8FromHex_wide (by omega))
      · split
        · rename_i hboth
          exact pairOf_ascii hboth.1 hboth.2 rest
        · rename_i hc hboth
          refine .cut ?_
          have hcpos := hsize c
          have hdpos := hsize d
          simp only [takeBytes]
          split
          · have hleft : 1 + 1 - c.utf8Size = 0 + 1 := by omega
            rw [hleft, takeBytes, if_neg (by omega)]
            rfl
          · rfl

theorem u8FromHex_digits {c d : Char} {high low : Nat}
    (hc : hexDigit c = some high) (hd : hexDigit d = some low) :
    u8FromHex [c, d] = .ok (16 * high + low) := by
  have hplus : c ≠ '+' := by
    rintro rfl
    cases hc
  rw [u8FromHex_pair, if_neg hplus, u8Digits_two, hc, hd]

theorem u8FromHex_plus {d : Char} {low : Nat} (hd : hexDigit d = some low) :
    u8FromHex ['+', d] = .ok low := by
  rw [u8FromHex_pair, if_pos rfl, u8Digits_one, hd]

/-! ## The loop -/

theorem byteLen_cons (c : Char) (cs : List Char) :
    byteLen (c :: cs) = c.utf8Size + byteLen cs := by
  simp [byteLen]

theorem byteLen_append (front back : List Char) :
    byteLen (front ++ back) = byteLen front + byteLen back := by
  simp [byteLen]

theorem dropBytes_append (front rest : List Char) :
    dropBytes (byteLen front) (front ++ rest) = some rest := by
  induction front with
  | nil => simp [byteLen, dropBytes]
  | cons c front ih =>
      have hpos := Char.utf8Size_pos c
      obtain ⟨n, hn⟩ : ∃ n, c.utf8Size + byteLen front = n + 1 :=
        ⟨c.utf8Size + byteLen front - 1, by omega⟩
      rw [byteLen_cons, List.cons_append, hn, dropBytes, if_pos (by omega)]
      have hleft : n + 1 - c.utf8Size = byteLen front := by omega
      rw [hleft, ih]

theorem slicePair_append {front rest : List Char} {start : Nat}
    (h : byteLen front = start) :
    slicePair (front ++ rest) start = takeBytes 2 rest := by
  rw [slicePair, ← h, dropBytes_append, Option.bind_some]

/-- The byte of one turn goes above those before it. -/
theorem or_shiftLeft_eq {raw index : Nat} (byte : Nat)
    (h : raw < 2 ^ (index * 8)) :
    raw ||| (byte <<< (index * 8)) = raw + 2 ^ (index * 8) * byte := by
  rw [Nat.or_comm, ← Nat.shiftLeft_add_eq_or_of_lt h, Nat.shiftLeft_eq]
  ring

/-- What the loop leaves of the pieces that come, from `raw` on. -/
inductive LoopOf (raw index : Nat) : Pieces → Outcome Nat → Prop
  | bytes {signed : Bool} {values : List Nat} : LoopOf raw index
      (.bytes signed values)
      (.ok (raw + 2 ^ (index * 8) * Nat.ofDigits 256 values))
  | other {e : String} : LoopOf raw index .other (.err e)
  | cut : LoopOf raw index .cut .panic

theorem LoopOf.cons {raw index byte : Nat} {signed : Bool} {pieces : Pieces}
    {result : Outcome Nat}
    (h : LoopOf (raw + 2 ^ (index * 8) * byte) (index + 1) pieces result) :
    LoopOf raw index (pieces.cons signed byte) result := by
  cases h with
  | @bytes _ values =>
      have hvalue : raw + 2 ^ (index * 8) * byte +
          2 ^ ((index + 1) * 8) * Nat.ofDigits 256 values =
          raw + 2 ^ (index * 8) * Nat.ofDigits 256 (byte :: values) := by
        rw [Nat.ofDigits_cons, Nat.add_mul, pow_add]
        ring
      rw [hvalue]
      exact .bytes
  | other => exact .other
  | cut => exact .cut

/-- One piece further, the loop stands where it started. -/
theorem lt_of_byte {raw index byte : Nat} (hraw : raw < 2 ^ (index * 8))
    (hbyte : byte < 256) :
    raw + 2 ^ (index * 8) * byte < 2 ^ ((index + 1) * 8) := by
  have hpow : 2 ^ ((index + 1) * 8) = 2 ^ (index * 8) * 256 := by
    rw [Nat.add_mul, pow_add]
    norm_num
  rw [hpow]
  nlinarith

theorem carbonBytes_scan (field : String) (left : Nat) :
    ∀ {front rest : List Char} {index raw : Nat},
      byteLen front = 2 + index * 2 → raw < 2 ^ (index * 8) →
      LoopOf raw index (scanPairs left rest)
        (carbonBytes field (front ++ rest) left index raw) := by
  induction left with
  | zero =>
      intro front rest index raw _ _
      rw [carbonBytes, scanPairs]
      have hraw : raw = raw + 2 ^ (index * 8) * Nat.ofDigits 256 [] := rfl
      rw [hraw]
      exact .bytes
  | succ left ih =>
      intro front rest index raw hfront hraw
      have hslice := @slicePair_append front rest _ hfront
      -- A piece that is read moves both the text and the value on by a byte.
      have hstep : ∀ {c d : Char} {tail : List Char} {byte : Nat},
          rest = c :: d :: tail → c.utf8Size = 1 → d.utf8Size = 1 →
          u8FromHex [c, d] = .ok byte → byte < 256 →
          LoopOf (raw + 2 ^ (index * 8) * byte) (index + 1)
            (scanPairs left tail)
            (carbonBytes field (front ++ rest) (left + 1) index raw) := by
        rintro c d tail byte rfl hc hd hread hbyte
        rw [takeBytes_pair hc hd] at hslice
        rw [carbonBytes, hslice]
        simp only [hread]
        rw [or_shiftLeft_eq byte hraw]
        have happend : front ++ c :: d :: tail = (front ++ [c, d]) ++ tail := by
          simp
        rw [happend]
        refine ih ?_ (lt_of_byte hraw hbyte)
        simp only [byteLen_append, byteLen_cons, hc, hd, hfront]
        simp [byteLen]
        omega
      rw [scanPairs]
      have hpair := pairOf_scanPair rest
      generalize scanPair rest = pair at hpair ⊢
      cases hpair with
      | @digits c d tail high low hc hd =>
          have hhigh := (hexDigit_range hc).1
          have hlow := (hexDigit_range hd).1
          exact (hstep rfl (utf8Size_of_hexDigit hc) (utf8Size_of_hexDigit hd)
            (u8FromHex_digits hc hd) (by omega)).cons
      | @plus d tail low hd =>
          have hlow := (hexDigit_range hd).1
          exact (hstep rfl (by decide) (utf8Size_of_hexDigit hd)
            (u8FromHex_plus hd) (by omega)).cons
      | other htake hread =>
          rw [carbonBytes, hslice, htake]
          simp only [hread]
          exact .other
      | cut htake =>
          rw [carbonBytes, hslice, htake]
          exact .cut

/-! ## Texts of the grammar -/

theorem scanPair_digits {c d : Char} {high low : Nat}
    (hc : hexDigit c = some high) (hd : hexDigit d = some low)
    (rest : List Char) :
    scanPair (c :: d :: rest) = .digits (16 * high + low) rest := by
  have hcsize := utf8Size_of_hexDigit hc
  have hdsize := utf8Size_of_hexDigit hd
  rw [scanPair, if_neg (by omega), if_pos ⟨hcsize, hdsize⟩, hc, hd]

theorem cons_eq_bytes {pieces : Pieces} {signed signed' : Bool} {byte : Nat}
    {values : List Nat} (h : pieces.cons signed byte = .bytes signed' values) :
    ∃ s tail, pieces = .bytes s tail ∧ signed' = (signed || s) ∧
      values = byte :: tail := by
  cases pieces with
  | bytes s tail =>
      cases h
      exact ⟨s, tail, rfl, rfl, rfl⟩
  | other => cases h
  | cut => cases h

/-- Pieces that are all read start with one that is read. -/
theorem scanPairs_succ_bytes {n : Nat} {cs : List Char} {signed : Bool}
    {values : List Nat} (h : scanPairs (n + 1) cs = .bytes signed values) :
    ∃ byte rest s tail, scanPairs n rest = .bytes s tail ∧
      values = byte :: tail ∧
      ((scanPair cs = .digits byte rest ∧ signed = s) ∨
        (scanPair cs = .plus byte rest ∧ signed = true)) := by
  rw [scanPairs] at h
  cases hpair : scanPair cs with
  | digits byte rest =>
      simp only [hpair] at h
      obtain ⟨s, tail, hscan, hs, rfl⟩ := cons_eq_bytes h
      exact ⟨byte, rest, s, tail, hscan, rfl, .inl ⟨rfl, hs⟩⟩
  | plus byte rest =>
      simp only [hpair] at h
      obtain ⟨s, tail, hscan, rfl, rfl⟩ := cons_eq_bytes h
      exact ⟨byte, rest, s, tail, hscan, rfl, .inr ⟨rfl, rfl⟩⟩
  | other =>
      simp only [hpair] at h
      cases h
  | cut =>
      simp only [hpair] at h
      cases h

theorem of_scanPair_digits {cs rest : List Char} {byte : Nat}
    (h : scanPair cs = .digits byte rest) :
    ∃ c d high low, cs = c :: d :: rest ∧ hexDigit c = some high ∧
      hexDigit d = some low ∧ byte = 16 * high + low := by
  have hpair := pairOf_scanPair cs
  rw [h] at hpair
  cases hpair with
  | @digits c d _ high low hc hd => exact ⟨c, d, high, low, rfl, hc, hd, rfl⟩

theorem of_scanPair_plus {cs rest : List Char} {byte : Nat}
    (h : scanPair cs = .plus byte rest) :
    ∃ d, cs = '+' :: d :: rest ∧ hexDigit d = some byte := by
  have hpair := pairOf_scanPair cs
  rw [h] at hpair
  cases hpair with
  | @plus d _ _ hd => exact ⟨d, rfl, hd⟩

theorem scanPair_byte_lt {cs rest : List Char} {byte : Nat}
    (h : scanPair cs = .digits byte rest ∨ scanPair cs = .plus byte rest) :
    byte < 256 := by
  rcases h with h | h
  · obtain ⟨c, d, high, low, -, hc, hd, rfl⟩ := of_scanPair_digits h
    have := (hexDigit_range hc).1
    have := (hexDigit_range hd).1
    omega
  · obtain ⟨d, -, hd⟩ := of_scanPair_plus h
    have := (hexDigit_range hd).1
    omega

theorem scanPairs_bytes {n : Nat} {cs : List Char} {signed : Bool}
    {values : List Nat} (h : scanPairs n cs = .bytes signed values) :
    values.length = n ∧ ∀ byte ∈ values, byte < 256 := by
  induction n generalizing cs signed values with
  | zero =>
      cases h
      exact ⟨rfl, by simp⟩
  | succ n ih =>
      obtain ⟨byte, rest, s, tail, hscan, rfl, hpair⟩ := scanPairs_succ_bytes h
      obtain ⟨hlen, hall⟩ := ih hscan
      have hbyte := scanPair_byte_lt (hpair.imp And.left And.left)
      refine ⟨by rw [List.length_cons, hlen], ?_⟩
      intro b hb
      rcases List.mem_cons.mp hb with rfl | hb
      · exact hbyte
      · exact hall b hb

theorem scanPairs_of_hexPairs {cs : List Char} {values : List Nat}
    (h : hexPairs cs = some values) :
    scanPairs values.length cs = .bytes false values ∧
      byteLen cs = 2 * values.length := by
  induction cs using hexPairs.induct generalizing values with
  | case1 =>
      cases h
      exact ⟨rfl, by simp [byteLen]⟩
  | case2 => cases h
  | case3 c d rest ih =>
      simp only [hexPairs, Option.bind_eq_bind, Option.bind_eq_some_iff] at h
      obtain ⟨high, hc, low, hd, tail, htail, hvalues⟩ := h
      cases hvalues
      obtain ⟨hscan, hlen⟩ := ih htail
      constructor
      · rw [List.length_cons, scanPairs, scanPair_digits hc hd]
        simp only [hscan, Pieces.cons, Bool.or_self]
      · rw [byteLen_cons, byteLen_cons, utf8Size_of_hexDigit hc,
          utf8Size_of_hexDigit hd, hlen, List.length_cons]
        omega

theorem hexPairs_of_scanPairs {n : Nat} {cs : List Char} {values : List Nat}
    (hlen : byteLen cs = 2 * n) (h : scanPairs n cs = .bytes false values) :
    hexPairs cs = some values := by
  induction n generalizing cs values with
  | zero =>
      cases h
      cases cs with
      | nil => rfl
      | cons c rest =>
          have hpos := Char.utf8Size_pos c
          rw [byteLen_cons] at hlen
          omega
  | succ n ih =>
      obtain ⟨byte, rest, s, tail, hscan, rfl, hpair | hpair⟩ :=
        scanPairs_succ_bytes h
      · obtain ⟨hpair, rfl⟩ := hpair
        obtain ⟨c, d, high, low, rfl, hc, hd, rfl⟩ := of_scanPair_digits hpair
        rw [byteLen_cons, byteLen_cons, utf8Size_of_hexDigit hc,
          utf8Size_of_hexDigit hd] at hlen
        simp [hexPairs, hc, hd, ih (by omega) hscan]
      · cases hpair.2

/-! ## Eight bytes and a sign -/

theorem length_intBytes (v : Int) : (intBytes v).length = 8 := by
  rw [intBytes, List.length_map, List.length_range]

theorem intBytes_lt (v : Int) : ∀ byte ∈ intBytes v, byte < 256 := by
  intro byte hbyte
  obtain ⟨i, -, rfl⟩ := List.mem_map.mp hbyte
  have := Int.emod_lt_of_pos (v / 256 ^ i) (show (0 : Int) < 256 by decide)
  omega

theorem emod_mul_add (v : Int) {a b : Int} (ha : 0 ≤ a) :
    v % (a * b) = v % a + a * (v / a % b) := by
  rw [Int.emod_def, Int.emod_def v a, Int.emod_def (v / a) b,
    Int.ediv_ediv_of_nonneg ha]
  ring

/-- The lowest bytes of a number are what it leaves modulo their range. -/
theorem ofDigits_range (v : Int) (n : Nat) :
    ((Nat.ofDigits 256 ((List.range n).map
      fun i => (v / 256 ^ i % 256).toNat) : Nat) : Int) = v % 256 ^ n := by
  induction n with
  | zero => simp
  | succ n ih =>
      have hbyte := Int.emod_nonneg (v / 256 ^ n) (by decide : (256 : Int) ≠ 0)
      rw [List.range_succ, List.map_append, Nat.ofDigits_append,
        List.length_map, List.length_range, List.map_singleton,
        Nat.ofDigits_singleton, pow_succ, emod_mul_add v (by positivity), ← ih]
      push_cast
      rw [Int.toNat_of_nonneg hbyte]

theorem ofDigits_intBytes (v : Int) :
    ((Nat.ofDigits 256 (intBytes v) : Nat) : Int) = v % 2 ^ 64 := by
  rw [intBytes, ofDigits_range]
  norm_num

/-- The bytes and the announced sign leave one value. -/
theorem intBytes_iff {values : List Nat} (hlen : values.length = 8)
    (hall : ∀ byte ∈ values, byte < 256) {header : Nat} {v : Int} :
    (values = intBytes v ∧ ((header = 0x08 ∧ 0 ≤ v ∧ v < 2 ^ 63) ∨
      (header = 0x88 ∧ -2 ^ 63 ≤ v ∧ v < 0))) ↔
      SignFits header values ∧ v = asI64 (Nat.ofDigits 256 values) := by
  have hbytes : values = intBytes v ↔
      ((Nat.ofDigits 256 values : Nat) : Int) = v % 2 ^ 64 := by
    constructor
    · rintro rfl
      exact ofDigits_intBytes v
    · intro h
      rw [← ofDigits_intBytes] at h
      exact Nat.ofDigits_inj_of_len_eq (by decide)
        (hlen.trans (length_intBytes v).symm) hall (intBytes_lt v)
        (Int.ofNat_inj.mp h)
  have hlt : Nat.ofDigits 256 values < 2 ^ 64 := by
    have := Nat.ofDigits_lt_base_pow_length (by decide : 1 < 256) hall
    rw [hlen] at this
    exact this
  rw [hbytes, SignFits, asI64]
  split <;> omega

/-! ## The function -/

theorem byteLen_of_encodes {cs : List Char} {v : Int} (h : Encodes cs v) :
    byteLen cs = 18 := by
  have hlen := length_intBytes v
  rcases h with ⟨h, -⟩ | ⟨h, -⟩
  all_goals
    rw [(scanPairs_of_hexPairs h).2, List.length_cons, hlen]

/-- The grammar, over what the pieces of the text are. -/
theorem encodes_iff {cs : List Char} {v : Int} (hlen : byteLen cs = 18) :
    Encodes cs v ↔ ∃ header rest values, scanPair cs = .digits header rest ∧
      scanPairs 8 rest = .bytes false values ∧ SignFits header values ∧
      v = asI64 (Nat.ofDigits 256 values) := by
  have hpairs : ∀ header values, values.length = 8 →
      (hexPairs cs = some (header :: values) ↔
        ∃ rest, scanPair cs = .digits header rest ∧
          scanPairs 8 rest = .bytes false values) := by
    intro header values hvalues
    constructor
    · intro h
      obtain ⟨hscan, -⟩ := scanPairs_of_hexPairs h
      rw [List.length_cons, hvalues] at hscan
      obtain ⟨byte, rest, s, tail, htail, heq, hpair | hpair⟩ :=
        scanPairs_succ_bytes hscan
      · obtain ⟨rfl, rfl⟩ := List.cons.inj heq
        obtain ⟨hpair, rfl⟩ := hpair
        exact ⟨rest, hpair, htail⟩
      · cases hpair.2
    · rintro ⟨rest, hpair, hscan⟩
      refine hexPairs_of_scanPairs (n := 9) hlen ?_
      rw [scanPairs, hpair]
      simp only [hscan, Pieces.cons, Bool.or_self]
  rw [Encodes, hpairs _ _ (length_intBytes v), hpairs _ _ (length_intBytes v)]
  constructor
  · rintro (⟨⟨rest, hpair, hscan⟩, hv⟩ | ⟨⟨rest, hpair, hscan⟩, hv⟩)
    · obtain ⟨hl, hall⟩ := scanPairs_bytes hscan
      exact ⟨_, rest, _, hpair, hscan,
        (intBytes_iff hl hall).mp ⟨rfl, .inl ⟨rfl, hv⟩⟩⟩
    · obtain ⟨hl, hall⟩ := scanPairs_bytes hscan
      exact ⟨_, rest, _, hpair, hscan,
        (intBytes_iff hl hall).mp ⟨rfl, .inr ⟨rfl, hv⟩⟩⟩
  · rintro ⟨header, rest, values, hpair, hscan, hsign⟩
    obtain ⟨hl, hall⟩ := scanPairs_bytes hscan
    obtain ⟨rfl, ⟨rfl, hv⟩ | ⟨rfl, hv⟩⟩ := (intBytes_iff hl hall).mpr hsign
    · exact .inl ⟨⟨rest, hpair, hscan⟩, hv⟩
    · exact .inr ⟨⟨rest, hpair, hscan⟩, hv⟩

/-- What comes of the pieces after a header that is known. -/
inductive ParseOf (header : Nat) : Pieces → Outcome Int → Prop
  | value {signed : Bool} {values : List Nat} : SignFits header values →
      ParseOf header (.bytes signed values)
        (.ok (asI64 (Nat.ofDigits 256 values)))
  | unfit {signed : Bool} {values : List Nat} {e : String} :
      ¬SignFits header values → ParseOf header (.bytes signed values) (.err e)
  | other {e : String} : ParseOf header .other (.err e)
  | cut : ParseOf header .cut .panic

section

variable {field value : String} {cs : List Char}

theorem parse_of_length (hcs : trim value.toList = cs)
    (hlen : byteLen cs ≠ 18) :
    ∃ e, parseCarbonIntxI64Raw field value = .err e := by
  rw [parseCarbonIntxI64Raw, hcs]
  exact ⟨_, if_pos hlen⟩

theorem signFits_iff {header : Nat} {values : List Nat}
    (hheader : header = 0x08 ∨ header = 0x88)
    (hall : ∀ byte ∈ values, byte < 256) (hlen : values.length = 8) :
    SignFits header values ↔
      ¬((header = 0x08 ∧ asI64 (Nat.ofDigits 256 values) < 0) ∨
        (header = 0x88 ∧ 0 ≤ asI64 (Nat.ofDigits 256 values))) := by
  have hlt : Nat.ofDigits 256 values < 2 ^ 64 := by
    have := Nat.ofDigits_lt_base_pow_length (by decide : 1 < 256) hall
    rw [hlen] at this
    exact this
  rw [SignFits, asI64]
  split <;> omega

theorem parse_of_header {c d : Char} {rest : List Char} {header : Nat}
    (hcs : trim value.toList = c :: d :: rest)
    (hlen : byteLen (c :: d :: rest) = 18) (hc : c.utf8Size = 1)
    (hd : d.utf8Size = 1) (hread : u8FromHex [c, d] = .ok header) :
    (¬(header = 0x08 ∨ header = 0x88) →
      ∃ e, parseCarbonIntxI64Raw field value = .err e) ∧
    (header = 0x08 ∨ header = 0x88 → ParseOf header (scanPairs 8 rest)
      (parseCarbonIntxI64Raw field value)) := by
  have hslice : slicePair (c :: d :: rest) 0 = some [c, d] :=
    (@slicePair_append [] _ 0 (by simp [byteLen])).trans
      (takeBytes_pair hc hd rest)
  rw [parseCarbonIntxI64Raw, hcs, if_neg (not_not.mpr hlen), hslice]
  simp only [hread]
  constructor
  · intro hheader
    exact ⟨_, if_pos (not_or.mp hheader)⟩
  · intro hheader
    have hloop := @carbonBytes_scan field 8 [c, d] rest 0 0
      (by simp [byteLen, hc, hd]) (by decide)
    rw [if_neg (fun h => not_or.mpr h hheader)]
    generalize hpieces : scanPairs 8 rest = pieces at hloop
    generalize hresult : carbonBytes field ([c, d] ++ rest) 8 0 0 = result
      at hloop
    rw [List.cons_append, List.cons_append, List.nil_append] at hresult
    rw [hresult]
    cases hloop with
    | @bytes signed values =>
        obtain ⟨hl, hall⟩ := scanPairs_bytes hpieces
        have hraw : 0 + 2 ^ (0 * 8) * Nat.ofDigits 256 values =
            Nat.ofDigits 256 values := by simp
        simp only [hraw]
        split
        · rename_i h
          exact .unfit fun hs => (signFits_iff hheader hall hl).mp hs h
        · rename_i h
          exact .value ((signFits_iff hheader hall hl).mpr h)
    | other => exact .other
    | cut => exact .cut

end

/-! ## When the function is right -/

section

variable {field value : String} {cs : List Char}

theorem signFits_header {header : Nat} {values : List Nat}
    (h : SignFits header values) : header = 0x08 ∨ header = 0x88 :=
  h.imp And.left And.left

theorem readsRight_of_err (hcs : trim value.toList = cs) {e : String}
    (herr : parseCarbonIntxI64Raw field value = .err e)
    (hnot : ∀ v, ¬Encodes cs v) : ReadsRight field value := by
  refine ⟨fun v => ?_, by rw [herr]; exact nofun⟩
  rw [herr, hcs]
  exact ⟨nofun, fun h => absurd h (hnot v)⟩

/-- Over the header that was read, with a plus sign or without. -/
theorem readsRight_after {signed : Bool} {header : Nat} {rest : List Char}
    (hcs : trim value.toList = cs)
    (hencodes : ∀ v, Encodes cs v ↔ signed = false ∧ ∃ values,
      scanPairs 8 rest = .bytes false values ∧ SignFits header values ∧
      v = asI64 (Nat.ofDigits 256 values))
    (hparse : (¬(header = 0x08 ∨ header = 0x88) →
        ∃ e, parseCarbonIntxI64Raw field value = .err e) ∧
      (header = 0x08 ∨ header = 0x88 → ParseOf header (scanPairs 8 rest)
        (parseCarbonIntxI64Raw field value))) :
    ReadsRight field value ↔ ¬MisreadAfter signed header rest := by
  by_cases hheader : header = 0x08 ∨ header = 0x88
  · have hread := hparse.2 hheader
    rw [MisreadAfter, and_iff_right hheader]
    generalize hpieces : scanPairs 8 rest = pieces at hread hencodes
    generalize hresult : parseCarbonIntxI64Raw field value = result at hread
    cases hread with
    | @value signed' values hfits =>
        have hstands : ∀ v, Encodes cs v ↔ (signed || signed') = false ∧
            v = asI64 (Nat.ofDigits 256 values) := by
          intro v
          rw [hencodes, Bool.or_eq_false_iff, and_assoc]
          refine and_congr_right fun _ => ⟨?_, ?_⟩
          · rintro ⟨_, ⟨⟩, -, hv⟩
            exact ⟨rfl, hv⟩
          · rintro ⟨rfl, hv⟩
            exact ⟨values, rfl, hfits, hv⟩
        cases hsigned : signed || signed' with
        | false =>
            refine iff_of_true ⟨fun v => ?_, by rw [hresult]; exact nofun⟩ ?_
            · rw [hresult, hcs, hstands, hsigned]
              constructor
              · rintro ⟨⟩
                exact ⟨rfl, rfl⟩
              · rintro ⟨-, rfl⟩
                rfl
            · rintro ⟨h, -⟩
              rw [hsigned] at h
              cases h
        | true =>
            refine iff_of_false (fun h => ?_) (not_not.mpr ⟨hsigned, hfits⟩)
            have hv := (h.accepts _).mp hresult
            rw [hcs, hstands, hsigned] at hv
            cases hv.1
    | @unfit signed' values e hunfit =>
        refine iff_of_true (readsRight_of_err hcs hresult fun v hv => ?_)
          fun h => hunfit h.2
        obtain ⟨-, _, ⟨⟩, hfits, -⟩ := (hencodes v).mp hv
        exact hunfit hfits
    | other =>
        refine iff_of_true (readsRight_of_err hcs hresult fun v hv => ?_) id
        obtain ⟨-, _, ⟨⟩, -⟩ := (hencodes v).mp hv
    | cut =>
        exact iff_of_false (fun h => h.returns hresult) (not_not.mpr trivial)
  · obtain ⟨e, herr⟩ := hparse.1 hheader
    refine iff_of_true (readsRight_of_err hcs herr fun v hv => ?_)
      fun h => hheader h.1
    obtain ⟨-, values, -, hfits, -⟩ := (hencodes v).mp hv
    exact hheader (signFits_header hfits)

/-- The function is right about exactly the texts that are not misread. -/
theorem readsRight_iff :
    ReadsRight field value ↔ ¬Misread (trim value.toList) := by
  generalize hcs : trim value.toList = cs
  by_cases hlen : byteLen cs = 18
  · rw [Misread, and_iff_right hlen]
    have hslice : slicePair cs 0 = takeBytes 2 cs :=
      @slicePair_append [] cs 0 (by simp [byteLen])
    have hpair := pairOf_scanPair cs
    generalize hscan : scanPair cs = pair at hpair
    cases hpair with
    | @digits c d rest high low hc hd =>
        refine readsRight_after hcs (fun v => ?_)
          (parse_of_header hcs hlen (utf8Size_of_hexDigit hc)
            (utf8Size_of_hexDigit hd) (u8FromHex_digits hc hd))
        rw [encodes_iff hlen, hscan, and_iff_right rfl]
        constructor
        · rintro ⟨_, _, values, ⟨⟩, h⟩
          exact ⟨values, h⟩
        · rintro ⟨values, h⟩
          exact ⟨_, rest, values, rfl, h⟩
    | @plus d rest low hd =>
        refine readsRight_after hcs (fun v => ?_)
          (parse_of_header hcs hlen (by decide) (utf8Size_of_hexDigit hd)
            (u8FromHex_plus hd))
        rw [encodes_iff hlen, hscan]
        constructor
        · rintro ⟨_, _, _, ⟨⟩, -⟩
        · rintro ⟨⟨⟩, -⟩
    | @other _ piece e htake hread =>
        have herr : parseCarbonIntxI64Raw field value =
            .err ("invalid " ++ field ++ " intx header: " ++ e) := by
          rw [parseCarbonIntxI64Raw, hcs, if_neg (not_not.mpr hlen),
            hslice, htake]
          simp only [hread]
        refine iff_of_true (readsRight_of_err hcs herr fun v hv => ?_) id
        rw [encodes_iff hlen, hscan] at hv
        obtain ⟨_, _, _, ⟨⟩, -⟩ := hv
    | cut htake =>
        have hpanic : parseCarbonIntxI64Raw field value = .panic := by
          rw [parseCarbonIntxI64Raw, hcs, if_neg (not_not.mpr hlen),
            hslice, htake]
        exact iff_of_false (fun h => h.returns hpanic) (not_not.mpr trivial)
  · obtain ⟨e, herr⟩ := @parse_of_length field _ _ hcs hlen
    exact iff_of_true
      (readsRight_of_err hcs herr fun v hv => hlen (byteLen_of_encodes hv))
      fun h => hlen h.1

end

/-! ## Every `i64` has a text -/

def hexText (bytes : List Nat) : List Char :=
  bytes.flatMap fun byte =>
    [Nat.digitChar (byte / 16), Nat.digitChar (byte % 16)]

theorem hexDigit_digitChar {n : Nat} (h : n < 16) :
    hexDigit (Nat.digitChar n) = some n := by
  interval_cases n <;> rfl

theorem hexPairs_hexText {bytes : List Nat} (h : ∀ byte ∈ bytes, byte < 256) :
    hexPairs (hexText bytes) = some bytes := by
  induction bytes with
  | nil => rfl
  | cons byte bytes ih =>
      have hbyte := h byte List.mem_cons_self
      have hhigh : hexDigit (Nat.digitChar (byte / 16)) = some (byte / 16) :=
        hexDigit_digitChar (by omega)
      have hlow : hexDigit (Nat.digitChar (byte % 16)) = some (byte % 16) :=
        hexDigit_digitChar (by omega)
      have htail := ih fun b hb => h b (List.mem_cons_of_mem _ hb)
      have hvalue : 16 * (byte / 16) + byte % 16 = byte := Nat.div_add_mod ..
      show hexPairs (_ :: _ :: hexText bytes) = _
      simp only [hexPairs, hhigh, hlow, htail, Option.bind_eq_bind,
        Option.bind_some, hvalue]
      rfl

theorem trim_of_all {cs : List Char} (h : ∀ c ∈ cs, isWhitespace c = false) :
    trim cs = cs := by
  have hdrop : ∀ l : List Char, (∀ c ∈ l, isWhitespace c = false) →
      l.dropWhile isWhitespace = l := by
    intro l hl
    cases l with
    | nil => rfl
    | cons c l => rw [List.dropWhile_cons, hl c List.mem_cons_self]; rfl
  rw [trim, hdrop cs h, hdrop _ fun c hc => h c (List.mem_reverse.mp hc),
    List.reverse_reverse]

theorem not_isWhitespace_hexText {bytes : List Nat}
    (h : ∀ byte ∈ bytes, byte < 256) :
    ∀ c ∈ hexText bytes, isWhitespace c = false := by
  intro c hc
  obtain ⟨byte, hbyte, hc⟩ := List.mem_flatMap.mp hc
  have hlt := h byte hbyte
  rcases List.mem_pair.mp hc with rfl | rfl
  · exact not_isWhitespace_of_hexDigit (hexDigit_digitChar (by omega))
  · exact not_isWhitespace_of_hexDigit (hexDigit_digitChar (by omega))

/-- The text that stands for `v`. -/
def intxText (v : Int) : List Char :=
  hexText ((if 0 ≤ v then 0x08 else 0x88) :: intBytes v)

theorem encodes_intxText {v : Int} (hlo : -2 ^ 63 ≤ v) (hhi : v < 2 ^ 63) :
    Encodes (intxText v) v ∧ trim (intxText v) = intxText v := by
  have hall : ∀ byte ∈ (if 0 ≤ v then 0x08 else 0x88) :: intBytes v,
      byte < 256 := by
    intro byte hbyte
    rcases List.mem_cons.mp hbyte with rfl | hbyte
    · split <;> decide
    · exact intBytes_lt v byte hbyte
  refine ⟨?_, trim_of_all (not_isWhitespace_hexText hall)⟩
  have hpairs := hexPairs_hexText hall
  by_cases hv : 0 ≤ v
  · rw [if_pos hv] at hpairs
    rw [intxText, if_pos hv]
    exact .inl ⟨hpairs, hv, hhi⟩
  · rw [if_neg hv] at hpairs
    rw [intxText, if_neg hv]
    exact .inr ⟨hpairs, hlo, not_le.mp hv⟩

theorem not_misread_of_encodes {cs : List Char} {v : Int} (h : Encodes cs v) :
    ¬Misread cs := by
  rintro ⟨hlen, hmisread⟩
  obtain ⟨header, rest, values, hpair, hscan, -⟩ := (encodes_iff hlen).mp h
  simp only [hpair, MisreadAfter, hscan] at hmisread
  cases hmisread.2.1

/-- The function takes a text for what it is, or refuses it, exactly when no
plus sign passes for a digit and no character is cut; and it decodes a text of
every `i64`. -/
theorem parseCarbonIntxI64Raw_right_iff (field : String) :
    (∀ value, ReadsRight field value ↔ ¬Misread (trim value.toList)) ∧
      ∀ v : Int, -2 ^ 63 ≤ v → v < 2 ^ 63 →
        ∃ value, Encodes (trim value.toList) v ∧
          parseCarbonIntxI64Raw field value = .ok v := by
  refine ⟨fun value => readsRight_iff, fun v hlo hhi => ?_⟩
  obtain ⟨hencodes, htrim⟩ := encodes_intxText hlo hhi
  have htext : trim (String.ofList (intxText v)).toList = intxText v := by
    rw [String.toList_ofList, htrim]
  rw [← htext] at hencodes
  exact ⟨_, hencodes, ((readsRight_iff.mpr
    (not_misread_of_encodes hencodes)).accepts v).mpr hencodes⟩

/-- A plus sign in the header is taken for a zero, and six characters of three
bytes each are cut after the second byte. -/
theorem parseCarbonIntxI64Raw_plus_and_cut :
    parseCarbonIntxI64Raw "tx.result" "+80100000000000000" = .ok 1 ∧
      ¬ReadsRight "tx.result" "+80100000000000000" ∧
      parseCarbonIntxI64Raw "tx.result" "€€€€€€" = .panic ∧
      ¬ReadsRight "tx.result" "€€€€€€" := by
  have hplus : parseCarbonIntxI64Raw "tx.result" "+80100000000000000" =
      .ok 1 := by decide +kernel
  have hcut : parseCarbonIntxI64Raw "tx.result" "€€€€€€" = .panic := by
    decide +kernel
  refine ⟨hplus, fun h => ?_, hcut, fun h => h.returns hcut⟩
  have hnone : hexPairs (trim "+80100000000000000".toList) = none := by
    decide +kernel
  rcases (h.accepts 1).mp hplus with ⟨hpairs, -⟩ | ⟨hpairs, -⟩
  · rw [hnone] at hpairs
    cases hpairs
  · rw [hnone] at hpairs
    cases hpairs

end Explorer.Ref
