import Mathlib

/-!
# The corners of Rust's standard library the source leans on

The counters that saturate, and text. The string operations are the standard
library's, and Lean's own differ in corners: `str::trim` strips the Unicode
`White_Space` property, not the four ASCII blanks, `eq_ignore_ascii_case` folds
`A..Z` only, and slicing a `&str` at a byte that is not a character boundary
panics. `parse_carbon_intx_i64_raw` slices by bytes, so its model keeps the
three outcomes apart.
-/

namespace Explorer.Ref

/-- `u32::MAX`, where the counts saturate. -/
def u32Max : Nat := 4294967295

/-- `u32::saturating_add`. -/
def satAdd32 (a b : Nat) : Nat := min (a + b) u32Max

/-- `char::is_whitespace`: the Unicode `White_Space` property. -/
def isWhitespace (c : Char) : Bool :=
  let n := c.toNat
  (9 ≤ n && n ≤ 13) || n == 32 || n == 0x85 || n == 0xA0 || n == 0x1680 ||
    (0x2000 ≤ n && n ≤ 0x200A) || n == 0x2028 || n == 0x2029 ||
    n == 0x202F || n == 0x205F || n == 0x3000

/-- `str::trim`, on the characters. -/
def trim (cs : List Char) : List Char :=
  ((cs.dropWhile isWhitespace).reverse.dropWhile isWhitespace).reverse

/-- `non_empty_string`. -/
def nonEmptyString (value : String) : Option String :=
  let trimmed := String.ofList (trim value.toList)
  if trimmed.isEmpty then none else some trimmed

/-- `value.trim().is_empty()`. -/
def isBlank (s : String) : Bool := s.toList.all isWhitespace

/-- `str::eq_ignore_ascii_case`. `Char.toLower` folds exactly `A..Z`. -/
def eqIgnoreAsciiCase (a b : String) : Bool :=
  decide (a.toList.map Char.toLower = b.toList.map Char.toLower)

/-- `is_some_and(|symbol| symbol.eq_ignore_ascii_case("SOUL"))`. -/
def isSoul (symbol : Option String) : Bool :=
  symbol.any fun s => eqIgnoreAsciiCase s "SOUL"

/-- `str::split_once`. -/
def splitOnce (sep : Char) : List Char → Option (List Char × List Char)
  | [] => none
  | c :: cs =>
      if c = sep then some ([], cs)
      else (splitOnce sep cs).map fun (front, back) => (c :: front, back)

/-- The digits of `i64::from_str`, with the overflow checked at each. -/
def parseDigits (max : Nat) (overflow : String) :
    Nat → List Char → Except String Nat
  | n, [] => .ok n
  | n, c :: cs =>
      if c.isDigit then
        let n' := 10 * n + (c.toNat - '0'.toNat)
        if n' ≤ max then parseDigits max overflow n' cs else .error overflow
      else .error "invalid digit found in string"

/-- `from_str` of the signed integer with `bits` bits, and the text of its
`ParseIntError`. -/
def parseSigned (bits : Nat) : List Char → Except String Int
  | [] => .error "cannot parse integer from empty string"
  | ['-'] | ['+'] => .error "invalid digit found in string"
  | '-' :: cs =>
      (parseDigits (2 ^ (bits - 1)) "number too small to fit in target type"
        0 cs).map fun n => -(n : Int)
  | '+' :: cs =>
      (parseDigits (2 ^ (bits - 1) - 1)
        "number too large to fit in target type" 0 cs).map fun n => (n : Int)
  | cs =>
      (parseDigits (2 ^ (bits - 1) - 1)
        "number too large to fit in target type" 0 cs).map fun n => (n : Int)

/-! ## The Carbon `intx` result of an inflation call -/

/-- What a Rust function that may panic does. -/
inductive Outcome (α : Type) where
  | ok (value : α)
  | err (reason : String)
  | panic
  deriving Repr, DecidableEq

/-- `str::len`: bytes, not characters. -/
def byteLen (cs : List Char) : Nat := (cs.map Char.utf8Size).sum

/-- The text from byte `n` on; `none` when `n` is no character boundary. -/
def dropBytes : Nat → List Char → Option (List Char)
  | 0, cs => some cs
  | _ + 1, [] => none
  | n + 1, c :: cs =>
      if c.utf8Size ≤ n + 1 then dropBytes (n + 1 - c.utf8Size) cs else none

/-- The first `n` bytes; `none` when byte `n` is no character boundary. -/
def takeBytes : Nat → List Char → Option (List Char)
  | 0, _ => some []
  | _ + 1, [] => none
  | n + 1, c :: cs =>
      if c.utf8Size ≤ n + 1 then
        (takeBytes (n + 1 - c.utf8Size) cs).map (List.cons c)
      else none

/-- `&value[start..start + 2]`; `none` is the slice's panic. -/
def slicePair (cs : List Char) (start : Nat) : Option (List Char) :=
  (dropBytes start cs).bind (takeBytes 2)

/-- `char::to_digit(16)`. -/
def hexDigit (c : Char) : Option Nat :=
  let n := c.toNat
  if 48 ≤ n ∧ n ≤ 57 then some (n - 48)
  else if 97 ≤ n ∧ n ≤ 102 then some (n - 87)
  else if 65 ≤ n ∧ n ≤ 70 then some (n - 55)
  else none

/-- The digit loop of `u8::from_str_radix(_, 16)`. -/
def u8Digits (acc : Nat) : List Char → Except String Nat
  | [] => .ok acc
  | c :: cs =>
      match hexDigit c with
      | none => .error "invalid digit found in string"
      | some d =>
          if 255 < acc * 16 + d then
            .error "number too large to fit in target type"
          else u8Digits (acc * 16 + d) cs

/-- `u8::from_str_radix(_, 16)`: one leading plus sign is accepted. -/
def u8FromHex : List Char → Except String Nat
  | [] => .error "cannot parse integer from empty string"
  | ['+'] => .error "invalid digit found in string"
  | ['-'] => .error "invalid digit found in string"
  | '+' :: ds => u8Digits 0 ds
  | ds => u8Digits 0 ds

/-- The byte loop of `parse_carbon_intx_i64_raw`, little-endian, `index`
counting up to eight. -/
def carbonBytes (field : String) (cs : List Char) :
    (left index raw : Nat) → Outcome Nat
  | 0, _, raw => .ok raw
  | left + 1, index, raw =>
      match slicePair cs (2 + index * 2) with
      | none => .panic
      | some pair =>
          match u8FromHex pair with
          | .error e => .err ("invalid " ++ field ++ " intx byte: " ++ e)
          | .ok byte =>
              carbonBytes field cs left (index + 1)
                (raw ||| (byte <<< (index * 8)))

/-- `raw as i64` for a `u64`. -/
def asI64 (raw : Nat) : Int :=
  if raw < 9223372036854775808 then raw else (raw : Int) - 18446744073709551616

/-- `parse_carbon_intx_i64_raw`. -/
def parseCarbonIntxI64Raw (field value : String) : Outcome Int :=
  let cs := trim value.toList
  if byteLen cs ≠ 18 then
    .err (field ++ " is not an 8-byte Carbon intx")
  else
    match slicePair cs 0 with
    | none => .panic
    | some head =>
        match u8FromHex head with
        | .error e => .err ("invalid " ++ field ++ " intx header: " ++ e)
        | .ok header =>
            if header ≠ 0x08 ∧ header ≠ 0x88 then
              .err (field ++ " is not an 8-byte Carbon intx")
            else
              match carbonBytes field cs 8 0 0 with
              | .panic => .panic
              | .err e => .err e
              | .ok raw =>
                  let parsed := asI64 raw
                  if (header = 0x08 ∧ parsed < 0) ∨
                      (header = 0x88 ∧ 0 ≤ parsed) then
                    .err (field ++ " has an invalid Carbon intx sign extension")
                  else .ok parsed

end Explorer.Ref
