import Mathlib

/-!
# The script disassembler (`crates/http-api/src/support.rs`)

`disassemble_script_bytes` walks over a script with a reader and prints a line
for each instruction. The arms of its match are told apart by
`operandClass`, and `readArgs` has their reads.

Two things could panic and are kept as faults: a slice or an index outside of
the script, and a sum that does not fit its integer. `usize` is `Nat`, since
positions stay within a script that is in memory. The loop has a budget of
rounds, and `none` is a loop that would go on.
-/

namespace Explorer.Ref

/-- How a read ends without a value: the request is answered with an error, or
the code panics. -/
inductive ScriptFault where
  | badRequest (message : String)
  | panic
  deriving DecidableEq

structure VmScriptReader where
  bytes : List UInt8
  position : Nat
  deriving DecidableEq

abbrev VmRead (α : Type) := StateT VmScriptReader (Except ScriptFault) α

/-! ## `VmScriptReader` -/

def hasMore (r : VmScriptReader) : Bool := decide (r.position < r.bytes.length)

def readU8 : VmRead UInt8 := fun r =>
  if r.bytes.length ≤ r.position then
    .error (.badRequest "Constraint failed: Outside of range")
  else
    match r.bytes[r.position]? with
    | none => .error .panic
    | some value => .ok (value, { r with position := r.position + 1 })

/-- `a + b` in the unsigned integer with `bits` bits. -/
def addUnsigned (bits a b : Nat) : VmRead Nat :=
  if a + b < 2 ^ bits then pure (a + b) else throw .panic

/-- `(byte as uN) << shift`. -/
def shiftByte (bits : Nat) (byte : UInt8) (shift : Nat) : Nat :=
  (byte.toNat <<< shift) % 2 ^ bits

def readU16 : VmRead Nat := do
  let a ← readU8
  let b ← readU8
  addUnsigned 16 a.toNat (shiftByte 16 b 8)

/-- `read_u16()? as i16`. -/
def readI16 : VmRead Int16 := do
  let value ← readU16
  pure (UInt16.ofNat value).toInt16

def readU32 : VmRead Nat := do
  let a ← readU8
  let b ← readU8
  let c ← readU8
  let d ← readU8
  let value ← addUnsigned 32 a.toNat (shiftByte 32 b 8)
  let value ← addUnsigned 32 value (shiftByte 32 c 16)
  addUnsigned 32 value (shiftByte 32 d 24)

/-- The rounds of `read_u64` from `shift` on. -/
def readU64From : (rounds shift value : Nat) → VmRead Nat
  | 0, _, value => pure value
  | rounds + 1, shift, value => do
      let byte ← readU8
      let value ← addUnsigned 64 value (shiftByte 64 byte shift)
      readU64From rounds (shift + 8) value

def readU64 : VmRead Nat := readU64From 8 0 0

/-- The match of `read_var` on the marker. -/
def readMarked (marker : UInt8) : VmRead Nat :=
  if marker = 0xfd then readU16
  else if marker = 0xfe then readU32
  else if marker = 0xff then readU64
  else pure marker.toNat

def readVar (max : Nat) : VmRead Nat := do
  let marker ← readU8
  let value ← readMarked marker
  if max < value then
    throw (.badRequest "Constraint failed: Input exceed max")
  else pure value

/-- `read_bytes`, whose bound keeps a byte behind what it reads. -/
def readBytes (length : Nat) : VmRead (List UInt8) := fun r =>
  if r.bytes.length ≤ r.position + length then
    .error (.badRequest "Constraint failed: Outside of range")
  else
    let data := (r.bytes.drop r.position).take length
    if data.length = length then
      .ok (data, { r with position := r.position + length })
    else .error .panic

/-! ## Operands -/

inductive VmInstructionArgs where
  | none
  | reg1 (reg : UInt8)
  | regs2 (src dst : UInt8)
  | regs3 (srcA srcB dst : UInt8)
  | regs2Len (src dst : UInt8) (len : UInt16)
  | range (src dst : UInt8) (index len : UInt32)
  | cast (src dst vmType : UInt8)
  | load (dst vmType : UInt8) (data : List UInt8)
  | call (count : UInt8) (offset : UInt16)
  | jump (offset : Int16)
  | jumpIf (src : UInt8) (offset : Int16)
  deriving DecidableEq

/-- The arms of the match over the opcodes. -/
inductive OperandClass where
  | none
  | reg1
  | regs2
  | regs3
  | regs2Len
  | range
  | cast
  | load
  | call
  | jump
  | jumpIf
  deriving DecidableEq

def opcodeNames : List (UInt8 × String) :=
  [(0, "NOP"), (1, "MOVE"), (2, "COPY"), (3, "PUSH"), (4, "POP"),
    (5, "SWAP"), (6, "CALL"), (7, "EXTCALL"), (8, "JMP"), (9, "JMPIF"),
    (10, "JMPNOT"), (11, "RET"), (12, "THROW"), (13, "LOAD"), (14, "CAST"),
    (15, "CAT"), (16, "RANGE"), (17, "LEFT"), (18, "RIGHT"), (19, "SIZE"),
    (20, "COUNT"), (21, "NOT"), (22, "AND"), (23, "OR"), (24, "XOR"),
    (25, "EQUAL"), (26, "LT"), (27, "GT"), (28, "LTE"), (29, "GTE"),
    (30, "INC"), (31, "DEC"), (32, "SIGN"), (33, "NEGATE"), (34, "ABS"),
    (35, "ADD"), (36, "SUB"), (37, "MUL"), (38, "DIV"), (39, "MOD"),
    (40, "SHL"), (41, "SHR"), (42, "MIN"), (43, "MAX"), (44, "POW"),
    (45, "CTX"), (46, "SWITCH"), (47, "PUT"), (48, "GET"), (49, "CLEAR"),
    (50, "UNPACK"), (51, "PACK"), (52, "DEBUG"), (53, "SUBSTR"),
    (54, "REMOVE"), (255, "EVM")]

def opcodeName (opcode : UInt8) : String :=
  (opcodeNames.lookup opcode).getD (toString opcode)

/-- The opcode has one of these names. -/
def named (names : List String) (opcode : UInt8) : Bool :=
  names.contains (opcodeName opcode)

def opcodeRet : UInt8 := 11

def operandClass (opcode : UInt8) : OperandClass :=
  if named ["CTX", "MOVE", "COPY", "SWAP", "SIZE", "COUNT", "SIGN", "NOT",
      "NEGATE", "ABS", "UNPACK"] opcode then .regs2
  else if named ["LOAD"] opcode then .load
  else if named ["CAST"] opcode then .cast
  else if named ["POP", "PUSH", "EXTCALL", "THROW", "CLEAR"] opcode then .reg1
  else if named ["CALL"] opcode then .call
  else if named ["JMP"] opcode then .jump
  else if named ["JMPIF", "JMPNOT"] opcode then .jumpIf
  else if named ["AND", "OR", "XOR", "CAT", "EQUAL", "LT", "GT", "LTE", "GTE",
      "ADD", "SUB", "MUL", "DIV", "MOD", "SHR", "SHL", "MIN", "MAX", "POW",
      "PUT", "GET"] opcode then .regs3
  else if named ["LEFT", "RIGHT"] opcode then .regs2Len
  else if named ["RANGE"] opcode then .range
  else if named ["INC", "DEC", "SWITCH"] opcode then .reg1
  else .none

def readArgs : OperandClass → VmRead VmInstructionArgs
  | .none => pure .none
  | .reg1 => do
      let reg ← readU8
      pure (.reg1 reg)
  | .regs2 => do
      let src ← readU8
      let dst ← readU8
      pure (.regs2 src dst)
  | .regs3 => do
      let srcA ← readU8
      let srcB ← readU8
      let dst ← readU8
      pure (.regs3 srcA srcB dst)
  | .regs2Len => do
      let src ← readU8
      let dst ← readU8
      let len ← readVar 0xffff
      pure (.regs2Len src dst (UInt16.ofNat len))
  | .range => do
      let src ← readU8
      let dst ← readU8
      let index ← readVar 0xffff
      let len ← readVar 0xffff
      pure (.range src dst (UInt32.ofNat index) (UInt32.ofNat len))
  | .cast => do
      let src ← readU8
      let dst ← readU8
      let vmType ← readU8
      pure (.cast src dst vmType)
  | .load => do
      let dst ← readU8
      let vmType ← readU8
      let len ← readVar 0xffff
      let data ← readBytes len
      pure (.load dst vmType data)
  | .call => do
      let count ← readU8
      let offset ← readU16
      pure (.call count (UInt16.ofNat offset))
  | .jump => do
      let offset ← readI16
      pure (.jump offset)
  | .jumpIf => do
      let src ← readU8
      let offset ← readI16
      pure (.jumpIf src offset)

/-! ## Printing -/

/-- `0x80..=0xBF`. -/
def isContinuation (b : UInt8) : Bool := 0x80 ≤ b && b ≤ 0xBF

/-- The second byte may follow the first, which announces three bytes. -/
def startsThree (b c : UInt8) : Bool :=
  (b == 0xE0 && 0xA0 ≤ c && c ≤ 0xBF) ||
    (0xE1 ≤ b && b ≤ 0xEC && isContinuation c) ||
    (b == 0xED && 0x80 ≤ c && c ≤ 0x9F) ||
    (0xEE ≤ b && b ≤ 0xEF && isContinuation c)

/-- The second byte may follow the first, which announces four bytes. -/
def startsFour (b c : UInt8) : Bool :=
  (b == 0xF0 && 0x90 ≤ c && c ≤ 0xBF) ||
    (0xF1 ≤ b && b ≤ 0xF3 && isContinuation c) ||
    (b == 0xF4 && 0x80 ≤ c && c ≤ 0x8F)

/-- The six bits of a byte that goes on. -/
def lowBits (b : UInt8) : Nat := b.toNat % 64

/-- The first character and how many bytes it takes; what is no character is
replaced as far as it could have been one. -/
def lossyChar : List UInt8 → Char × Nat
  | [] => ('\uFFFD', 0)
  | b :: rest =>
      if b < 0x80 then (Char.ofNat b.toNat, 1)
      else if 0xC2 ≤ b && b ≤ 0xDF then
        match rest with
        | c :: _ =>
            if isContinuation c then
              (Char.ofNat (b.toNat % 32 * 64 + lowBits c), 2)
            else ('\uFFFD', 1)
        | [] => ('\uFFFD', 1)
      else
        match rest with
        | c :: rest =>
            if startsThree b c then
              match rest with
              | d :: _ =>
                  if isContinuation d then
                    (Char.ofNat (b.toNat % 16 * 4096 + lowBits c * 64 +
                      lowBits d), 3)
                  else ('\uFFFD', 2)
              | [] => ('\uFFFD', 2)
            else if startsFour b c then
              match rest with
              | d :: rest =>
                  if isContinuation d then
                    match rest with
                    | e :: _ =>
                        if isContinuation e then
                          (Char.ofNat (b.toNat % 8 * 262144 +
                            lowBits c * 4096 + lowBits d * 64 + lowBits e), 4)
                        else ('\uFFFD', 3)
                    | [] => ('\uFFFD', 3)
                  else ('\uFFFD', 2)
              | [] => ('\uFFFD', 2)
            else ('\uFFFD', 1)
        | [] => ('\uFFFD', 1)

/-- `String::from_utf8_lossy`, with as many rounds as there are bytes. -/
def fromUtf8Lossy : (rounds : Nat) → List UInt8 → List Char
  | 0, _ => []
  | _ + 1, [] => []
  | rounds + 1, b :: rest =>
      let (c, width) := lossyChar (b :: rest)
      c :: fromUtf8Lossy rounds ((b :: rest).drop width)

/-- `BigInt::from_signed_bytes_le`. -/
def fromSignedBytesLe (data : List UInt8) : Int :=
  let raw := Nat.ofDigits 256 (data.map UInt8.toNat)
  if data.getLast?.any fun b => 0x80 ≤ b then
    (raw : Int) - 256 ^ data.length
  else raw

/-- `{offset:03}`. -/
def padThree (offset : Nat) : String :=
  let digits := toString offset
  String.ofList (List.replicate (3 - digits.length) '0') ++ digits

def register (reg : UInt8) : String := " r" ++ toString reg

section

variable (encodeHexUpper : List UInt8 → String)

/-- `format_vm_load_data`, for `VM_TYPE_STRING`, `VM_TYPE_NUMBER` and the
rest. -/
def formatVmLoadData (vmType : UInt8) (data : List UInt8) : String :=
  if vmType = 4 then
    "\"" ++ String.ofList (fromUtf8Lossy data.length data) ++ "\""
  else if vmType = 3 then toString (fromSignedBytesLe data)
  else encodeHexUpper data

def formatVmInstruction (offset : Nat) (opcode : UInt8)
    (args : VmInstructionArgs) : String :=
  padThree offset ++ ": " ++ opcodeName opcode ++
    match args with
    | .none => ""
    | .reg1 reg => register reg
    | .regs2 src dst => register src ++ "," ++ register dst
    | .regs3 srcA srcB dst =>
        register srcA ++ "," ++ register srcB ++ "," ++ register dst
    | .regs2Len src dst len =>
        register src ++ "," ++ register dst ++ ", " ++ toString len
    | .range src dst index len =>
        register src ++ "," ++ register dst ++ ", " ++ toString index ++
          ", " ++ toString len
    | .cast src dst vmType =>
        register src ++ "," ++ register dst ++ ", " ++ toString vmType
    | .load dst vmType data =>
        register dst ++ ", " ++ formatVmLoadData encodeHexUpper vmType data
    | .call count offset => register count ++ ", " ++ toString offset
    | .jump offset => " " ++ toString offset
    | .jumpIf src offset => register src ++ ", " ++ toString offset

/-! ## The loop -/

/-- The rounds of `disassemble_script_bytes`, with the lines so far. -/
def disassembleFrom : (rounds : Nat) → List String → VmScriptReader →
    Option (Except ScriptFault (List String))
  | 0, _, _ => none
  | rounds + 1, instructions, r =>
      if hasMore r then
        match readU8 r with
        | .error e => some (.error e)
        | .ok (opcode, r') =>
            if opcode = opcodeRet then
              some (.ok (instructions ++
                [formatVmInstruction encodeHexUpper r.position opcode .none]))
            else
              match readArgs (operandClass opcode) r' with
              | .error e => some (.error e)
              | .ok (args, r'') =>
                  disassembleFrom rounds (instructions ++
                    [formatVmInstruction encodeHexUpper r.position opcode
                      args]) r''
      else some (.ok instructions)

/-- `disassemble_script_bytes`. -/
def disassembleScriptBytes (bytes : List UInt8) :
    Option (Except ScriptFault (List String)) :=
  disassembleFrom encodeHexUpper (bytes.length + 1) [] ⟨bytes, 0⟩

end

end Explorer.Ref
