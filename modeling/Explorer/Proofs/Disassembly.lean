import Explorer.Lib.Formats
import Explorer.Ref.Disassembler

/-!
# The disassembler is exact

An instruction is its opcode and the operands that its opcode takes, and
`EncodesArgs` says which bytes those are. Each read decodes its part of this,
so the loop takes instruction after instruction off the script, and what it
prints is the listing of a program whose bytes are the bytes it went over.

One read is stricter than its format: `read_bytes` wants a byte behind its
data. In a script that ends in `RET` there always is one.
-/

namespace Explorer.Ref

open Explorer.Lib

/-! ## Formats -/

/-- `n` bytes, the low one first. -/
def LittleEndian (n v : Nat) (bytes : List UInt8) : Prop :=
  bytes.length = n ∧ Nat.ofDigits 256 (bytes.map UInt8.toNat) = v

/-- The four forms of a variable-length integer. -/
inductive VarInt : Nat → List UInt8 → Prop where
  | one {b : UInt8} : b < 0xfd → VarInt b.toNat [b]
  | two {v : Nat} {bytes : List UInt8} :
      LittleEndian 2 v bytes → VarInt v (0xfd :: bytes)
  | four {v : Nat} {bytes : List UInt8} :
      LittleEndian 4 v bytes → VarInt v (0xfe :: bytes)
  | eight {v : Nat} {bytes : List UInt8} :
      LittleEndian 8 v bytes → VarInt v (0xff :: bytes)

/-- The length of an operand: a variable-length integer up to `0xffff`. -/
def Length (v : Nat) (bytes : List UInt8) : Prop := VarInt v bytes ∧ v ≤ 0xffff

/-- The operands of an opcode class and their bytes. -/
inductive EncodesArgs :
    OperandClass → VmInstructionArgs → List UInt8 → Prop where
  | none : EncodesArgs .none .none []
  | reg1 (reg : UInt8) : EncodesArgs .reg1 (.reg1 reg) [reg]
  | regs2 (src dst : UInt8) : EncodesArgs .regs2 (.regs2 src dst) [src, dst]
  | regs3 (srcA srcB dst : UInt8) :
      EncodesArgs .regs3 (.regs3 srcA srcB dst) [srcA, srcB, dst]
  | regs2Len (src dst : UInt8) {len : UInt16} {bytes : List UInt8} :
      Length len.toNat bytes →
      EncodesArgs .regs2Len (.regs2Len src dst len) (src :: dst :: bytes)
  | range (src dst : UInt8) {index len : UInt32} {bytes bytes' : List UInt8} :
      Length index.toNat bytes → Length len.toNat bytes' →
      EncodesArgs .range (.range src dst index len)
        (src :: dst :: (bytes ++ bytes'))
  | cast (src dst vmType : UInt8) :
      EncodesArgs .cast (.cast src dst vmType) [src, dst, vmType]
  | load (dst vmType : UInt8) {data bytes : List UInt8} :
      Length data.length bytes →
      EncodesArgs .load (.load dst vmType data)
        (dst :: vmType :: (bytes ++ data))
  | call (count : UInt8) {offset : UInt16} {bytes : List UInt8} :
      LittleEndian 2 offset.toNat bytes →
      EncodesArgs .call (.call count offset) (count :: bytes)
  | jump {offset : Int16} {bytes : List UInt8} :
      LittleEndian 2 offset.toUInt16.toNat bytes →
      EncodesArgs .jump (.jump offset) bytes
  | jumpIf (src : UInt8) {offset : Int16} {bytes : List UInt8} :
      LittleEndian 2 offset.toUInt16.toNat bytes →
      EncodesArgs .jumpIf (.jumpIf src offset) (src :: bytes)

/-- An instruction and the bytes of its operands. -/
structure EncodedInstruction where
  opcode : UInt8
  args : VmInstructionArgs
  operands : List UInt8
  encoded : EncodesArgs (operandClass opcode) args operands

namespace EncodedInstruction

def bytes (i : EncodedInstruction) : List UInt8 := i.opcode :: i.operands

def ret : EncodedInstruction := ⟨opcodeRet, .none, [], .none⟩

end EncodedInstruction

/-- The bytes of a program. -/
def script (program : List EncodedInstruction) : List UInt8 :=
  program.flatMap EncodedInstruction.bytes

/-- Where the instructions of a program start. -/
def offsets : (start : Nat) → List EncodedInstruction → List Nat
  | _, [] => []
  | start, i :: rest => start :: offsets (start + i.bytes.length) rest

/-- The lines of a program, each with the offset of its opcode. -/
def listing (encodeHexUpper : List UInt8 → String) (start : Nat)
    (program : List EncodedInstruction) : List String :=
  List.zipWith
    (fun offset i => formatVmInstruction encodeHexUpper offset i.opcode i.args)
    (offsets start program) program

/-- The program goes up to the first `RET`, or to the end where there is
none. -/
def Stops (program : List EncodedInstruction) (rest : List UInt8) : Prop :=
  ∃ body, (∀ i ∈ body, i.opcode ≠ opcodeRet) ∧
    (program = body ++ [.ret] ∨ (program = body ∧ rest = []))

/-! ## Reads -/

/-- The reader between what it took and what is left. -/
def between (front rest : List UInt8) : VmScriptReader :=
  ⟨front ++ rest, front.length⟩

def Panics (e : ScriptFault) : Prop := e = .panic

/-- The read decodes the format on a script. -/
abbrev DecodesVm {α : Type} (read : VmRead α)
    (format : α → List UInt8 → Prop) : Prop :=
  Decodes between Panics read format

theorem readU8_between_cons (front : List UInt8) (b : UInt8)
    (rest : List UInt8) :
    readU8 (between front (b :: rest)) = .ok (b, between (front ++ [b]) rest) := by
  simp [readU8, between]

theorem readU8_between_nil (front : List UInt8) :
    readU8 (between front []) =
      .error (.badRequest "Constraint failed: Outside of range") := by
  simp [readU8, between]

theorem readU8_decodes : DecodesVm readU8 fun b bytes => bytes = [b] where
  reads := by
    rintro b _ rfl front rest -
    exact readU8_between_cons front b rest
  took := by
    intro front rest b s hread
    cases rest with
    | nil =>
        rw [readU8_between_nil] at hread
        cases hread
    | cons b' rest' =>
        rw [readU8_between_cons] at hread
        obtain ⟨rfl, rfl⟩ := Prod.mk.inj (Except.ok.inj hread)
        exact ⟨[b'], rest', rfl, rfl, rfl⟩
  safe := by
    intro front rest e hread
    cases rest with
    | nil =>
        rw [readU8_between_nil] at hread
        cases hread
        exact ScriptFault.noConfusion
    | cons b' rest' =>
        rw [readU8_between_cons] at hread
        cases hread

/-- A byte, and the rest. -/
theorem decodes_byte {γ : Type} {next : UInt8 → VmRead γ}
    {format : UInt8 → γ → List UInt8 → Prop}
    (h : ∀ b, DecodesVm (next b) (format b)) :
    DecodesVm (readU8 >>= next) fun c bytes =>
      ∃ b rest, bytes = b :: rest ∧ format b c rest := by
  refine (readU8_decodes.bind h).congr fun c bytes => ?_
  constructor
  · rintro ⟨b, _, rest, rfl, rfl, hc⟩
    exact ⟨b, rest, rfl, hc⟩
  · rintro ⟨b, rest, rfl, hc⟩
    exact ⟨b, [b], rest, rfl, rfl, hc⟩

theorem addUnsigned_eq {bits a b : Nat} (h : a + b < 2 ^ bits) :
    addUnsigned bits a b = pure (a + b) := if_pos h

theorem shiftByte_eq {bits : Nat} (b : UInt8) {shift : Nat}
    (h : shift + 8 ≤ bits) : shiftByte bits b shift = b.toNat * 2 ^ shift := by
  rw [shiftByte, Nat.shiftLeft_eq, Nat.mod_eq_of_lt]
  calc b.toNat * 2 ^ shift
      < 2 ^ 8 * 2 ^ shift :=
        Nat.mul_lt_mul_of_pos_right b.toNat_lt (Nat.two_pow_pos shift)
    _ = 2 ^ (shift + 8) := by rw [Nat.mul_comm, ← Nat.pow_add]
    _ ≤ 2 ^ bits := Nat.pow_le_pow_right (by decide) h

/-- The bytes that are left of an integer: with `value` read up to `shift`,
they add up to the whole. -/
theorem readU64From_decodes (rounds : Nat) {shift value : Nat}
    (hshift : shift + 8 * rounds = 64) (hvalue : value < 2 ^ shift) :
    DecodesVm (readU64From rounds shift value) fun v bytes =>
      bytes.length = rounds ∧
        v = value + 2 ^ shift * Nat.ofDigits 256 (bytes.map UInt8.toNat) := by
  induction rounds generalizing shift value with
  | zero =>
      refine (decodes_pure value).congr fun v bytes => ?_
      rw [List.length_eq_zero_iff, and_comm]
      refine and_congr_right fun hbytes => ?_
      rw [hbytes]
      simp
  | succ rounds ih =>
      have hsum : ∀ b : UInt8,
          value + b.toNat * 2 ^ shift < 2 ^ (shift + 8) := by
        intro b
        have hb : b.toNat + 1 ≤ 2 ^ 8 := b.toNat_lt
        calc value + b.toNat * 2 ^ shift
            < 2 ^ shift + b.toNat * 2 ^ shift := by omega
          _ = (b.toNat + 1) * 2 ^ shift := by ring
          _ ≤ 2 ^ 8 * 2 ^ shift := Nat.mul_le_mul_right _ hb
          _ = 2 ^ (shift + 8) := by rw [Nat.mul_comm, ← Nat.pow_add]
      have hfit : ∀ b : UInt8,
          value + shiftByte 64 b shift < 2 ^ 64 := by
        intro b
        rw [shiftByte_eq b (by omega)]
        exact Nat.lt_of_lt_of_le (hsum b)
          (Nat.pow_le_pow_right (by decide) (by omega))
      have hnext : ∀ b : UInt8, DecodesVm
          (addUnsigned 64 value (shiftByte 64 b shift) >>= fun value =>
            readU64From rounds (shift + 8) value)
          fun v bytes => bytes.length = rounds ∧
            v = value + b.toNat * 2 ^ shift +
              2 ^ (shift + 8) * Nat.ofDigits 256 (bytes.map UInt8.toNat) := by
        intro b
        rw [addUnsigned_eq (hfit b), pure_bind, shiftByte_eq b (by omega)]
        exact ih (by omega) (hsum b)
      refine (decodes_byte hnext).congr fun v bytes => ?_
      constructor
      · rintro ⟨b, rest, rfl, hlength, rfl⟩
        refine ⟨by rw [List.length_cons, hlength], ?_⟩
        rw [List.map_cons, Nat.ofDigits_cons]
        ring
      · rintro ⟨hlength, rfl⟩
        cases bytes with
        | nil => cases hlength
        | cons b rest =>
            refine ⟨b, rest, rfl, Nat.succ.inj hlength, ?_⟩
            rw [List.map_cons, Nat.ofDigits_cons]
            ring

theorem readU64_decodes : DecodesVm readU64 (LittleEndian 8) := by
  refine (readU64From_decodes 8 (by decide) (by decide)).congr ?_
  intro v bytes
  rw [LittleEndian]
  simp [eq_comm]

theorem readU16_decodes : DecodesVm readU16 (LittleEndian 2) := by
  have hnext : ∀ a b : UInt8, DecodesVm
      (addUnsigned 16 a.toNat (shiftByte 16 b 8))
      fun v bytes => v = a.toNat + b.toNat * 2 ^ 8 ∧ bytes = [] := by
    intro a b
    have ha := a.toNat_lt
    have hb := b.toNat_lt
    rw [shiftByte_eq b (by decide), addUnsigned_eq (by omega)]
    exact decodes_pure _
  refine (decodes_byte fun a => decodes_byte (hnext a)).congr fun v bytes => ?_
  constructor
  · rintro ⟨a, _, rfl, b, _, rfl, rfl, rfl⟩
    refine ⟨rfl, ?_⟩
    simp [Nat.ofDigits_cons]
    ring
  · rintro ⟨hlength, rfl⟩
    obtain ⟨a, b, rfl⟩ := List.length_eq_two.1 hlength
    refine ⟨a, [b], rfl, b, [], rfl, ?_, rfl⟩
    simp [Nat.ofDigits_cons]
    ring

theorem readU32_decodes : DecodesVm readU32 (LittleEndian 4) := by
  have hnext : ∀ a b c d : UInt8, DecodesVm
      (do
        let value ← addUnsigned 32 a.toNat (shiftByte 32 b 8)
        let value ← addUnsigned 32 value (shiftByte 32 c 16)
        addUnsigned 32 value (shiftByte 32 d 24))
      fun v bytes => v = a.toNat + b.toNat * 2 ^ 8 + c.toNat * 2 ^ 16 +
        d.toNat * 2 ^ 24 ∧ bytes = [] := by
    intro a b c d
    have ha := a.toNat_lt
    have hb := b.toNat_lt
    have hc := c.toNat_lt
    have hd := d.toNat_lt
    rw [shiftByte_eq b (by decide), shiftByte_eq c (by decide),
      shiftByte_eq d (by decide), addUnsigned_eq (by omega), pure_bind,
      addUnsigned_eq (by omega), pure_bind, addUnsigned_eq (by omega)]
    exact decodes_pure _
  refine (decodes_byte fun a => decodes_byte fun b => decodes_byte fun c =>
    decodes_byte (hnext a b c)).congr fun v bytes => ?_
  constructor
  · rintro ⟨a, _, rfl, b, _, rfl, c, _, rfl, d, _, rfl, rfl, rfl⟩
    refine ⟨rfl, ?_⟩
    simp [Nat.ofDigits_cons]
    ring
  · rintro ⟨hlength, rfl⟩
    match bytes, hlength with
    | [a, b, c, d], _ =>
        refine ⟨a, _, rfl, b, _, rfl, c, _, rfl, d, [], rfl, ?_, rfl⟩
        simp [Nat.ofDigits_cons]
        ring

theorem LittleEndian.lt {n v : Nat} {bytes : List UInt8}
    (h : LittleEndian n v bytes) : v < 256 ^ n := by
  obtain ⟨hlength, rfl⟩ := h
  have hlt := Nat.ofDigits_lt_base_pow_length' (b := 254)
    (l := bytes.map UInt8.toNat) fun d hd => by
      obtain ⟨b, -, rfl⟩ := List.mem_map.1 hd
      exact b.toNat_lt
  rwa [List.length_map, hlength] at hlt

theorem readI16_decodes : DecodesVm readI16 fun v bytes =>
    LittleEndian 2 v.toUInt16.toNat bytes := by
  refine readU16_decodes.map.congr fun v bytes => ?_
  constructor
  · rintro ⟨n, rfl, hn⟩
    have hlt := hn.lt
    rwa [UInt16.toUInt16_toInt16, UInt16.toNat_ofNat',
      Nat.mod_eq_of_lt (by omega)]
  · intro hv
    refine ⟨v.toUInt16.toNat, ?_, hv⟩
    rw [UInt16.ofNat_toNat, Int16.toInt16_toUInt16]

theorem VarInt.exists_cons {v : Nat} {bytes : List UInt8}
    (h : VarInt v bytes) : ∃ marker rest, bytes = marker :: rest := by
  cases h with
  | one _ => exact ⟨_, _, rfl⟩
  | two _ => exact ⟨_, _, rfl⟩
  | four _ => exact ⟨_, _, rfl⟩
  | eight _ => exact ⟨_, _, rfl⟩

theorem readVar_decodes : DecodesVm (readVar 0xffff) Length := by
  have hmarked : ∀ marker : UInt8, DecodesVm (readMarked marker)
      fun v bytes => VarInt v (marker :: bytes) := by
    intro marker
    unfold readMarked
    split
    · next h =>
        subst h
        refine readU16_decodes.congr fun v bytes => ⟨.two, fun h => ?_⟩
        cases h with
        | one h => exact absurd h (by decide)
        | two h => exact h
    · next h2 =>
        split
        · next h =>
            subst h
            refine readU32_decodes.congr fun v bytes => ⟨.four, fun h => ?_⟩
            cases h with
            | one h => exact absurd h (by decide)
            | four h => exact h
        · next h4 =>
            split
            · next h =>
                subst h
                refine readU64_decodes.congr fun v bytes =>
                  ⟨.eight, fun h => ?_⟩
                cases h with
                | one h => exact absurd h (by decide)
                | eight h => exact h
            · next h8 =>
                refine (decodes_pure _).congr fun v bytes => ?_
                constructor
                · rintro ⟨rfl, rfl⟩
                  refine .one ?_
                  have hlt := marker.toNat_lt
                  rw [UInt8.lt_iff_toNat_lt]
                  have h2 := mt UInt8.toNat_inj.1 h2
                  have h4 := mt UInt8.toNat_inj.1 h4
                  have h8 := mt UInt8.toNat_inj.1 h8
                  simp at h2 h4 h8 ⊢
                  omega
                · intro h
                  cases h with
                  | one _ => exact ⟨rfl, rfl⟩
                  | two _ => exact absurd rfl h2
                  | four _ => exact absurd rfl h4
                  | eight _ => exact absurd rfl h8
  have hbound : ∀ value : Nat, DecodesVm
      (if 0xffff < value then
        throw (.badRequest "Constraint failed: Input exceed max")
      else pure value)
      fun v bytes => (v = value ∧ bytes = []) ∧ value ≤ 0xffff := by
    intro value
    split
    · next h =>
        refine (decodes_throw ScriptFault.noConfusion).congr fun v bytes => ?_
        exact ⟨False.elim, fun hv => absurd hv.2 (by omega)⟩
    · next h =>
        refine (decodes_pure value).congr fun v bytes => ?_
        exact (and_iff_left (by omega)).symm
  refine (decodes_byte fun marker => (hmarked marker).bind hbound).congr
    fun v bytes => ?_
  constructor
  · rintro ⟨marker, _, rfl, value, bytes, _, rfl, hvalue, ⟨rfl, rfl⟩, hle⟩
    rw [List.append_nil]
    exact ⟨hvalue, hle⟩
  · rintro ⟨hvar, hle⟩
    obtain ⟨marker, rest, rfl⟩ := hvar.exists_cons
    exact ⟨marker, rest, rfl, v, rest, [], (List.append_nil rest).symm, hvar,
      ⟨rfl, rfl⟩, hle⟩

theorem readBytes_decodes (length : Nat) :
    DecodesVm (readBytes length) fun data bytes =>
      data = bytes ∧ bytes.length = length where
  reads := by
    rintro data bytes ⟨rfl, rfl⟩ front rest hrest
    have hpos := List.length_pos_iff.2 hrest
    simp [readBytes, between, hrest]
  took := by
    intro front rest data s hread
    simp only [readBytes, between, List.length_append, List.drop_left,
      List.length_take] at hread
    split at hread
    · cases hread
    · next hlong =>
        rw [if_pos (by omega)] at hread
        obtain ⟨rfl, rfl⟩ := Prod.mk.inj (Except.ok.inj hread)
        refine ⟨rest.take length, rest.drop length,
          (List.take_append_drop ..).symm, ⟨rfl, ?_⟩, ?_⟩
        · rw [List.length_take]
          omega
        · rw [between, List.append_assoc, List.take_append_drop,
            List.length_append, List.length_take, Nat.min_eq_left (by omega)]
  safe := by
    intro front rest e hread
    simp only [readBytes, between, List.length_append, List.drop_left,
      List.length_take] at hread
    split at hread
    · cases hread
      exact ScriptFault.noConfusion
    · rw [if_pos (by omega)] at hread
      cases hread

theorem readArgs_decodes (c : OperandClass) :
    DecodesVm (readArgs c) (EncodesArgs c) := by
  cases c with
  | none =>
      refine (decodes_pure _).congr fun args bytes => ⟨?_, fun h => ?_⟩
      · rintro ⟨rfl, rfl⟩
        exact .none
      · cases h with
        | none => exact ⟨rfl, rfl⟩
  | reg1 =>
      refine (decodes_byte fun _ => decodes_pure _).congr
        fun args bytes => ⟨?_, fun h => ?_⟩
      · rintro ⟨reg, _, rfl, rfl, rfl⟩
        exact .reg1 reg
      · cases h with
        | reg1 reg => exact ⟨reg, _, rfl, rfl, rfl⟩
  | regs2 =>
      refine (decodes_byte fun _ => decodes_byte fun _ => decodes_pure _).congr
        fun args bytes => ⟨?_, fun h => ?_⟩
      · rintro ⟨src, _, rfl, dst, _, rfl, rfl, rfl⟩
        exact .regs2 src dst
      · cases h with
        | regs2 src dst => exact ⟨src, _, rfl, dst, _, rfl, rfl, rfl⟩
  | regs3 =>
      refine (decodes_byte fun _ => decodes_byte fun _ => decodes_byte fun _ =>
        decodes_pure _).congr fun args bytes => ⟨?_, fun h => ?_⟩
      · rintro ⟨srcA, _, rfl, srcB, _, rfl, dst, _, rfl, rfl, rfl⟩
        exact .regs3 srcA srcB dst
      · cases h with
        | regs3 srcA srcB dst =>
            exact ⟨srcA, _, rfl, srcB, _, rfl, dst, _, rfl, rfl, rfl⟩
  | regs2Len =>
      refine (decodes_byte fun _ => decodes_byte fun _ =>
        readVar_decodes.map).congr fun args bytes => ⟨?_, fun h => ?_⟩
      · rintro ⟨src, _, rfl, dst, _, rfl, len, rfl, hlen⟩
        refine .regs2Len src dst ?_
        rwa [UInt16.toNat_ofNat', Nat.mod_eq_of_lt (by have := hlen.2; omega)]
      · cases h with
        | regs2Len src dst hlen =>
            exact ⟨src, _, rfl, dst, _, rfl, _, by rw [UInt16.ofNat_toNat],
              hlen⟩
  | range =>
      refine (decodes_byte fun _ => decodes_byte fun _ =>
        readVar_decodes.bind fun _ => readVar_decodes.map).congr
        fun args bytes => ⟨?_, fun h => ?_⟩
      · rintro ⟨src, _, rfl, dst, _, rfl, index, _, _, rfl, hindex, len, rfl,
          hlen⟩
        refine .range src dst ?_ ?_
        · rwa [UInt32.toNat_ofNat',
            Nat.mod_eq_of_lt (by have := hindex.2; omega)]
        · rwa [UInt32.toNat_ofNat',
            Nat.mod_eq_of_lt (by have := hlen.2; omega)]
      · cases h with
        | range src dst hindex hlen =>
            exact ⟨src, _, rfl, dst, _, rfl, _, _, _, rfl, hindex, _,
              by rw [UInt32.ofNat_toNat, UInt32.ofNat_toNat], hlen⟩
  | cast =>
      refine (decodes_byte fun _ => decodes_byte fun _ => decodes_byte fun _ =>
        decodes_pure _).congr fun args bytes => ⟨?_, fun h => ?_⟩
      · rintro ⟨src, _, rfl, dst, _, rfl, vmType, _, rfl, rfl, rfl⟩
        exact .cast src dst vmType
      · cases h with
        | cast src dst vmType =>
            exact ⟨src, _, rfl, dst, _, rfl, vmType, _, rfl, rfl, rfl⟩
  | load =>
      refine (decodes_byte fun _ => decodes_byte fun _ =>
        readVar_decodes.bind fun len => (readBytes_decodes len).map).congr
        fun args bytes => ⟨?_, fun h => ?_⟩
      · rintro ⟨dst, _, rfl, vmType, _, rfl, len, _, _, rfl, hlen, data, rfl,
          rfl, rfl⟩
        exact .load dst vmType hlen
      · cases h with
        | load dst vmType hlen =>
            exact ⟨dst, _, rfl, vmType, _, rfl, _, _, _, rfl, hlen, _, rfl,
              rfl, rfl⟩
  | call =>
      refine (decodes_byte fun _ => readU16_decodes.map).congr
        fun args bytes => ⟨?_, fun h => ?_⟩
      · rintro ⟨count, _, rfl, offset, rfl, hoffset⟩
        have hlt := hoffset.lt
        refine .call count ?_
        rwa [UInt16.toNat_ofNat', Nat.mod_eq_of_lt (by omega)]
      · cases h with
        | call count hoffset =>
            exact ⟨count, _, rfl, _, by rw [UInt16.ofNat_toNat], hoffset⟩
  | jump =>
      refine readI16_decodes.map.congr fun args bytes => ⟨?_, fun h => ?_⟩
      · rintro ⟨offset, rfl, hoffset⟩
        exact .jump hoffset
      · cases h with
        | jump hoffset => exact ⟨_, rfl, hoffset⟩
  | jumpIf =>
      refine (decodes_byte fun _ => readI16_decodes.map).congr
        fun args bytes => ⟨?_, fun h => ?_⟩
      · rintro ⟨src, _, rfl, offset, rfl, hoffset⟩
        exact .jumpIf src hoffset
      · cases h with
        | jumpIf src hoffset => exact ⟨src, _, rfl, _, rfl, hoffset⟩

/-! ## The loop -/

theorem EncodedInstruction.length_pos (i : EncodedInstruction) :
    0 < i.bytes.length := Nat.succ_pos _

@[simp] theorem script_cons (i : EncodedInstruction)
    (rest : List EncodedInstruction) :
    script (i :: rest) = i.opcode :: (i.operands ++ script rest) := rfl

theorem length_le_script (program : List EncodedInstruction) :
    program.length ≤ (script program).length := by
  induction program with
  | nil => exact Nat.le_refl 0
  | cons i rest ih =>
      rw [script_cons, List.length_cons, List.length_cons, List.length_append]
      omega

theorem le_of_mem_offsets {start o : Nat} {program : List EncodedInstruction}
    (h : o ∈ offsets start program) : start ≤ o := by
  induction program generalizing start with
  | nil => cases h
  | cons i rest ih =>
      obtain rfl | h := List.mem_cons.1 h
      · exact Nat.le_refl _
      · exact Nat.le_trans (Nat.le_add_right ..) (ih h)

theorem offsets_pairwise (start : Nat) (program : List EncodedInstruction) :
    (offsets start program).Pairwise (· < ·) := by
  induction program generalizing start with
  | nil => exact .nil
  | cons i rest ih =>
      refine .cons (fun o ho => ?_) (ih _)
      have hpos := i.length_pos
      have hle := le_of_mem_offsets ho
      omega

section

variable (encodeHexUpper : List UInt8 → String)

theorem listing_cons (start : Nat) (i : EncodedInstruction)
    (rest : List EncodedInstruction) :
    listing encodeHexUpper start (i :: rest) =
      formatVmInstruction encodeHexUpper start i.opcode i.args ::
        listing encodeHexUpper (start + i.bytes.length) rest := rfl

theorem hasMore_between_cons (front : List UInt8) (b : UInt8)
    (rest : List UInt8) : hasMore (between front (b :: rest)) = true := by
  simp [hasMore, between]

/-- A round that comes to a `RET`. -/
theorem disassembleFrom_ret (rounds : Nat) (lines : List String)
    (front rest : List UInt8) :
    disassembleFrom encodeHexUpper (rounds + 1) lines
        (between front (opcodeRet :: rest)) =
      some (.ok (lines ++ listing encodeHexUpper front.length [.ret])) := by
  rw [disassembleFrom, if_pos (hasMore_between_cons ..), readU8_between_cons]
  rfl

/-- A round that comes to another opcode. -/
theorem disassembleFrom_cons (rounds : Nat) (lines : List String)
    (front : List UInt8) {opcode : UInt8} (rest : List UInt8)
    (h : opcode ≠ opcodeRet) :
    disassembleFrom encodeHexUpper (rounds + 1) lines
        (between front (opcode :: rest)) =
      match readArgs (operandClass opcode) (between (front ++ [opcode]) rest)
      with
      | .error e => some (.error e)
      | .ok (args, r) =>
          disassembleFrom encodeHexUpper rounds
            (lines ++ [formatVmInstruction encodeHexUpper front.length opcode
              args]) r := by
  rw [disassembleFrom, if_pos (hasMore_between_cons ..), readU8_between_cons]
  exact if_neg h

/-- The rounds over a program that ends in `RET`. -/
theorem disassembleFrom_script {program : List EncodedInstruction}
    (hret : ∀ i ∈ program, i.opcode ≠ opcodeRet) (trailing : List UInt8)
    {rounds : Nat} (hrounds : program.length < rounds) (lines : List String)
    (front : List UInt8) :
    disassembleFrom encodeHexUpper rounds lines
        (between front (script (program ++ [.ret]) ++ trailing)) =
      some (.ok (lines ++
        listing encodeHexUpper front.length (program ++ [.ret]))) := by
  induction program generalizing rounds lines front with
  | nil =>
      obtain ⟨rounds, rfl⟩ := Nat.exists_eq_add_one.2 hrounds
      exact disassembleFrom_ret encodeHexUpper rounds lines front trailing
  | cons i rest ih =>
      obtain ⟨rounds, rfl⟩ := Nat.exists_eq_add_one.2 (Nat.zero_lt_of_lt hrounds)
      rw [List.length_cons] at hrounds
      have hread := (readArgs_decodes (operandClass i.opcode)).reads i.encoded
        (front ++ [i.opcode]) (script (rest ++ [.ret]) ++ trailing) (by
          cases rest <;> simp)
      rw [List.cons_append, script_cons, List.cons_append, List.append_assoc,
        disassembleFrom_cons encodeHexUpper rounds lines front _
          (hret i List.mem_cons_self), hread]
      have hlength : (front ++ [i.opcode] ++ i.operands).length =
          front.length + i.bytes.length := by
        simp [EncodedInstruction.bytes]
      refine (ih (fun j hj => hret j (List.mem_cons_of_mem i hj)) (by omega)
        _ _).trans ?_
      rw [hlength, listing_cons, List.append_assoc]
      rfl

/-- The rounds over any script end, not in a panic, and what they print is the
listing of what they went over. -/
theorem disassembleFrom_total {rounds : Nat} {rest : List UInt8}
    (hrounds : rest.length < rounds) (lines : List String)
    (front : List UInt8) :
    ∃ result, disassembleFrom encodeHexUpper rounds lines
        (between front rest) = some result ∧ result ≠ .error .panic ∧
      ∀ out, result = .ok out → ∃ program rest', rest = script program ++ rest' ∧
        out = lines ++ listing encodeHexUpper front.length program ∧
        Stops program rest' := by
  induction rounds generalizing rest lines front with
  | zero => exact absurd hrounds (Nat.not_lt_zero _)
  | succ rounds ih =>
      cases rest with
      | nil =>
          refine ⟨.ok lines, ?_, by simp, fun out hout => ?_⟩
          · simp [disassembleFrom, hasMore, between]
          · rw [← Except.ok.inj hout]
            exact ⟨[], [], rfl, (List.append_nil lines).symm, [], by simp,
              .inr ⟨rfl, rfl⟩⟩
      | cons opcode rest =>
          rw [List.length_cons] at hrounds
          by_cases hret : opcode = opcodeRet
          · subst hret
            refine ⟨_, disassembleFrom_ret encodeHexUpper rounds lines front
              rest, by simp, fun out hout => ?_⟩
            rw [← Except.ok.inj hout]
            exact ⟨[.ret], rest, rfl, rfl, [], by simp, .inl rfl⟩
          · rw [disassembleFrom_cons encodeHexUpper rounds lines front rest hret]
            cases hread : readArgs (operandClass opcode)
                (between (front ++ [opcode]) rest) with
            | error e =>
                refine ⟨.error e, rfl, fun h => ?_, fun out hout => by
                  cases hout⟩
                exact (readArgs_decodes _).safe hread (Except.error.inj h)
            | ok p =>
                obtain ⟨args, r⟩ := p
                obtain ⟨operands, rest', rfl, hargs, rfl⟩ :=
                  (readArgs_decodes _).took hread
                rw [List.length_append] at hrounds
                have hlt : rest'.length < rounds := by omega
                obtain ⟨result, hresult, hpanic, hout⟩ := ih hlt
                  (lines ++ [formatVmInstruction encodeHexUpper front.length
                    opcode args]) (front ++ [opcode] ++ operands)
                refine ⟨result, hresult, hpanic, fun out h => ?_⟩
                obtain ⟨program, rest'', rfl, rfl, body, hbody, hstop⟩ :=
                  hout out h
                let i : EncodedInstruction := ⟨opcode, args, operands, hargs⟩
                refine ⟨i :: program, rest'', ?_, ?_, i :: body, ?_, ?_⟩
                · rw [script_cons, List.cons_append, List.append_assoc]
                · have hlength : (front ++ [opcode] ++ operands).length =
                      front.length + i.bytes.length := by
                    simp [i, EncodedInstruction.bytes]
                  rw [hlength, listing_cons, List.append_assoc]
                  rfl
                · intro j hj
                  obtain rfl | hj := List.mem_cons.1 hj
                  · exact hret
                  · exact hbody j hj
                · obtain rfl | ⟨rfl, hrest⟩ := hstop
                  · exact .inl rfl
                  · exact .inr ⟨rfl, hrest⟩

/-- Of a program that ends in `RET` the disassembler prints the listing, and
nothing of what is behind it. On any bytes it ends without a panic, and what
it prints is the listing of a program that lies at the front of the bytes,
instruction behind instruction. -/
theorem disassembly_exact :
    (∀ program trailing, (∀ i ∈ program, i.opcode ≠ opcodeRet) →
      disassembleScriptBytes encodeHexUpper
          (script (program ++ [.ret]) ++ trailing) =
        some (.ok (listing encodeHexUpper 0 (program ++ [.ret])))) ∧
    ∀ bytes, ∃ result,
      disassembleScriptBytes encodeHexUpper bytes = some result ∧
      result ≠ .error .panic ∧
      ∀ lines, result = .ok lines → ∃ program rest,
        bytes = script program ++ rest ∧ Stops program rest ∧
        lines = listing encodeHexUpper 0 program ∧
        (∀ o ∈ (offsets 0 program).head?, o = 0) ∧
        (offsets 0 program).Pairwise (· < ·) := by
  constructor
  · intro program trailing hret
    refine disassembleFrom_script encodeHexUpper hret trailing ?_ [] []
    have hle := length_le_script (program ++ [.ret])
    rw [List.length_append] at hle ⊢
    rw [List.length_singleton] at hle
    omega
  · intro bytes
    obtain ⟨result, hresult, hpanic, hout⟩ :=
      disassembleFrom_total encodeHexUpper (Nat.lt_succ_self bytes.length) [] []
    refine ⟨result, hresult, hpanic, fun lines hlines => ?_⟩
    obtain ⟨program, rest, hbytes, hlisting, hstops⟩ := hout lines hlines
    refine ⟨program, rest, hbytes, hstops, hlisting, ?_,
      offsets_pairwise 0 program⟩
    cases program with
    | nil => simp [offsets]
    | cons i program => simp [offsets]

end

/-- A load and a jump back, and a byte behind the `RET`. The length of the
load is in the longest of the four forms. -/
theorem disassembly_exact_load_jump :
    disassembleScriptBytes (fun _ => "")
        ([13, 1, 4, 0xff, 2, 0, 0, 0, 0, 0, 0, 0, 104, 105, 8, 0xfd, 0xff, 11]
          ++ [200]) =
      some (.ok ["000: LOAD r1, \"hi\"", "014: JMP -3", "017: RET"]) := by
  have hlength : Length [104, 105].length [0xff, 2, 0, 0, 0, 0, 0, 0, 0] :=
    ⟨.eight ⟨rfl, rfl⟩, by decide⟩
  have hback : LittleEndian 2 (-3 : Int16).toUInt16.toNat [0xfd, 0xff] :=
    ⟨rfl, by decide⟩
  let load : EncodedInstruction := ⟨13, .load 1 4 [104, 105], _, by
    rw [show operandClass 13 = .load by decide +kernel]
    exact .load 1 4 hlength⟩
  let jump : EncodedInstruction := ⟨8, .jump (-3), _, by
    rw [show operandClass 8 = .jump by decide +kernel]
    exact .jump hback⟩
  have hret : ∀ i ∈ [load, jump], i.opcode ≠ opcodeRet := by
    simp only [List.forall_mem_cons, List.not_mem_nil, false_imp_iff,
      implies_true, and_true]
    exact ⟨(by decide : (13 : UInt8) ≠ 11), (by decide : (8 : UInt8) ≠ 11)⟩
  refine ((disassembly_exact fun _ => "").1 [load, jump] [200] hret).trans ?_
  show some (Except.ok
    [formatVmInstruction (fun _ => "") 0 13 (.load 1 4 [104, 105]),
      formatVmInstruction (fun _ => "") 14 8 (.jump (-3)),
      formatVmInstruction (fun _ => "") 17 11 .none]) = _
  decide +kernel

end Explorer.Ref
