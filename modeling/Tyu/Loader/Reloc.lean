import Tyu.Loader.State

/-! # Import relocations -/

namespace Tyu

open Lib Lib.Wire Container

def R_X86_64_64 : UInt8 := 1
def R_X86_64_PC32 : UInt8 := 2
def R_X86_64_PLT32 : UInt8 := 3
def R_ARM_ABS32 : UInt8 := 4
def R_ARM_THM_CALL : UInt8 := 5
def R_ARM_THM_JUMP24 : UInt8 := 6
def R_ARM_REL32 : UInt8 := 7
def R_RISCV_32 : UInt8 := 8
def R_RISCV_CALL : UInt8 := 9
def MMIO_APERTURE_BASE : UInt8 := 10

/-- A Thumb-2 branch by `offset` bytes.  `link` selects the call or the jump; without it the
bit of the site is kept. -/
def encodeBranch (insn : Bytes) (offset : Int64) (link : Option Bool) : Option Bytes :=
  if insn.length < 4 then none
  else if offset &&& 1 ≠ 0 then none
  else
    let half := offset >>> 1
    if half < -0x800000 ∨ half > 0x7FFFFF then none
    else
      let h := half.toUInt64.toUInt32
      let s := (h >>> 23 &&& 1).toUInt16
      let i1 := (h >>> 22 &&& 1).toUInt16
      let i2 := (h >>> 21 &&& 1).toUInt16
      let j1 := 1 ^^^ i1 ^^^ s
      let j2 := 1 ^^^ i2 ^^^ s
      let imm10 := (h >>> 11 &&& 0x3FF).toUInt16
      let imm11 := (h &&& 0x7FF).toUInt16
      let existing := (u16At insn 2).getD 0
      let l : UInt16 :=
        match link with
        | some true => 0x1000
        | some false => 0
        | none => existing &&& 0x1000
      let hw0 : UInt16 := (0xF000 : UInt16) ||| s <<< 10 ||| imm10
      let hw1 : UInt16 := (0xE000 : UInt16) ||| l ||| j1 <<< 13 ||| j2 <<< 11 ||| imm11
      some (put16 hw0 ++ put16 hw1 ++ insn.drop 4)

def encodeThumbBl (insn : Bytes) (offset : Int64) : Option Bytes :=
  encodeBranch insn offset (some true)

/-- A JAL by `offset` bytes, with the destination and the opcode of the site. -/
def encodeRiscVJal (insn : Bytes) (offset : Int64) : Option Bytes :=
  if offset &&& 1 ≠ 0 then none
  else if offset < -0x100000 ∨ offset > 0xFFFFE then none
  else
    let u := offset.toUInt64.toUInt32
    let rdOpcode := (u32At insn 0).getD 0 &&& 0xFFF
    let imm20 := u >>> 20 &&& 1
    let imm10_1 := u >>> 1 &&& 0x3FF
    let imm11 := u >>> 11 &&& 1
    let imm19_12 := u >>> 12 &&& 0xFF
    some (put32 (imm20 <<< 31 ||| imm10_1 <<< 21 ||| imm11 <<< 20 ||| imm19_12 <<< 12 |||
      rdOpcode))

abbrev Patch := Stoppable Stop Bytes Unit

def refuse : Patch := Stoppable.stop (.error .relocUnsupported)

/-- The `n` bytes at `off`, written over by what `encode` makes of them. -/
def patchSite (w : PtrWidth) (off n : Nat) (encode : Bytes → Option Bytes) : Patch := fun code =>
  if usize w (off + n) > code.length then refuse code
  else
    match slice code off (usize w (off + n)) with
    | none => (.error .panic, code)
    | some site =>
      match encode site with
      | none => refuse code
      | some site' => (.ok (), patch code off site')

def writeSite (w : PtrWidth) (off : Nat) (bytes : Bytes) : Patch :=
  patchSite w off bytes.length fun _ => some bytes

/-- A code section is at `base`, the site at `off` in it. -/
def applyX86 (w : PtrWidth) (base : UInt64) (off : Nat) (kind : UInt8) (symAddr : UInt64)
    (addend : Int64) : Patch :=
  if kind = R_X86_64_64 then writeSite w off (put64 (symAddr + addend.toUInt64))
  else if kind = R_X86_64_PC32 ∨ kind = R_X86_64_PLT32 then
    let place := base + UInt64.ofNat off
    writeSite w off (put32 (symAddr + addend.toUInt64 - place).toUInt32)
  else refuse

def applyArm (w : PtrWidth) (base : UInt64) (off : Nat) (kind : UInt8) (symAddr : UInt64)
    (addend : Int64) : Patch :=
  let siteAddr := base + UInt64.ofNat off
  -- the offset of a branch is from four bytes behind the site
  let branch := fun insn : Bytes =>
    encodeThumbBl insn ((symAddr &&& ~~~1) + addend.toUInt64 - siteAddr - 4).toInt64
  if kind = R_ARM_ABS32 then writeSite w off (put32 (symAddr + addend.toUInt64).toUInt32)
  else if kind = R_ARM_REL32 then
    writeSite w off (put32 (symAddr + addend.toUInt64 - siteAddr).toUInt32)
  else if kind = R_ARM_THM_CALL then patchSite w off 4 branch
  else if kind = R_ARM_THM_JUMP24 then patchSite w off 4 branch
  else refuse

def applyRiscV (w : PtrWidth) (base : UInt64) (off : Nat) (kind : UInt8) (symAddr : UInt64)
    (addend : Int64) : Patch :=
  let siteAddr := base + UInt64.ofNat off
  if kind = R_RISCV_32 then writeSite w off (put32 (symAddr + addend.toUInt64).toUInt32)
  else if kind = R_RISCV_CALL then
    patchSite w off 4 fun insn =>
      encodeRiscVJal insn (symAddr + addend.toUInt64 - siteAddr).toInt64
  else refuse

def importAddend (kind : UInt8) : Int64 :=
  if kind = R_X86_64_PC32 ∨ kind = R_X86_64_PLT32 then -4 else 0

def dispatchImportReloc (w : PtrWidth) (base : UInt64) (off : Nat) (kind : UInt8)
    (symAddr : UInt64) : Patch :=
  let addend := importAddend kind
  if 1 ≤ kind ∧ kind ≤ 3 then applyX86 w base off kind symAddr addend
  else if 4 ≤ kind ∧ kind ≤ 7 then applyArm w base off kind symAddr addend
  else if kind = 8 ∨ kind = 9 then applyRiscV w base off kind symAddr addend
  else refuse

end Tyu
