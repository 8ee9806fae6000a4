import Tyu.Lib.Wire

/-! # The apertures of a platform descriptor -/

namespace Tyu.Platform

open Lib.Wire

inductive ApertureKind where
  | bus | emulated
deriving DecidableEq

inductive RelocIsa where
  | armThumbLdrLiteral | riscVHi20Lo12
deriving DecidableEq

def U64_MAX : Nat := 2 ^ 64 - 1

structure Name where
  bytes : Bytes
  short : bytes.length ≤ 32
deriving DecidableEq

structure MmioApertureSpec where
  id : UInt16
  name : Name
  kind : ApertureKind
  /-- None for a base that is a symbol of the link. -/
  base : Option UInt64
  size : UInt32
  relocIsa : Option RelocIsa
deriving DecidableEq

end Tyu.Platform
