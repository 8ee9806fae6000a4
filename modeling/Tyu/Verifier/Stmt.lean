import Mathlib.Data.List.Basic

/-! # Obligations and canonical statements -/

namespace Tyu

namespace Obl

inductive Kind where
  | subtypeRange | contractPre | contractPost | stackBudget | mmioBounds
deriving DecidableEq

def Kind.asStr : Kind → String
  | .subtypeRange => "subtype-range"
  | .contractPre => "contract-pre"
  | .contractPost => "contract-post"
  | .stackBudget => "stack-budget"
  | .mmioBounds => "mmio-bounds"

inductive Oel where
  | var (name : String)
  | cast (src tgt : String) (arg : Oel)

structure PredicateRef where
  module : String
  name : String
  ir : List String
  irHash : String

inductive Formula where
  | inRange (value : Oel) (lo hi : Int)
  | offsetLE (off : Option Nat) (width size : Nat)
  | predicateHolds (pred : PredicateRef) (args : List Oel)

structure Site where
  word : String
  occurrence : Nat

structure Obligation where
  id : String
  idHash : String
  kind : Kind
  site : Site
  formula : Formula

/-- The facts of a word that statements use: its name and its canonical op text. -/
structure WordText where
  name : String
  ir : String

structure OblSet where
  module : String
  target : String
  modelSemantics : String
  concurrency : String
  words : List WordText
  obligations : List Obligation

end Obl

open Obl

def hexDigit (n : Nat) : Char := "0123456789abcdef".toList.getD n '0'

def jsonChar (c : Char) : String :=
  if c.toNat = 0x22 then "\\\""
  else if c.toNat = 0x5C then "\\\\"
  else if c.toNat = 0x08 then "\\b"
  else if c.toNat = 0x0C then "\\f"
  else if c.toNat = 0x0A then "\\n"
  else if c.toNat = 0x0D then "\\r"
  else if c.toNat = 0x09 then "\\t"
  else if c.toNat < 0x20 then
    "\\u00" ++ String.ofList [hexDigit (c.toNat / 16), hexDigit (c.toNat % 16)]
  else String.ofList [c]

def vStr (s : String) : String := "\"" ++ String.join (s.toList.map jsonChar) ++ "\""

def vI64 (n : Int) : String := toString n

def vNull : String := "null"

def vArray (items : List String) : String := "[" ++ String.intercalate "," items ++ "]"

def canonObj (members : List (String × String)) : String :=
  let keys := members.mergeSort fun a b => !decide (b.1 < a.1)
  "\x7b" ++ String.intercalate "," (keys.map fun m => vStr m.1 ++ ":" ++ m.2) ++ "\x7d"

def canonOel : Oel → String
  | .var name => canonObj [("name", vStr name), ("op", vStr "Var")]
  | .cast src tgt arg =>
    canonObj [("arg", canonOel arg), ("from", vStr src), ("op", vStr "Cast"), ("to", vStr tgt)]

def canonPredicate (p : PredicateRef) : String :=
  canonObj [("ir", vArray (p.ir.map vStr)), ("ir_hash", vStr p.irHash), ("module", vStr p.module),
    ("name", vStr p.name)]

def canonFormula : Formula → String
  | .inRange value lo hi =>
    canonObj [("hi", vI64 hi), ("lo", vI64 lo), ("op", vStr "InRange"), ("value", canonOel value)]
  | .offsetLE off width size =>
    canonObj [("off", match off with
        | some off => vI64 off
        | none => vNull),
      ("op", vStr "OffsetLE"), ("size", vI64 size), ("width", vI64 width)]
  | .predicateHolds pred args =>
    canonObj [("args", vArray (args.map canonOel)), ("op", vStr "PredicateHolds"),
      ("predicate", canonPredicate pred)]

def SEMANTICS_VERSION : String := "tyu.ir-sem/1.0"
def STMT_SCHEMA : String := "tyu.stmt/1.0"

abbrev Digest := String → String

def sha256Hex16 (sha : Digest) (text : String) : String := String.ofList ((sha text).toList.take 16)

structure StatementContext where
  semantics : String
  stmtVer : String
  target : String
  modelSemantics : String
  module : String
  word : String
  wordIrHash : String
  kind : Kind
  occurrence : Nat
  refinement : Option String

namespace StatementContext

def forObligation (module target modelSemantics wordIrHash : String) (refinement : Option String)
    (o : Obligation) : StatementContext where
  semantics := SEMANTICS_VERSION
  stmtVer := STMT_SCHEMA
  target := target
  modelSemantics := modelSemantics
  module := module
  word := o.site.word
  wordIrHash := wordIrHash
  kind := o.kind
  occurrence := o.site.occurrence
  refinement := refinement

def canonContext (c : StatementContext) : String :=
  canonObj [("kind", vStr c.kind.asStr), ("model_semantics", vStr c.modelSemantics),
    ("module", vStr c.module), ("occurrence", vI64 c.occurrence),
    ("refinement", match c.refinement with
      | some r => vStr r
      | none => vNull),
    ("semantics", vStr c.semantics), ("stmt_ver", vStr c.stmtVer), ("target", vStr c.target),
    ("word", vStr c.word), ("word_ir_hash", vStr c.wordIrHash)]

def canonical (c : StatementContext) (f : Formula) : String :=
  "\x7b\"context\":" ++ c.canonContext ++ ",\"formula\":" ++ canonFormula f ++ "\x7d"

def statementHash (sha : Digest) (c : StatementContext) (f : Formula) : String :=
  sha (c.canonical f)

end StatementContext

structure Refinement where
  register : String
  refinement : String

def tokenMatches (place register : List Char) : Bool :=
  if register.isEmpty then false
  else if register.contains '.' then place == register
  else place == register ||
    (place.contains '.' && (place.reverse.takeWhile (· != '.')).reverse == register)

def placeToken (line : List Char) : Option (List Char) :=
  match (line.splitOnP Char.isWhitespace).filter (!·.isEmpty) with
  | [] => none
  | m :: tokens =>
    if ["vol_load", "vol_store", "vol_load_field", "vol_store_field"].contains (String.ofList m) then
      tokens[1]?
    else if ["addr_of", "addr_of_mut", "mmio_place"].contains (String.ofList m) then tokens[0]?
    else none

def wordRefinement (ir : String) (decls : List Refinement) : Option Refinement :=
  let places := (ir.toList.splitOn '\n').filterMap placeToken
  decls.find? fun d => places.any fun p => tokenMatches p d.register.toList

def fnv1a64 (bytes : List UInt8) : UInt64 :=
  bytes.foldl (fun h b => (h ^^^ b.toUInt64) * 0x100000001b3) 0xcbf29ce484222325

def formatHex (h : UInt64) : String := String.ofList (Nat.toDigits 16 h.toNat)

/-- `<module>::<word>::<kind>::<occurrence>` -/
def canonicalId (module word : String) (kind : Kind) (occurrence : Nat) : String :=
  module ++ "::" ++ word ++ "::" ++ kind.asStr ++ "::" ++ toString occurrence

def idHashOf (id : String) : String := formatHex (fnv1a64 id.toUTF8.toList)

end Tyu
