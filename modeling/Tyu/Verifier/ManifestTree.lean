import Tyu.Verifier.ManifestReader

/-! # A manifest as a JSON tree -/

namespace Tyu

open Lib Lib.Json Obl

namespace Manifest

theorem pushByteJson_eq (b : UInt8) : pushByteJson b = escape b := by
  unfold pushByteJson escape
  repeat' (split; next => rfl)
  all_goals rfl

theorem pushStrJson_eq : pushStrJson = quote := by
  have hescape : pushByteJson = escape := funext pushByteJson_eq
  funext s
  unfold pushStrJson quote
  rw [hescape]

theorem digitLoop_eq (room v : Nat) (hv : v ≠ 0) (hroom : v < 10 ^ room) :
    (digitLoop room v).reverse = decimal v := by
  induction room generalizing v with
  | zero => omega
  | succ room ih =>
    have hdigit : (Nat.digitChar (v % 10)).toNat.toUInt8 = 0x30 + (v % 10).toUInt8 := by
      have hall : ∀ d : Fin 10, (Nat.digitChar d).toNat.toUInt8 = 0x30 + d.val.toUInt8 := by decide
      exact hall ⟨v % 10, by omega⟩
    rw [digitLoop, if_neg hv, List.reverse_cons, decimal]
    by_cases hsmall : v < 10
    · have hzero : v / 10 = 0 := by omega
      have hloop : digitLoop room 0 = [] := by cases room <;> rfl
      rw [hzero, hloop, Nat.toDigits_of_lt_base hsmall, List.map_singleton, ← Nat.mod_eq_of_lt hsmall,
        Nat.mod_mod, hdigit]
      rfl
    · rw [ih (v / 10) (by omega) (by rw [Nat.pow_succ] at hroom; omega),
        Nat.toDigits_of_base_le (by decide) (by omega), List.map_append, ← hdigit]
      rfl

theorem pushI64Json_eq {v : Int} (hlow : -2 ^ 63 ≤ v) (hhigh : v < 2 ^ 63) :
    pushI64Json v = number v := by
  unfold pushI64Json number
  by_cases hmin : v = -2 ^ 63
  · subst hmin
    decide
  rw [if_neg hmin]
  by_cases hzero : v = 0
  · subst hzero
    decide
  have hdigits := digitLoop_eq 20 v.natAbs (by omega) (by omega)
  simp only [if_neg hzero, hdigits]

theorem pushI64Json_int64 (v : Int64) : pushI64Json v.toInt = number v.toInt :=
  pushI64Json_eq v.le_toInt v.toInt_lt

theorem pushI64Json_int16 (v : Int16) : pushI64Json v.toInt = number v.toInt :=
  pushI64Json_eq (by have := v.le_toInt; omega) (by have := v.toInt_lt; omega)

theorem pushI64Json_uint32 (v : UInt32) : pushI64Json v.toNat = number v.toNat :=
  pushI64Json_eq (by omega) (by have := v.toNat_lt; omega)

theorem write_arr {α : Type} {item : α → Bytes} {tree : α → Json}
    (h : ∀ x, item x = write (tree x)) (xs : List α) :
    write (.arr (xs.map tree)) = 0x5B :: (commaSep item xs ++ [0x5D]) := by
  cases xs with
  | nil => rfl
  | cons x xs =>
    have hitems : writeItems (xs.map tree) = xs.flatMap fun y => 0x2C :: item y := by
      rw [writeItems_eq, List.flatMap_map]
      exact List.flatMap_congr fun y _ => by rw [h y]
    rw [List.map_cons, write, hitems, ← h x]
    rfl

theorem write_strings (xs : List String) :
    write (.arr (xs.map Json.str)) = 0x5B :: (commaSep quote xs ++ [0x5D]) :=
  write_arr (fun _ => rfl) xs

theorem writeBool_eq (b : Bool) : writeBool b = write (.bool b) := by
  cases b <;> decide

def oelTree : Oel → Json
  | .var name => .obj [("op", .str "Var"), ("name", .str name)]
  | .cast src tgt arg =>
    .obj [("op", .str "Cast"), ("from", .str src), ("to", .str tgt), ("arg", oelTree arg)]

theorem writeOel_eq (o : Oel) : writeOel o = write (oelTree o) := by
  induction o with
  | var name =>
    simp only [writeOel, oelTree, write, writeMembers, pushStrJson_eq, List.append_assoc]
    rfl
  | cast src tgt arg ih =>
    simp only [writeOel, oelTree, write, writeMembers, pushStrJson_eq, ih, List.append_assoc,
      List.cons_append]
    rfl

def predicateRefTree (p : PredicateRef) : Json :=
  .obj [("module", .str p.module), ("name", .str p.name), ("ir", .arr (p.ir.map Json.str)),
    ("ir_hash", .str p.irHash)]

def formulaTree : Formula → Json
  | .inRange value lo hi =>
    .obj [("op", .str "InRange"), ("value", oelTree value), ("lo", .num lo.toInt),
      ("hi", .num hi.toInt)]
  | .offsetLE off width size =>
    .obj [("op", .str "OffsetLE"), ("off", match off with
        | some off => .num off.toNat
        | none => .null),
      ("width", .num width.toNat), ("size", .num size.toNat)]
  | .predicateHolds pred args =>
    .obj [("op", .str "PredicateHolds"), ("predicate", predicateRefTree pred),
      ("args", .arr (args.map oelTree))]

theorem writeFormula_eq (f : Formula) : writeFormula f = write (formulaTree f) := by
  cases f with
  | inRange value lo hi =>
    simp only [writeFormula, formulaTree, write, writeMembers, writeOel_eq, pushI64Json_int64,
      List.append_assoc, List.cons_append]
    rfl
  | offsetLE off width size =>
    cases off with
    | none =>
      simp only [writeFormula, formulaTree, write, writeMembers, pushI64Json_uint32,
        List.append_assoc, List.cons_append]
      rfl
    | some off =>
      simp only [writeFormula, formulaTree, write, writeMembers, pushI64Json_uint32,
        List.append_assoc, List.cons_append]
      rfl
  | predicateHolds pred args =>
    simp only [writeFormula, formulaTree, predicateRefTree, write, writeMembers, write_strings,
      write_arr writeOel_eq, pushStrJson_eq, List.append_assoc, List.cons_append]
    rfl

def edgeTree : AssumptionEdge → Json
  | .obligation id module => .obj [("obligation", .str id), ("module", .str module)]
  | .runtimeCheck => .str "runtime-check"

theorem writeAssumptionEdge_eq (e : AssumptionEdge) : writeAssumptionEdge e = write (edgeTree e) := by
  cases e with
  | obligation id module =>
    simp only [writeAssumptionEdge, edgeTree, write, writeMembers, pushStrJson_eq,
      List.append_assoc, List.cons_append]
    rfl
  | runtimeCheck => simp only [writeAssumptionEdge, edgeTree, write, pushStrJson_eq]

def cycleTree (c : Cycle) : Json :=
  .obj [("index", .num c.index.toNat), ("blocks", .arr (c.blocks.map Json.str))]

theorem writeCycle_eq (c : Cycle) : writeCycle c = write (cycleTree c) := by
  simp only [writeCycle, cycleTree, write, writeMembers, write_strings, pushStrJson_eq,
    pushI64Json_uint32, List.append_assoc, List.cons_append]
  rfl

def spanTree (s : SpanInfo) : Json := .obj [("line", .num s.line.toNat), ("col", .num s.col.toNat)]

def siteTree (s : Site) : Json :=
  .obj [("word", .str s.word), ("occurrence", .num s.occurrence.toNat), ("span", spanTree s.span)]

def intentTree (i : Intent) : Json :=
  .obj [("label", .str i.label), ("subject", .str i.subject), ("authored", .bool i.authored)]

def obligationTree (o : Obligation) : Json :=
  .obj [("id", .str o.id), ("id_hash", .str o.idHash), ("kind", .str o.kind.asStr),
    ("site", siteTree o.site), ("intent", intentTree o.intent), ("formula", formulaTree o.formula),
    ("assumptions", .arr (o.assumptions.map edgeTree)), ("cycles", .arr (o.cycles.map cycleTree)),
    ("provenance", .str o.provenance.asStr)]

theorem writeObligation_eq (o : Obligation) : writeObligation o = write (obligationTree o) := by
  have hid : utf8 "\x7b\"id\":" = opening "id" := rfl
  have hhash : utf8 ",\"id_hash\":" = following "id_hash" := rfl
  have hkind : utf8 ",\"kind\":" = following "kind" := rfl
  have hsite : utf8 ",\"site\":\x7b\"word\":" = following "site" ++ opening "word" := rfl
  have hocc : utf8 ",\"occurrence\":" = following "occurrence" := rfl
  have hspan : utf8 ",\"span\":\x7b\"line\":" = following "span" ++ opening "line" := rfl
  have hcol : utf8 ",\"col\":" = following "col" := rfl
  have hintent : utf8 "\x7d\x7d,\"intent\":\x7b\"label\":" =
      [0x7D] ++ ([0x7D] ++ (following "intent" ++ opening "label")) := rfl
  have hsubject : utf8 ",\"subject\":" = following "subject" := rfl
  have hauthored : utf8 ",\"authored\":" = following "authored" := rfl
  have hformula : utf8 "\x7d,\"formula\":" = [0x7D] ++ following "formula" := rfl
  have hassume : utf8 ",\"assumptions\":[" = following "assumptions" ++ [0x5B] := rfl
  have hcycles : utf8 "],\"cycles\":[" = [0x5D] ++ (following "cycles" ++ [0x5B]) := rfl
  have hprov : utf8 "],\"provenance\":" = [0x5D] ++ following "provenance" := rfl
  have hclose : utf8 "\x7d" = [0x7D] := rfl
  unfold writeObligation obligationTree siteTree spanTree intentTree
  simp only [hid, hhash, hkind, hsite, hocc, hspan, hcol, hintent, hsubject, hauthored, hformula,
    hassume, hcycles, hprov, hclose, opening, following, writeMembers,
    write_arr writeAssumptionEdge_eq, write_arr writeCycle_eq, ← writeBool_eq, writeFormula_eq,
    write, pushStrJson_eq, pushI64Json_uint32, List.append_assoc, List.cons_append, List.nil_append]

def wordFactTree (w : WordFact) : Json :=
  .obj [("name", .str w.name), ("net", .num w.net.toInt), ("high", .num w.high.toNat),
    ("top", .bool w.top), ("performs", .arr (w.performs.map Json.str)),
    ("diverge_free", .bool w.divergeFree), ("blocks", .num w.blocks.toNat), ("ir", .str w.ir)]

theorem writeWordFact_eq (w : WordFact) : writeWordFact w = write (wordFactTree w) := by
  simp only [writeWordFact, wordFactTree, write, writeMembers, write_strings, ← writeBool_eq,
    pushStrJson_eq, pushI64Json_int16, pushI64Json_uint32, List.append_assoc, List.cons_append]
  rfl

def subtypeFactTree (s : SubtypeFact) : Json :=
  .obj [("name", .str s.name), ("lo", .num s.lo.toInt), ("hi", .num s.hi.toInt)]

theorem writeSubtypeFact_eq (s : SubtypeFact) : writeSubtypeFact s = write (subtypeFactTree s) := by
  simp only [writeSubtypeFact, subtypeFactTree, write, writeMembers, pushStrJson_eq,
    pushI64Json_int64, List.append_assoc, List.cons_append]
  rfl

def predicateFactTree (p : PredicateFact) : Json :=
  .obj [("name", .str p.name), ("ir", .arr (p.ir.map Json.str)), ("ir_hash", .str p.irHash)]

theorem writePredicateFact_eq (p : PredicateFact) :
    writePredicateFact p = write (predicateFactTree p) := by
  simp only [writePredicateFact, predicateFactTree, write, writeMembers, write_strings,
    pushStrJson_eq, List.append_assoc, List.cons_append]
  rfl

def factsTree (f : Facts) : Json :=
  .obj [("words", .arr (f.words.map wordFactTree)),
    ("subtypes", .arr (f.subtypes.map subtypeFactTree)),
    ("predicates", .arr (f.predicates.map predicateFactTree))]

theorem writeFacts_eq (f : Facts) :
    writeFacts f = following "facts" ++ write (factsTree f) := by
  simp only [writeFacts, factsTree, write, writeMembers, write_arr writeWordFact_eq,
    write_arr writeSubtypeFact_eq, write_arr writePredicateFact_eq, List.append_assoc,
    List.cons_append]
  rfl

def docTree (set : OblSet) : Json :=
  .obj [("schema", .str set.schema), ("semantics", .str set.semantics), ("stmt", .str set.stmt),
    ("module", .str set.module), ("target", .str set.target), ("platform", .str set.platform),
    ("model_semantics", .str set.modelSemantics), ("concurrency", .str set.concurrency),
    ("abi_contract_version", .num set.abiContractVersion.toNat), ("facts", factsTree set.facts),
    ("obligations", .arr (set.obligations.map obligationTree))]

theorem writeDoc_eq (set : OblSet) : writeDoc set = write (docTree set) := by
  have hschema : utf8 "\x7b\"schema\":" = opening "schema" := rfl
  have hsem : utf8 ",\"semantics\":" = following "semantics" := rfl
  have hstmt : utf8 ",\"stmt\":" = following "stmt" := rfl
  have hmodule : utf8 ",\"module\":" = following "module" := rfl
  have htarget : utf8 ",\"target\":" = following "target" := rfl
  have hplatform : utf8 ",\"platform\":" = following "platform" := rfl
  have hmodel : utf8 ",\"model_semantics\":" = following "model_semantics" := rfl
  have hconc : utf8 ",\"concurrency\":" = following "concurrency" := rfl
  have habi : utf8 ",\"abi_contract_version\":" = following "abi_contract_version" := rfl
  have hobl : utf8 ",\"obligations\":[" = following "obligations" ++ [0x5B] := rfl
  have hclose : utf8 "]\x7d" = [0x5D] ++ [0x7D] := rfl
  unfold writeDoc docTree
  simp only [hschema, hsem, hstmt, hmodule, htarget, hplatform, hmodel, hconc, habi, hobl, hclose,
    opening, following, writeMembers, writeFacts_eq, write_arr writeObligation_eq,
    write, pushStrJson_eq, pushI64Json_uint32, List.append_assoc, List.cons_append, List.nil_append]

end Manifest

end Tyu
