import Tyu.Lib.Json
import Tyu.Verifier.Stmt

/-! # A statement's canonical text determines the statement -/

namespace Tyu

open Lib Lib.Json Obl

/-! ## The pieces of the canonical text -/

theorem utf8_jsonChar_control :
    ∀ n : Fin 32, utf8 (jsonChar (Char.ofNat n)) = escape n.val.toUInt8 := by
  decide

theorem jsonChar_plain {c : Char} (hquote : c.toNat ≠ 0x22) (hback : c.toNat ≠ 0x5C)
    (hcontrol : ¬ c.toNat < 0x20) : jsonChar c = String.ofList [c] := by
  unfold jsonChar
  rw [if_neg hquote, if_neg hback, if_neg (by omega), if_neg (by omega), if_neg (by omega),
    if_neg (by omega), if_neg (by omega), if_neg hcontrol]

theorem utf8_jsonChar_ascii {c : Char} (h : c.toNat < 0x80) :
    utf8 (jsonChar c) = escape c.toNat.toUInt8 := by
  by_cases hcontrol : c.toNat < 0x20
  · have hone := utf8_jsonChar_control ⟨c.toNat, hcontrol⟩
    rw [Char.ofNat_toNat] at hone
    exact hone
  by_cases hquote : c.toNat = 0x22
  · rw [← Char.ofNat_toNat c, hquote]
    decide
  by_cases hback : c.toNat = 0x5C
  · rw [← Char.ofNat_toNat c, hback]
    decide
  have hnat : c.toNat.toUInt8.toNat = c.toNat := by
    rw [Nat.toUInt8, UInt8.toNat_ofNat']
    omega
  have hne : ∀ d : UInt8, d.toNat ≠ c.toNat → c.toNat.toUInt8 ≠ d := by
    intro d hd hcd
    rw [← hcd, hnat] at hd
    exact hd rfl
  have hlow : ∀ d : UInt8, d.toNat < 0x20 → c.toNat.toUInt8 ≠ d := by
    intro d hd
    exact hne d (by omega)
  have hescape : escape c.toNat.toUInt8 = [c.toNat.toUInt8] := by
    unfold escape
    rw [if_neg (hne 0x22 (Ne.symm hquote)), if_neg (hne 0x5C (Ne.symm hback)),
      if_neg (hlow _ (by decide)), if_neg (hlow _ (by decide)), if_neg (hlow _ (by decide)),
      if_neg (hlow _ (by decide)), if_neg (hlow _ (by decide)), if_neg]
    rw [UInt8.lt_iff_toNat_lt, hnat]
    exact hcontrol
  rw [jsonChar_plain hquote hback hcontrol, hescape]
  simp [utf8_eq, utf8EncodeChar_ascii h]

theorem utf8_jsonChar (c : Char) : utf8 (jsonChar c) = (String.utf8EncodeChar c).flatMap escape := by
  by_cases h : c.toNat < 0x80
  · rw [utf8_jsonChar_ascii h, utf8EncodeChar_ascii h]
    simp
  · rw [jsonChar_plain (by omega) (by omega) (by omega),
      flatMap_escape_high fun b hb => utf8EncodeChar_high (by omega) hb]
    simp [utf8_eq]

theorem utf8_vStr (s : String) : utf8 (vStr s) = quote s := by
  have hbody : ∀ cs : List Char, utf8 (String.join (cs.map jsonChar)) =
      (cs.flatMap String.utf8EncodeChar).flatMap escape := by
    intro cs
    induction cs with
    | nil => rfl
    | cons c cs ih =>
      rw [List.map_cons, String.join_cons, utf8_append, ih, utf8_jsonChar, List.flatMap_cons,
        List.flatMap_append]
  unfold vStr quote
  rw [utf8_append, utf8_append, hbody, ← utf8_eq]
  rfl

theorem utf8_digits (n : Nat) : utf8 (toString n) = decimal n := by
  have hchars : ∀ cs : List Char, (∀ c ∈ cs, c.isDigit = true) →
      cs.flatMap String.utf8EncodeChar = cs.map fun c => c.toNat.toUInt8 := by
    intro cs
    induction cs with
    | nil => intro _; rfl
    | cons c cs ih =>
      intro hcs
      have hhigh : c.toNat ≤ 57 := (Char.isDigit_iff_toNat.mp (hcs c (by simp))).2
      rw [List.flatMap_cons, utf8EncodeChar_ascii (by omega), ih fun d hd => hcs d (by simp [hd])]
      rfl
  unfold decimal
  rw [utf8_eq, Nat.toString_eq_ofList_toDigits, String.toList_ofList]
  exact hchars _ fun c hc => Nat.isDigit_of_mem_toDigits (by decide) (by decide) hc

theorem utf8_vI64 (n : Int) : utf8 (vI64 n) = number n := by
  unfold vI64 number
  cases n with
  | ofNat n =>
    have hnot : ¬ Int.ofNat n < 0 := Int.not_lt.mpr (Int.natCast_nonneg n)
    rw [if_neg hnot]
    exact utf8_digits n
  | negSucc n =>
    rw [if_pos (Int.negSucc_lt_zero n)]
    have htext : toString (Int.negSucc n) = "-" ++ toString (n + 1) := rfl
    rw [htext, utf8_append, utf8_digits]
    rfl

theorem utf8_commas (t : String) (ts : List String) :
    utf8 (String.intercalate "," (t :: ts)) = utf8 t ++ ts.flatMap fun u => 0x2C :: utf8 u := by
  induction ts generalizing t with
  | nil => simp
  | cons u ts ih =>
    rw [String.intercalate_cons_cons, utf8_append, utf8_append, ih]
    simp only [List.flatMap_cons, List.append_assoc]
    rfl

theorem utf8_vArray (items : List (String × Json)) (h : ∀ i ∈ items, utf8 i.1 = write i.2) :
    utf8 (vArray (items.map Prod.fst)) = write (.arr (items.map Prod.snd)) := by
  unfold vArray
  rw [utf8_append, utf8_append]
  cases items with
  | nil => rfl
  | cons i items =>
    have htail : (items.map Prod.fst).flatMap (fun u => 0x2C :: utf8 u) =
        (items.map Prod.snd).flatMap fun j => 0x2C :: write j := by
      rw [List.flatMap_map, List.flatMap_map]
      exact List.flatMap_congr fun k hk => by rw [h k (by simp [hk])]
    rw [List.map_cons, List.map_cons, utf8_commas, write, writeItems_eq, htail, h i (by simp)]
    rfl

theorem utf8_canonObj {members : List (String × String)} {trees : List (String × Json)}
    (keys : List String) (hkeys : members.map Prod.fst = keys)
    (hordered : keys.Pairwise fun a b => (!decide (b < a)) = true)
    (h : List.Forall₂ (fun m t => m.1 = t.1 ∧ utf8 m.2 = write t.2) members trees) :
    utf8 (canonObj members) = write (.obj trees) := by
  have hmember : ∀ {m : String × String} {t : String × Json}, m.1 = t.1 ∧ utf8 m.2 = write t.2 →
      utf8 (vStr m.1 ++ ":" ++ m.2) = quote t.1 ++ 0x3A :: write t.2 := by
    intro m t hmt
    rw [utf8_append, utf8_append, utf8_vStr, hmt.1, hmt.2, List.append_assoc]
    rfl
  have hsorted : members.Pairwise fun a b => (!decide (b.1 < a.1)) = true := by
    rw [← hkeys] at hordered
    exact List.pairwise_map.mp hordered
  unfold canonObj
  simp only [List.mergeSort_of_pairwise hsorted]
  rw [utf8_append, utf8_append]
  cases h with
  | nil => rfl
  | cons hm hrest =>
    rename_i m t ms ts
    have htail : (ms.map fun m => vStr m.1 ++ ":" ++ m.2).flatMap (fun u => 0x2C :: utf8 u) =
        ts.flatMap fun t => 0x2C :: quote t.1 ++ 0x3A :: write t.2 := by
      clear hsorted hkeys
      induction hrest with
      | nil => rfl
      | cons hm' hrest' ih =>
        rw [List.map_cons, List.flatMap_cons, List.flatMap_cons, ih, hmember hm']
        rfl
    rw [List.map_cons, utf8_commas, hmember hm, write, writeMembers_eq, htail]
    simp only [List.append_assoc]
    rfl

namespace Obl

def Oel.tree : Oel → Json
  | .var name => .obj [("name", .str name), ("op", .str "Var")]
  | .cast src tgt arg =>
    .obj [("arg", arg.tree), ("from", .str src), ("op", .str "Cast"), ("to", .str tgt)]

def PredicateRef.tree (p : PredicateRef) : Json :=
  .obj [("ir", .arr (p.ir.map Json.str)), ("ir_hash", .str p.irHash), ("module", .str p.module),
    ("name", .str p.name)]

def Formula.tree : Formula → Json
  | .inRange value lo hi =>
    .obj [("hi", .num hi), ("lo", .num lo), ("op", .str "InRange"), ("value", value.tree)]
  | .offsetLE off width size =>
    .obj [("off", match off with
        | some off => .num off
        | none => .null),
      ("op", .str "OffsetLE"), ("size", .num size), ("width", .num width)]
  | .predicateHolds pred args =>
    .obj [("args", .arr (args.map Oel.tree)), ("op", .str "PredicateHolds"),
      ("predicate", pred.tree)]

end Obl

namespace StatementContext

def tree (c : StatementContext) : Json :=
  .obj [("kind", .str c.kind.asStr), ("model_semantics", .str c.modelSemantics),
    ("module", .str c.module), ("occurrence", .num c.occurrence),
    ("refinement", match c.refinement with
      | some r => .str r
      | none => .null),
    ("semantics", .str c.semantics), ("stmt_ver", .str c.stmtVer), ("target", .str c.target),
    ("word", .str c.word), ("word_ir_hash", .str c.wordIrHash)]

def statementTree (c : StatementContext) (f : Formula) : Json :=
  .obj [("context", c.tree), ("formula", f.tree)]

def canonicalBytes (c : StatementContext) (f : Formula) : ByteArray := (c.canonical f).toUTF8

end StatementContext

theorem utf8_canonOel (o : Oel) : utf8 (canonOel o) = write o.tree := by
  induction o with
  | var name =>
    unfold canonOel Oel.tree
    exact utf8_canonObj ["name", "op"] rfl (by decide)
      (.cons ⟨rfl, utf8_vStr name⟩ (.cons ⟨rfl, utf8_vStr "Var"⟩ .nil))
  | cast src tgt arg ih =>
    unfold canonOel Oel.tree
    exact utf8_canonObj ["arg", "from", "op", "to"] rfl (by decide)
      (.cons ⟨rfl, ih⟩ (.cons ⟨rfl, utf8_vStr src⟩ (.cons ⟨rfl, utf8_vStr "Cast"⟩
        (.cons ⟨rfl, utf8_vStr tgt⟩ .nil))))

theorem utf8_vArray_map {α : Type} (text : α → String) (tree : α → Json) (xs : List α)
    (h : ∀ x, utf8 (text x) = write (tree x)) :
    utf8 (vArray (xs.map text)) = write (.arr (xs.map tree)) := by
  have hzip := utf8_vArray (xs.map fun x => (text x, tree x)) fun i hi => by
    obtain ⟨x, -, rfl⟩ := List.mem_map.mp hi
    exact h x
  simpa [List.map_map, Function.comp_def] using hzip

theorem utf8_canonPredicate (p : PredicateRef) : utf8 (canonPredicate p) = write p.tree := by
  unfold canonPredicate PredicateRef.tree
  exact utf8_canonObj ["ir", "ir_hash", "module", "name"] rfl (by decide)
    (.cons ⟨rfl, utf8_vArray_map vStr Json.str p.ir utf8_vStr⟩ (.cons ⟨rfl, utf8_vStr p.irHash⟩
      (.cons ⟨rfl, utf8_vStr p.module⟩ (.cons ⟨rfl, utf8_vStr p.name⟩ .nil))))

theorem utf8_canonFormula (f : Formula) : utf8 (canonFormula f) = write f.tree := by
  unfold canonFormula Formula.tree
  cases f with
  | inRange value lo hi =>
    exact utf8_canonObj ["hi", "lo", "op", "value"] rfl (by decide)
      (.cons ⟨rfl, utf8_vI64 hi⟩ (.cons ⟨rfl, utf8_vI64 lo⟩ (.cons ⟨rfl, utf8_vStr "InRange"⟩
        (.cons ⟨rfl, utf8_canonOel value⟩ .nil))))
  | offsetLE off width size =>
    have hoff : utf8 (match off with
        | some off => vI64 off
        | none => vNull) = write (match off with
        | some off => .num off
        | none => .null) := by
      cases off with
      | none => rfl
      | some off => exact utf8_vI64 off
    exact utf8_canonObj ["off", "op", "size", "width"] rfl (by decide)
      (.cons ⟨rfl, hoff⟩ (.cons ⟨rfl, utf8_vStr "OffsetLE"⟩ (.cons ⟨rfl, utf8_vI64 size⟩
        (.cons ⟨rfl, utf8_vI64 width⟩ .nil))))
  | predicateHolds pred args =>
    exact utf8_canonObj ["args", "op", "predicate"] rfl (by decide)
      (.cons ⟨rfl, utf8_vArray_map canonOel Oel.tree args utf8_canonOel⟩
        (.cons ⟨rfl, utf8_vStr "PredicateHolds"⟩ (.cons ⟨rfl, utf8_canonPredicate pred⟩ .nil)))

namespace StatementContext

theorem utf8_canonContext (c : StatementContext) : utf8 c.canonContext = write c.tree := by
  have href : utf8 (match c.refinement with
      | some r => vStr r
      | none => vNull) = write (match c.refinement with
      | some r => .str r
      | none => .null) := by
    cases c.refinement with
    | none => rfl
    | some r => exact utf8_vStr r
  unfold canonContext tree
  exact utf8_canonObj ["kind", "model_semantics", "module", "occurrence", "refinement", "semantics",
      "stmt_ver", "target", "word", "word_ir_hash"] rfl (by decide)
    (.cons ⟨rfl, utf8_vStr _⟩ (.cons ⟨rfl, utf8_vStr _⟩ (.cons ⟨rfl, utf8_vStr _⟩
      (.cons ⟨rfl, utf8_vI64 _⟩ (.cons ⟨rfl, href⟩ (.cons ⟨rfl, utf8_vStr _⟩
        (.cons ⟨rfl, utf8_vStr _⟩ (.cons ⟨rfl, utf8_vStr _⟩ (.cons ⟨rfl, utf8_vStr _⟩
          (.cons ⟨rfl, utf8_vStr _⟩ .nil))))))))))

theorem utf8_canonical (c : StatementContext) (f : Formula) :
    utf8 (c.canonical f) = write (c.statementTree f) := by
  unfold canonical statementTree
  rw [utf8_append, utf8_append, utf8_append, utf8_append, utf8_canonContext, utf8_canonFormula]
  simp only [write, writeMembers, List.append_assoc, List.nil_append]
  rfl

end StatementContext

/-! ## Different statements have different trees -/

theorem Kind.asStr_inj {k k' : Kind} (h : k.asStr = k'.asStr) : k = k' := by
  cases k <;> cases k' <;> first | rfl | exact absurd h (by decide)

theorem Oel.tree_inj {o o' : Oel} (h : o.tree = o'.tree) : o = o' := by
  induction o generalizing o' with
  | var name =>
    cases o' with
    | var name' => simpa [Oel.tree] using h
    | cast => simp [Oel.tree] at h
  | cast src tgt arg ih =>
    cases o' with
    | var => simp [Oel.tree] at h
    | cast src' tgt' arg' =>
      simp only [Oel.tree, Json.obj.injEq, List.cons.injEq, Prod.mk.injEq, true_and, and_true,
        Json.str.injEq] at h
      rw [ih h.1, h.2.1, h.2.2]

theorem PredicateRef.tree_inj {p p' : PredicateRef} (h : p.tree = p'.tree) : p = p' := by
  have hstr : Function.Injective Json.str := fun _ _ h => Json.str.inj h
  simp only [PredicateRef.tree, Json.obj.injEq, List.cons.injEq, Prod.mk.injEq, true_and, and_true,
    Json.str.injEq, Json.arr.injEq, hstr.list_map.eq_iff] at h
  cases p
  cases p'
  simp_all

theorem Formula.tree_inj {f f' : Formula} (h : f.tree = f'.tree) : f = f' := by
  have hoel : Function.Injective Oel.tree := fun _ _ h => Oel.tree_inj h
  cases f with
  | inRange value lo hi =>
    cases f' with
    | inRange value' lo' hi' =>
      simp only [Formula.tree, Json.obj.injEq, List.cons.injEq, Prod.mk.injEq, true_and, and_true,
        Json.num.injEq] at h
      rw [h.1, h.2.1, Oel.tree_inj h.2.2]
    | offsetLE | predicateHolds => simp [Formula.tree] at h
  | offsetLE off width size =>
    cases f' with
    | offsetLE off' width' size' =>
      simp only [Formula.tree, Json.obj.injEq, List.cons.injEq, Prod.mk.injEq, true_and, and_true,
        Json.num.injEq] at h
      have hoff : off = off' := by
        cases off with
        | none =>
          cases off' with
          | none => rfl
          | some n => exact absurd h.1 (by simp)
        | some m =>
          cases off' with
          | none => exact absurd h.1 (by simp)
          | some n => rw [Int.ofNat.inj (Json.num.inj h.1)]
      rw [hoff, Int.ofNat.inj h.2.1, Int.ofNat.inj h.2.2]
    | inRange | predicateHolds => simp [Formula.tree] at h
  | predicateHolds pred args =>
    cases f' with
    | predicateHolds pred' args' =>
      simp only [Formula.tree, Json.obj.injEq, List.cons.injEq, Prod.mk.injEq, true_and, and_true,
        Json.arr.injEq, hoel.list_map.eq_iff] at h
      rw [h.1, PredicateRef.tree_inj h.2]
    | inRange | offsetLE => simp [Formula.tree] at h

namespace StatementContext

theorem tree_inj {c c' : StatementContext} (h : c.tree = c'.tree) : c = c' := by
  simp only [tree, Json.obj.injEq, List.cons.injEq, Prod.mk.injEq, true_and, and_true,
    Json.str.injEq, Json.num.injEq] at h
  obtain ⟨hkind, hmodel, hmodule, hocc, href, hsem, hstmt, htarget, hword, hhash⟩ := h
  have hkind' := Kind.asStr_inj hkind
  have hocc' : c.occurrence = c'.occurrence := Int.ofNat.inj hocc
  have href' : c.refinement = c'.refinement := by
    revert href
    cases c.refinement <;> cases c'.refinement <;> simp
  cases c
  cases c'
  simp_all

theorem canonical_inj {c c' : StatementContext} {f f' : Formula}
    (h : utf8 (c.canonical f) = utf8 (c'.canonical f')) : c = c' ∧ f = f' := by
  rw [utf8_canonical, utf8_canonical, ← List.append_nil (write (c.statementTree f)),
    ← List.append_nil (write (c'.statementTree f'))] at h
  have htree := (write_inj _ _ follow_nil follow_nil h).1
  simp only [statementTree, Json.obj.injEq, List.cons.injEq, Prod.mk.injEq, true_and,
    and_true] at htree
  exact ⟨tree_inj htree.1, Formula.tree_inj htree.2⟩

/-- Equal canonical bytes mean equal statements, and where the digest does not collide on the
two texts, so do equal statement hashes. -/
theorem canonical_binds (sha : Digest) (c c' : StatementContext) (f f' : Formula)
    (hsha : sha (c.canonical f) = sha (c'.canonical f') → c.canonical f = c'.canonical f') :
    (c.canonicalBytes f = c'.canonicalBytes f' ↔ c = c' ∧ f = f') ∧
    (c.statementHash sha f = c'.statementHash sha f' ↔ c = c' ∧ f = f') := by
  constructor
  · constructor
    · intro h
      have htext := congrArg (fun b => b.data.toList) h
      exact canonical_inj htext
    · intro h
      rw [h.1, h.2]
  · constructor
    · intro h
      exact canonical_inj (utf8_inj.mpr (hsha h))
    · intro h
      rw [h.1, h.2]

/-- A statement of the module `Bank`: the increment stays in range. -/
def boundedInc : StatementContext where
  semantics := SEMANTICS_VERSION
  stmtVer := STMT_SCHEMA
  target := "x86_64"
  modelSemantics := "unmodeled"
  module := "Bank"
  word := "bounded_inc"
  wordIrHash := "00000000000000ff"
  kind := .subtypeRange
  occurrence := 0
  refinement := none

def boundedIncDigest : Digest := fun text =>
  if text = boundedInc.canonical (.inRange (.var "in.0") 0 10) then
    "006e3d71a6d3a280f83375baf944ee6ff136967534569f46750adefac7dc2a1f"
  else
    "c27b0208ce0e35e2f74d9b91efbc8f86bc322171adcb52d3e6907cc0169aadcc"

theorem canonical_binds_boundedInc :
    (boundedInc.canonicalBytes (.inRange (.var "in.0") 0 10) =
        boundedInc.canonicalBytes (.inRange (.var "in.0") 0 11) ↔
      boundedInc = boundedInc ∧
        Formula.inRange (.var "in.0") 0 10 = .inRange (.var "in.0") 0 11) ∧
    (boundedInc.statementHash boundedIncDigest (.inRange (.var "in.0") 0 10) =
        boundedInc.statementHash boundedIncDigest (.inRange (.var "in.0") 0 11) ↔
      boundedInc = boundedInc ∧
        Formula.inRange (.var "in.0") 0 10 = .inRange (.var "in.0") 0 11) :=
  canonical_binds boundedIncDigest boundedInc boundedInc _ _ (by
    intro h
    by_contra hne
    unfold boundedIncDigest at h
    rw [if_pos rfl, if_neg (Ne.symm hne)] at h
    exact absurd h (by decide))

end StatementContext

end Tyu
