import Tyu.Frontend.Parser

/-!
# The interface check

A `.def` source says what a module exports, and the check compares it with the `.mod` source,
export by export.
-/

namespace Tyu.Frontend

open Lib
open Irgen (DeclKind Performs)

structure SourceFile where
  src : Bytes
  ast : ModuleAst
  accepted : parseModuleAst src = .ok ast

namespace SourceFile

def text (u : SourceFile) (r : Range) : Bytes := bytesAt u.src r

def exportNames (u : SourceFile) : List Bytes :=
  if u.ast.hasExportStmt then u.ast.exports.items.map u.text
  else u.ast.decls.items.map fun d => u.text d.name

def findDecl (u : SourceFile) (name : Bytes) : Option DeclAst :=
  u.ast.decls.items.find? fun d => u.text d.name == name

def isExported (u : SourceFile) (name : Bytes) : Bool :=
  if u.ast.hasExportStmt then u.ast.exports.items.any fun r => u.text r == name
  else (u.findDecl name).isSome

def performs (u : SourceFile) (d : DeclAst) : Performs :=
  (d.performs.bind fun clause => Irgen.parsePerforms (innerAt u.src clause)).getD .none

/-- The offsets of the first byte of a range and of the one behind its last. -/
def span (u : SourceFile) (r : Range) : Nat × Nat :=
  ((((lex u.src)[r.start]?).map Placed.start).getD 0,
    (((lex u.src)[r.stop - 1]?).map Placed.stop).getD 0)

/-- An attribute is its kind and where it stands; of `@interrupt` the argument counts. -/
def attrSpan (u : SourceFile) : AttrAst → Bool × Nat × Nat
  | .interrupt parens => (true, (u.span parens).1 + 1, (u.span parens).2 - 1)
  | .other text => (false, u.span text)

end SourceFile

/-- Tokens of the same kinds, and of the same texts where a kind has several. -/
def sameTokens : List Token → List Token → Bool
  | [], [] => true
  | a :: as, b :: bs =>
    a.kind == b.kind &&
      (if a.kind = .ident ∨ a.kind = .number ∨ a.kind = .string ∨ a.kind = .kwPerforms
        then a.text == b.text else true) &&
      sameTokens as bs
  | _, _ => false

def sigEq (a b : Bytes) : Bool := sameTokens (tokens a) (tokens b)

def attrsEq (u v : SourceFile) (a b : FixedVec AttrAst 16) : Bool :=
  a.items.map u.attrSpan == b.items.map v.attrSpan

def checkWords (u v : SourceFile) (defDecl modDecl : DeclAst) : Except Nat PUnit := do
  let defSig ← Lib.expect defDecl.sig 2216
  let modSig ← Lib.expect modDecl.sig 2217
  require (sigEq (u.text defSig) (v.text modSig) = true) 2218
  require ((u.performs defDecl).bits = (v.performs modDecl).bits ∧
    (u.performs defDecl).net = (v.performs modDecl).net ∧
    (u.performs defDecl).high = (v.performs modDecl).high) 2219

def checkDecl (u v : SourceFile) (name : Bytes) : Except Nat PUnit := do
  let defDecl ← Lib.expect (u.findDecl name) 2212
  let modDecl ← Lib.expect (v.findDecl name) 2213
  require (defDecl.kind = modDecl.kind) 2214
  require (attrsEq u v defDecl.attrs modDecl.attrs = true) 2215
  if defDecl.kind = .word then checkWords u v defDecl modDecl else pure ⟨⟩

def checkIface (u v : SourceFile) : Except Nat PUnit := do
  u.exportNames.forM fun name => require (v.isExported name = true) 2210
  v.exportNames.forM fun name => require (u.isExported name = true) 2211
  u.exportNames.forM (checkDecl u v)

/-! ## Equal signatures -/

def TokenKind.fixed : TokenKind → Option Bytes
  | .ident | .number | .string => none
  | .eof => some []
  | .kwPerforms => ascii "performs"
  | .kwModule => ascii "module"
  | .kwImport => ascii "import"
  | .kwExport => ascii "export"
  | .kwEnd => ascii "end"
  | .kwType => ascii "type"
  | .kwSubtype => ascii "subtype"
  | .kwStruct => ascii "struct"
  | .kwEnum => ascii "enum"
  | .kwConst => ascii "const"
  | .kwResource => ascii "resource"
  | .kwRegisterMap => ascii "register-map"
  | .kwOwned => ascii "owned"
  | .kwIso => ascii "iso"
  | .kwRequires => ascii "requires"
  | .kwEnsures => ascii "ensures"
  | .kwNeeds => ascii "needs"
  | .kwBoard => ascii "board"
  | .colon => ascii ":"
  | .semi => ascii ";"
  | .lParen => ascii "("
  | .rParen => ascii ")"
  | .lBracket => ascii "["
  | .rBracket => ascii "]"
  | .lBrace => ascii "\x7b"
  | .rBrace => ascii "\x7d"
  | .comma => ascii ","
  | .dot => ascii "."
  | .eq => ascii "="
  | .ge => ascii ">="
  | .le => ascii "<="
  | .eqEq => ascii "=="
  | .ne => ascii "!="
  | .arrow => ascii "->"
  | .arrowBind => ascii "=>"
  | .dblDot => ascii ".."
  | .dashDash => ascii "--"
  | .lessPipe => ascii "<|"
  | .pipeGreater => ascii "|>"
  | .pipe => ascii "|"
  | .apostrophe => ascii "'"
  | .amp => ascii "&"
  | .ampBang => ascii "&!"
  | .ampLBracket => ascii "&["
  | .slash => ascii "/"
  | .ampBangLBracket => ascii "&!["

theorem ite_fixed {text a x : Bytes} {kind rest : TokenKind} (hkind : kind.fixed = some a)
    (hrest : rest.fixed = some x → text = x) :
    (if text = a then kind else rest).fixed = some x → text = x := by
  by_cases htext : text = a
  · rw [if_pos htext, hkind, htext]
    exact Option.some.inj
  · rwa [if_neg htext]

theorem keyword_fixed {text x : Bytes} : (keyword text).fixed = some x → text = x := by
  unfold keyword
  iterate 18 refine ite_fixed rfl ?_
  exact nofun

theorem take_one {rest : Bytes} {c : UInt8} (h : rest.head? = some c) : rest.take 1 = [c] := by
  cases rest with
  | nil => cases h
  | cons b bs =>
    cases h
    rfl

theorem take_two {rest : Bytes} {c d : UInt8} (h : rest.head? = some c)
    (h' : rest.tail.head? = some d) : rest.take 2 = [c, d] := by
  cases rest with
  | nil => cases h
  | cons b bs =>
    cases h
    exact congrArg (List.cons c) (take_one h')

theorem lexToken_fixed {first : UInt8} {rest x : Bytes}
    (h : (lexToken first rest).kind.fixed = some x) : (lexToken first rest).text = x := by
  generalize ht : lexToken first rest = t at h ⊢
  unfold lexToken at ht
  split at ht
  all_goals repeat' split at ht
  all_goals subst ht
  -- one byte, a byte and the next one, an identifier, or three bytes
  all_goals first
    | cases h; done
    | cases h; rfl
    | exact keyword_fixed h
    | rename_i hhead; cases h; exact congrArg (List.cons _) (take_one hhead)
    | rename_i hhead htail; cases h; exact congrArg (List.cons _) (take_two hhead htail)
    | rename_i hhead htail; cases h; exact congrArg (List.cons _) (take_one hhead)

theorem lexFrom_fixed {src x : Bytes} {fuel offset : Nat} {p : Placed}
    (hp : p ∈ lexFrom src fuel offset) (h : p.token.kind.fixed = some x) : p.token.text = x := by
  induction fuel generalizing offset with
  | zero => cases hp
  | succ fuel ih =>
    rw [lexFrom] at hp
    revert hp
    cases skipWsAndComments false (src.drop offset) with
    | nil => exact fun hp => absurd hp List.not_mem_nil
    | cons first more =>
      intro hp
      rcases List.mem_cons.mp hp with hp | hp
      · subst hp
        exact lexToken_fixed h
      · exact ih hp

theorem sameTokens_iff {as bs : List Token}
    (has : ∀ t ∈ as, ∀ x, t.kind.fixed = some x → t.text = x)
    (hbs : ∀ t ∈ bs, ∀ x, t.kind.fixed = some x → t.text = x) :
    sameTokens as bs = true ↔ as = bs := by
  induction as generalizing bs with
  | nil =>
    cases bs with
    | nil => exact ⟨fun _ => rfl, fun _ => rfl⟩
    | cons b bs => exact ⟨nofun, nofun⟩
  | cons a as ih =>
    cases bs with
    | nil => exact ⟨nofun, nofun⟩
    | cons b bs =>
      have htext : a.kind = b.kind → ((if a.kind = .ident ∨ a.kind = .number ∨ a.kind = .string ∨
          a.kind = .kwPerforms then a.text == b.text else true) = true ↔ a.text = b.text) := by
        intro hkind
        split
        · exact beq_iff_eq
        · rename_i hmany
          refine ⟨fun _ => ?_, fun _ => rfl⟩
          have hfixed : ∃ x, a.kind.fixed = some x := by
            revert hmany
            cases a.kind <;> intro hmany <;> first | exact ⟨_, rfl⟩ | simp at hmany
          obtain ⟨x, hx⟩ := hfixed
          rw [has a List.mem_cons_self x hx, hbs b List.mem_cons_self x (hkind ▸ hx)]
      rw [sameTokens, Bool.and_eq_true, Bool.and_eq_true, beq_iff_eq,
        ih (fun t ht => has t (List.mem_cons_of_mem _ ht))
          (fun t ht => hbs t (List.mem_cons_of_mem _ ht)), List.cons.injEq]
      obtain ⟨kind, text⟩ := a
      obtain ⟨kind', text'⟩ := b
      rw [Token.mk.injEq]
      constructor
      · rintro ⟨⟨hkind, h⟩, hrest⟩
        exact ⟨⟨hkind, (htext hkind).mp h⟩, hrest⟩
      · rintro ⟨⟨hkind, h⟩, hrest⟩
        exact ⟨⟨hkind, (htext hkind).mpr h⟩, hrest⟩

theorem tokens_fixed {src x : Bytes} {t : Token} (ht : t ∈ tokens src)
    (h : t.kind.fixed = some x) : t.text = x := by
  obtain ⟨p, hp, rfl⟩ := List.mem_map.mp ht
  exact lexFrom_fixed hp h

theorem sigEq_iff {a b : Bytes} : sigEq a b = true ↔ tokens a = tokens b :=
  sameTokens_iff (fun _ ht _ => tokens_fixed ht) fun _ ht _ => tokens_fixed ht

def SourceFile.attrTokens (u : SourceFile) : AttrAst → Bool × List Token
  | .interrupt parens => (true, tokens (innerAt u.src parens))
  | .other text => (false, tokens (u.text text))

inductive ClausePart where
  | net (v : Int)
  | high (v : Int)
  | other (toks : List Token)

def clausePart (toks : List Token) : ClausePart :=
  match toks with
  | [⟨.ident, key⟩, ⟨.eq, _⟩, ⟨.number, digits⟩] =>
    match parseI64 digits with
    | some v =>
      if key = ascii "net" then .net v
      else if key = ascii "high" then .high v
      else .other toks
    | none => .other toks
  | _ => .other toks

/-- What the clause of a word declares: its parts between the commas.  A number that is zero, or a
part that is empty, declares nothing. -/
def SourceFile.Declares (u : SourceFile) (d : DeclAst) (part : ClausePart) : Prop :=
  ∃ clause, d.performs = some clause ∧
    part ∈ ((tokens (innerAt u.src clause)).splitOnP fun t => t.kind == .comma).map clausePart ∧
    part ≠ .net 0 ∧ part ≠ .high 0 ∧ part ≠ .other []

def TextsAgree (u v : SourceFile) (a b : DeclAst) : Prop :=
  a.attrs.items.map u.attrTokens = b.attrs.items.map v.attrTokens ∧
    (a.kind = .word → ∀ part, u.Declares a part ↔ v.Declares b part)

def ShapesAgree (u v : SourceFile) (a b : DeclAst) : Prop :=
  a.kind = b.kind ∧ (a.kind = .word → ∃ r s, a.sig = some r ∧ b.sig = some s ∧
    tokens (u.text r) = tokens (v.text s))

def SourceFile.declared (u : SourceFile) (name : Bytes) : Option DeclAst :=
  u.ast.decls.items.find? fun d => tokens (u.text d.name) = tokens name

/-- The implementation has the interface, as far as texts go and whatever their layout. -/
def Conforms (u v : SourceFile) : Prop :=
  (∀ x ∈ u.exportNames, ∃ y ∈ v.exportNames, tokens x = tokens y) ∧
    (∀ y ∈ v.exportNames, ∃ x ∈ u.exportNames, tokens x = tokens y) ∧
    ∀ x ∈ u.exportNames, ∃ a b, u.declared x = some a ∧ v.declared x = some b ∧
      ShapesAgree u v a b ∧ TextsAgree u v a b

/-! ## What the check compares instead -/

def PositionsAgree (u v : SourceFile) (a b : DeclAst) : Prop :=
  attrsEq u v a.attrs b.attrs = true ∧
    (a.kind = .word → (u.performs a).bits = (v.performs b).bits ∧
      (u.performs a).net = (v.performs b).net ∧ (u.performs a).high = (v.performs b).high)

def Paired (u v : SourceFile) (a b : DeclAst) : Prop :=
  ∃ x ∈ u.exportNames, u.findDecl x = some a ∧ v.findDecl x = some b

def RestAgrees (u v : SourceFile) : Prop :=
  (∀ x ∈ u.exportNames, x ∈ v.exportNames) ∧ (∀ y ∈ v.exportNames, y ∈ u.exportNames) ∧
    ∀ x ∈ u.exportNames, ∃ a b, u.findDecl x = some a ∧ v.findDecl x = some b ∧
      ShapesAgree u v a b

def SourceFile.names (u : SourceFile) : List Bytes :=
  u.exportNames ++ u.ast.decls.items.map fun d => u.text d.name

def NamesAlike (u v : SourceFile) : Prop :=
  ∀ x ∈ u.names ++ v.names, ∀ y ∈ u.names ++ v.names, tokens x = tokens y → x = y

theorem isExported_iff {u : SourceFile} {name : Bytes} :
    u.isExported name = true ↔ name ∈ u.exportNames := by
  unfold SourceFile.isExported SourceFile.exportNames SourceFile.findDecl
  by_cases hexport : u.ast.hasExportStmt = true
  · rw [if_pos hexport, if_pos hexport, List.any_eq_true, List.mem_map]
    simp only [beq_iff_eq]
  · rw [if_neg hexport, if_neg hexport, List.find?_isSome, List.mem_map]
    simp only [beq_iff_eq]

theorem checkDecl_eq_ok {u v : SourceFile} {name : Bytes} : checkDecl u v name = .ok ⟨⟩ ↔
    ∃ a b, u.findDecl name = some a ∧ v.findDecl name = some b ∧ ShapesAgree u v a b ∧
      PositionsAgree u v a b := by
  unfold checkDecl
  simp only [bind_eq_ok, expect_eq_ok, require_eq_ok]
  constructor
  · rintro ⟨a, ha, b, hb, -, hkind, -, hattrs, h⟩
    refine ⟨a, b, ha, hb, ⟨hkind, fun hword => ?_⟩, hattrs, fun hword => ?_⟩
    all_goals
      rw [if_pos hword] at h
      unfold checkWords at h
      simp only [bind_eq_ok, expect_eq_ok, require_eq_ok, sigEq_iff] at h
      obtain ⟨r, hr, s, hs, -, hsig, heffects⟩ := h
    · exact ⟨r, s, hr, hs, hsig⟩
    · exact heffects
  · rintro ⟨a, b, ha, hb, ⟨hkind, hshape⟩, hattrs, heffects⟩
    refine ⟨a, ha, b, hb, ⟨⟩, hkind, ⟨⟩, hattrs, ?_⟩
    by_cases hword : a.kind = .word
    · rw [if_pos hword]
      unfold checkWords
      simp only [bind_eq_ok, expect_eq_ok, require_eq_ok, sigEq_iff]
      obtain ⟨r, s, hr, hs, hsig⟩ := hshape hword
      exact ⟨r, hr, s, hs, ⟨⟩, hsig, heffects hword⟩
    · rw [if_neg hword]
      rfl

theorem checkIface_eq_ok {u v : SourceFile} : checkIface u v = .ok ⟨⟩ ↔
    RestAgrees u v ∧ ∀ a b, Paired u v a b → PositionsAgree u v a b := by
  unfold checkIface
  simp only [bind_eq_ok, forM_eq_ok, require_eq_ok, isExported_iff, checkDecl_eq_ok]
  constructor
  · rintro ⟨-, hdef, -, hmod, h⟩
    refine ⟨⟨hdef, hmod, fun x hx => ?_⟩, ?_⟩
    · obtain ⟨a, b, ha, hb, hshape, -⟩ := h x hx
      exact ⟨a, b, ha, hb, hshape⟩
    · rintro a b ⟨x, hx, ha, hb⟩
      obtain ⟨a', b', ha', hb', -, hposition⟩ := h x hx
      obtain rfl : a' = a := Option.some.inj (ha'.symm.trans ha)
      obtain rfl : b' = b := Option.some.inj (hb'.symm.trans hb)
      exact hposition
  · rintro ⟨⟨hdef, hmod, h⟩, hpositions⟩
    refine ⟨⟨⟩, hdef, ⟨⟩, hmod, fun x hx => ?_⟩
    obtain ⟨a, b, ha, hb, hshape⟩ := h x hx
    exact ⟨a, b, ha, hb, hshape, hpositions a b ⟨x, hx, ha, hb⟩⟩

theorem mem_names_of_export {u : SourceFile} {x : Bytes} (h : x ∈ u.exportNames) : x ∈ u.names :=
  List.mem_append_left _ h

theorem mem_names_of_decl {u : SourceFile} {d : DeclAst} (h : d ∈ u.ast.decls.items) :
    u.text d.name ∈ u.names :=
  List.mem_append_right _ (List.mem_map.mpr ⟨d, h, rfl⟩)

theorem declared_eq_findDecl {u : SourceFile} {x : Bytes}
    (h : ∀ y ∈ u.names, tokens y = tokens x → y = x) : u.declared x = u.findDecl x := by
  refine List.find?_congr fun d hd => ?_
  rw [Bool.eq_iff_iff, decide_eq_true_iff, beq_iff_eq]
  constructor
  · exact h _ (mem_names_of_decl hd)
  · intro hname
    rw [hname]

theorem conforms_iff {u v : SourceFile} (h : NamesAlike u v) : Conforms u v ↔
    RestAgrees u v ∧ ∀ a b, Paired u v a b → TextsAgree u v a b := by
  have hu : ∀ x ∈ u.exportNames, u.declared x = u.findDecl x := fun x hx =>
    declared_eq_findDecl fun y hy => h y (List.mem_append_left _ hy) x
      (List.mem_append_left _ (mem_names_of_export hx))
  have hv : ∀ x ∈ u.exportNames, v.declared x = v.findDecl x := fun x hx =>
    declared_eq_findDecl fun y hy => h y (List.mem_append_right _ hy) x
      (List.mem_append_left _ (mem_names_of_export hx))
  have hsame : ∀ x ∈ u.exportNames, ∀ y ∈ v.exportNames, tokens x = tokens y → x = y :=
    fun x hx y hy => h x (List.mem_append_left _ (mem_names_of_export hx)) y
      (List.mem_append_right _ (mem_names_of_export hy))
  constructor
  · rintro ⟨hdef, hmod, hdecls⟩
    refine ⟨⟨fun x hx => ?_, fun y hy => ?_, fun x hx => ?_⟩, ?_⟩
    · obtain ⟨y, hy, htokens⟩ := hdef x hx
      rwa [hsame x hx y hy htokens]
    · obtain ⟨x, hx, htokens⟩ := hmod y hy
      rwa [← hsame x hx y hy htokens]
    · obtain ⟨a, b, ha, hb, hshape, -⟩ := hdecls x hx
      rw [hu x hx] at ha
      rw [hv x hx] at hb
      exact ⟨a, b, ha, hb, hshape⟩
    · rintro a b ⟨x, hx, ha, hb⟩
      obtain ⟨a', b', ha', hb', -, htexts⟩ := hdecls x hx
      rw [hu x hx] at ha'
      rw [hv x hx] at hb'
      obtain rfl : a' = a := Option.some.inj (ha'.symm.trans ha)
      obtain rfl : b' = b := Option.some.inj (hb'.symm.trans hb)
      exact htexts
  · rintro ⟨⟨hdef, hmod, hdecls⟩, htexts⟩
    refine ⟨fun x hx => ⟨x, hdef x hx, rfl⟩, fun y hy => ⟨y, hmod y hy, rfl⟩, fun x hx => ?_⟩
    obtain ⟨a, b, ha, hb, hshape⟩ := hdecls x hx
    refine ⟨a, b, ?_, ?_, hshape, htexts a b ⟨x, hx, ha, hb⟩⟩
    · rw [hu x hx, ha]
    · rw [hv x hx, hb]

def attrWord : DeclAst where
  kind := .word
  name := ⟨5, 6⟩
  sig := some ⟨6, 9⟩
  attrs := ⟨[.other ⟨3, 4⟩], by decide⟩
  body := some ⟨9, 9⟩
  requires := none
  ensures := none
  intent := none
  capSet := none
  performs := none

def attrModule : ModuleAst := { ModuleAst.named ⟨1, 2⟩ with decls := ⟨[attrWord], by decide⟩ }

def tightAttr : SourceFile where
  src := ascii "module m; @a : f ( -- ) ; end;"
  ast := attrModule
  accepted := by decide

def spacedAttr : SourceFile where
  src := ascii "module m;  @a : f ( -- ) ; end;"
  ast := attrModule
  accepted := by decide

theorem attr_names_alike : NamesAlike tightAttr spacedAttr := by
  have hnames : tightAttr.names ++ spacedAttr.names = List.replicate 4 (ascii "f") := by
    decide
  intro x hx y hy _
  rw [hnames] at hx hy
  rw [List.eq_of_mem_replicate hx, List.eq_of_mem_replicate hy]

end Tyu.Frontend
