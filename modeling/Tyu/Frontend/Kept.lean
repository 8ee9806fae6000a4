import Tyu.Frontend.Parser

/-!
# What becomes of the tokens of a module

Between its header and its `end`, a module should be a sequence of attributes, imports, exports
and declarations that all are in the tree.
-/

namespace Tyu.Frontend

open Lib

variable {pass : Site → Bool} {toks : List Token}

inductive Owner where
  | attr (a : AttrAst)
  | imp (i : ImportAst)
  /-- an export statement, with the names exported before it and after it -/
  | exp (before after : FixedVec Range 256)
  | decl (d : DeclAst)

structure Piece where
  start : Nat
  stop : Nat
  owner : Owner

def Owner.imports : Owner → List ImportAst
  | .imp i => [i]
  | _ => []

def Owner.decls : Owner → List DeclAst
  | .decl d => [d]
  | _ => []

/-- The piece is what the parser of such a piece reads from its first token on. -/
def Piece.Reads (pass : Site → Bool) (toks : List Token) (p : Piece) : Prop :=
  ∃ t sites, toks[p.start]? = some t ∧
    match p.owner with
    | .attr a => isAttr t = true ∧ (parseAttr t).run pass toks p.start = .ok (a, p.stop, sites)
    | .imp i => t.kind = .kwImport ∧ parseImportAst.run pass toks p.start = .ok (i, p.stop, sites)
    | .exp before after => t.kind = .kwExport ∧
      (parseExportAst before).run pass toks p.start = .ok (after, p.stop, sites)
    | .decl d => ∃ decl extra, parseDecl d.attrs t.kind = some decl ∧
      decl.run pass toks p.start = .ok ((d, extra), p.stop, sites)

/-- The pieces lie one behind the other from `i` to `j`. -/
def Tiles : Nat → List Piece → Nat → Prop
  | i, [], j => i = j
  | i, p :: ps, j => p.start = i ∧ i < p.stop ∧ Tiles p.stop ps j

def Exports : FixedVec Range 256 → List Piece → FixedVec Range 256 → Prop
  | v, [], w => v = w
  | v, p :: ps, w =>
    match p.owner with
    | .exp before after => before = v ∧ Exports after ps w
    | _ => Exports v ps w

/-- Attributes wait for the next declaration and belong to it; the last list is what still
waits at the end. -/
def Attached : List AttrAst → List Piece → List AttrAst → Prop
  | waiting, [], rest => waiting = rest
  | waiting, p :: ps, rest =>
    match p.owner with
    | .attr a => Attached (waiting ++ [a]) ps rest
    | .decl d => d.attrs.items = waiting ∧ Attached [] ps rest
    | _ => Attached waiting ps rest

/-- Every token from `i` to `j` belongs to one import, export, attribute or declaration of the
tree, these are all it has, and every attribute belongs to the declaration behind it. -/
def AllKept (pass : Site → Bool) (toks : List Token) (i j : Nat) (ast : ModuleAst) : Prop :=
  ∃ pieces, Tiles i pieces j ∧ (∀ p ∈ pieces, p.Reads pass toks) ∧
    ast.imports.items = pieces.flatMap (fun p => p.owner.imports) ∧
    ast.decls.items = pieces.flatMap (fun p => p.owner.decls) ∧
    Exports .new pieces ast.exports ∧ Attached [] pieces []

def Turn (pass : Site → Bool) (toks : List Token) (i : Nat) (s : ModuleState) (j : Nat)
    (s' : ModuleState) : Prop :=
  ∃ t sites, toks[i]? = some t ∧ t.kind ≠ .kwEnd ∧ t.kind ≠ .eof ∧
    (parseItem s t).run pass toks i = .ok (s', j, sites)

inductive Way (pass : Site → Bool) (toks : List Token) (i : Nat) (s : ModuleState) :
    Nat → ModuleState → Prop where
  | here : Way pass toks i s i s
  | turn {j k : Nat} {s₁ s₂ : ModuleState} (way : Way pass toks i s j s₁)
      (turn : Turn pass toks j s₁ k s₂) : Way pass toks i s k s₂

def Begins (t : Token) : Prop :=
  isAttr t = true ∨ t.kind = .kwImport ∨ t.kind = .kwExport ∨
    ∀ attrs, (parseDecl attrs t.kind).isSome = true

/-- At a token where the loop stands: an item begins with it, or the module ends there and no
attribute waits. -/
def Expected (s : ModuleState) (t : Token) : Prop :=
  if t.kind = .kwEnd then s.pending.items = [] else Begins t

def NothingDropped (pass : Site → Bool) (toks : List Token) : Prop :=
  ∀ name h sites, parseHeader.run pass toks 0 = .ok (name, h, sites) →
    ∀ j s t, Way pass toks h ⟨.named name, .new⟩ j s → toks[j]? = some t → Expected s t

variable {i j k : Nat} {α β : Type} {w : FixedVec Range 256} {Q : α → Prop} {p : Piece}
  {ast : ModuleAst} {s' s : ModuleState} {t : Token} {ps qs : List Piece}

theorem run_look : look.run pass toks i = .ok ((toks[i]?).getD .eof, i, []) := rfl

theorem run_push {cap : Nat} {v w : FixedVec α cap} {x : α} {sites : List Site}
    (h : (push v x).run pass toks i = .ok (w, j, sites)) : w.items = v.items ++ [x] ∧ j = i := by
  unfold push at h
  split at h
  · rename_i w' hpush
    cases h
    exact ⟨FixedVec.push_eq_some.mp hpush, rfl⟩
  · cases h

def Gives {α : Type} (p : P α) (Q : α → Prop) : Prop :=
  ∀ pass toks i a j sites, p.run pass toks i = .ok (a, j, sites) → Q a

theorem Gives.bind {α β : Type} {p : P α} {f : α → P β} {Q : β → Prop}
    (h : ∀ a, Gives (f a) Q) : Gives (p >>= f) Q := by
  intro pass toks i b k sites hrun
  obtain ⟨a, j, l, l', -, hf, -⟩ := SiteParser.run_bind_eq_ok.mp hrun
  exact h a pass toks j b k l' hf

theorem Gives.pure {a : α} (h : Q a) : Gives (pure a : P α) Q := by
  intro pass toks i b j sites hrun
  cases hrun
  exact h

theorem Gives.ite {c : Prop} [Decidable c] {p q : P α} (hp : Gives p Q) (hq : Gives q Q) :
    Gives (if c then p else q) Q := by
  split
  · exact hp
  · exact hq

theorem Gives.andThen {p : P α} {f : α → P β} {R : β → Prop} (h : Gives p Q)
    (hf : ∀ a, Q a → Gives (f a) R) : Gives (p >>= f) R := by
  intro pass toks i b k sites hrun
  obtain ⟨a, j, l, l', ha, hb, -⟩ := SiteParser.run_bind_eq_ok.mp hrun
  exact hf a (h pass toks i a j l ha) pass toks j b k l' hb

/-! ## Declarations and their attributes -/

section Attributes

variable {attrs : FixedVec AttrAst 16}

theorem parseWordAst_attrs : Gives (parseWordAst attrs) fun d => d.attrs = attrs := by
  refine .bind fun _ => .bind fun _ => .bind fun _ => .ite ?signed ?unsigned
  case signed =>
    refine .bind fun _ => .bind fun _ => .bind fun _ => .bind fun _ => .ite ?_ ?_
    · exact .bind fun _ => .bind fun _ => .bind fun _ => .bind fun _ => .bind fun _ =>
        .bind fun _ => .pure rfl
    · exact .bind fun _ => .bind fun _ => .bind fun _ => .bind fun _ =>
        .bind fun _ => .pure rfl
  case unsigned =>
    refine .bind fun _ => .bind fun _ => .bind fun _ => .ite ?_ ?_
    · exact .bind fun _ => .bind fun _ => .bind fun _ => .bind fun _ => .bind fun _ =>
        .bind fun _ => .pure rfl
    · exact .bind fun _ => .bind fun _ => .bind fun _ => .bind fun _ =>
        .bind fun _ => .pure rfl

theorem parseStructDeclAst_attrs :
    Gives (parseStructDeclAst attrs) fun r => r.1.attrs = attrs :=
  .bind fun _ => .bind fun _ => .bind fun _ => .bind fun _ => .pure rfl

theorem parseEnumDeclAst_attrs :
    Gives (parseEnumDeclAst attrs) fun r => r.1.attrs = attrs := by
  refine .bind fun _ => .bind fun _ => .bind fun _ => .ite ?_ ?_
  · exact .bind fun _ => .bind fun _ => .bind fun _ => .bind fun _ => .pure rfl
  · exact .bind fun _ => .bind fun _ => .bind fun _ => .pure rfl

theorem parseRegisterMapDeclAst_attrs :
    Gives (parseRegisterMapDeclAst attrs) fun d => d.attrs = attrs :=
  .bind fun _ => .bind fun _ => .bind fun _ => .bind fun _ => .pure rfl

theorem parseSemiDeclAst_attrs {kind : Irgen.DeclKind} :
    Gives (parseSemiDeclAst kind attrs) fun d => d.attrs = attrs :=
  .bind fun _ => .bind fun _ => .bind fun _ => .pure rfl

theorem parseSubtypeDeclAst_attrs :
    Gives (parseSubtypeDeclAst attrs) fun r => r.1.attrs = attrs := by
  refine .bind fun _ => .bind fun _ => .bind fun _ => .bind fun _ => .bind fun _ =>
    .ite ?_ ?_
  · exact .bind fun _ => .bind fun _ => .bind fun _ => .bind fun _ => .bind fun _ => .pure rfl
  · exact .bind fun _ => .bind fun _ => .bind fun _ => .bind fun _ => .bind fun _ => .pure rfl

theorem parseConstDeclAst_attrs :
    Gives (parseConstDeclAst attrs) fun r => r.1.attrs = attrs := by
  refine .bind fun _ => .bind fun _ => .bind fun _ => .ite (.bind fun _ => .bind fun _ => ?_)
    (.bind fun _ => .bind fun _ => .pure rfl)
  refine .ite (.bind fun _ => .bind fun _ => .bind fun _ => ?_)
    (.bind fun _ => .bind fun _ => .pure rfl)
  refine .ite (.bind fun _ => .bind fun _ => .bind fun _ => .pure rfl)
    (.bind fun _ => .bind fun _ => .pure rfl)

theorem parseResourceDeclAst_attrs :
    Gives (parseResourceDeclAst attrs) fun d => d.attrs = attrs := by
  refine .bind fun _ => .bind fun _ => .bind fun _ => .ite ?_ ?_
  · exact .bind fun _ => .bind fun _ => .bind fun _ => .pure rfl
  · exact .bind fun _ => .bind fun _ => .pure rfl

theorem parseDecl_attrs {kind : TokenKind} {decl : P (DeclAst × Extra)}
    (h : parseDecl attrs kind = some decl) : Gives decl fun r => r.1.attrs = attrs := by
  unfold parseDecl at h
  split at h
  case h_1 =>
    cases h
    exact .andThen parseWordAst_attrs fun d hd => .pure hd
  case h_2 =>
    cases h
    exact .andThen parseStructDeclAst_attrs fun r hr => .pure hr
  case h_3 =>
    cases h
    exact .andThen parseEnumDeclAst_attrs fun r hr => .pure hr
  case h_4 =>
    cases h
    exact .andThen parseRegisterMapDeclAst_attrs fun d hd => .pure hd
  case h_5 | h_9 | h_10 =>
    cases h
    exact .andThen parseSemiDeclAst_attrs fun d hd => .pure hd
  case h_6 =>
    cases h
    exact .andThen parseSubtypeDeclAst_attrs fun r hr => .pure hr
  case h_7 =>
    cases h
    exact .andThen parseConstDeclAst_attrs fun r hr => .pure hr
  case h_8 =>
    cases h
    exact .andThen parseResourceDeclAst_attrs fun d hd => .pure hd
  case h_11 => cases h

end Attributes

/-! ## Items -/

def Takes (s : ModuleState) (owner : Owner) (s' : ModuleState) : Prop :=
  s'.ast.imports.items = s.ast.imports.items ++ owner.imports ∧
    s'.ast.decls.items = s.ast.decls.items ++ owner.decls ∧
    Exports s.ast.exports [⟨0, 0, owner⟩] s'.ast.exports ∧
    Attached s.pending.items [⟨0, 0, owner⟩] s'.pending.items

/-- The piece is read with the exports and the waiting attributes of the state. -/
def Owner.Sees (s : ModuleState) : Owner → Prop
  | .exp before _ => before = s.ast.exports
  | .decl d => d.attrs = s.pending
  | _ => True

theorem addExtra_run {ast' : ModuleAst} {extra : Extra} {sites : List Site}
    (h : (addExtra ast extra).run pass toks i = .ok (ast', j, sites)) :
    ast'.imports = ast.imports ∧ ast'.decls = ast.decls ∧ ast'.exports = ast.exports ∧ j = i := by
  cases extra with
  | none =>
    cases h
    exact ⟨rfl, rfl, rfl, rfl⟩
  | struct s | enum s | subtype s | inst s =>
    obtain ⟨v, k, l, l', hpush, hpure, -⟩ := SiteParser.run_bind_eq_ok.mp h
    cases hpure
    exact ⟨rfl, rfl, rfl, (run_push hpush).2⟩

theorem addDecl_run {d : DeclAst} {extra : Extra} {sites : List Site}
    (h : (addDecl ast d extra).run pass toks i = .ok (s', j, sites)) :
    s'.ast.imports = ast.imports ∧ s'.ast.decls.items = ast.decls.items ++ [d] ∧
      s'.ast.exports = ast.exports ∧ s'.pending = .new ∧ j = i := by
  obtain ⟨decls, k, l, l', hpush, hrest, -⟩ := SiteParser.run_bind_eq_ok.mp h
  obtain ⟨ast', k', m, m', hextra, hpure, -⟩ := SiteParser.run_bind_eq_ok.mp hrest
  obtain ⟨hitems, rfl⟩ := run_push hpush
  obtain ⟨himports, hdecls, hexports, rfl⟩ := addExtra_run hextra
  cases hpure
  refine ⟨himports, ?_, hexports, rfl, rfl⟩
  rw [hdecls]
  exact hitems

theorem parseItem_run {sites : List Site} (ht : toks[i]? = some t)
    (h : (parseItem s t).run pass toks i = .ok (s', j, sites)) :
    ¬ Begins t ∨ ∃ owner, (Piece.mk i j owner).Reads pass toks ∧ owner.Sees s ∧
      Takes s owner s' := by
  unfold parseItem at h
  by_cases hattr : isAttr t = true
  · rw [if_pos hattr] at h
    obtain ⟨attr, k, l, l', hparse, hrest, -⟩ := SiteParser.run_bind_eq_ok.mp h
    obtain ⟨pending, k', m, m', hpush, hpure, -⟩ := SiteParser.run_bind_eq_ok.mp hrest
    obtain ⟨hitems, rfl⟩ := run_push hpush
    cases hpure
    refine .inr ⟨.attr attr, ⟨t, l, ht, hattr, hparse⟩, trivial, ?_⟩
    exact ⟨(List.append_nil _).symm, (List.append_nil _).symm, rfl, hitems.symm⟩
  rw [if_neg hattr] at h
  by_cases himport : t.kind = .kwImport
  · rw [if_pos himport] at h
    obtain ⟨imp, k, l, l', hparse, hrest, -⟩ := SiteParser.run_bind_eq_ok.mp h
    obtain ⟨imports, k', m, m', hpush, hpure, -⟩ := SiteParser.run_bind_eq_ok.mp hrest
    obtain ⟨hitems, rfl⟩ := run_push hpush
    cases hpure
    refine .inr ⟨.imp imp, ⟨t, l, ht, himport, hparse⟩, trivial, ?_⟩
    exact ⟨hitems, (List.append_nil _).symm, rfl, rfl⟩
  rw [if_neg himport] at h
  by_cases hexport : t.kind = .kwExport
  · rw [if_pos hexport] at h
    obtain ⟨exports, k, l, l', hparse, hpure, -⟩ := SiteParser.run_bind_eq_ok.mp h
    cases hpure
    refine .inr ⟨.exp s.ast.exports exports, ⟨t, l, ht, hexport, hparse⟩, rfl, ?_⟩
    exact ⟨(List.append_nil _).symm, (List.append_nil _).symm, ⟨rfl, rfl⟩, rfl⟩
  rw [if_neg hexport] at h
  cases hdecl : parseDecl s.pending t.kind with
  | none =>
    left
    rintro (h' | h' | h' | h')
    · exact hattr h'
    · exact himport h'
    · exact hexport h'
    · have hsome : (parseDecl s.pending t.kind).isSome = true := h' s.pending
      rw [hdecl] at hsome
      cases hsome
  | some decl =>
    simp only [hdecl] at h
    obtain ⟨⟨d, extra⟩, k, l, l', hparse, hadd, -⟩ := SiteParser.run_bind_eq_ok.mp h
    obtain ⟨himports, hdecls, hexports, hpending, rfl⟩ := addDecl_run hadd
    have hattrs : d.attrs = s.pending := parseDecl_attrs hdecl _ _ _ _ _ _ hparse
    refine .inr ⟨.decl d, ⟨t, l, ht, decl, extra, ?_, hparse⟩, hattrs, ?_⟩
    · show parseDecl d.attrs t.kind = some decl
      rw [hattrs, hdecl]
    · refine ⟨?_, hdecls, hexports.symm, congrArg FixedVec.items hattrs, ?_⟩
      · rw [himports]
        exact (List.append_nil _).symm
      · rw [hpending]
        rfl

theorem parseDecl_isSome {attrs attrs' : FixedVec AttrAst 16} {kind : TokenKind}
    (h : (parseDecl attrs kind).isSome = true) : (parseDecl attrs' kind).isSome = true := by
  cases kind <;> first | rfl | cases h

theorem Piece.Reads.begins (h : p.Reads pass toks) : ∃ t, toks[p.start]? = some t ∧ Begins t := by
  obtain ⟨t, sites, ht, h⟩ := h
  refine ⟨t, ht, ?_⟩
  obtain ⟨start, stop, owner⟩ := p
  cases owner with
  | attr a => exact .inl h.1
  | imp i => exact .inr (.inl h.1)
  | exp before after => exact .inr (.inr (.inl h.1))
  | decl d =>
    obtain ⟨decl, extra, hdecl, -⟩ := h
    have hsome : (parseDecl d.attrs t.kind).isSome = true := by
      rw [hdecl]
      rfl
    exact .inr (.inr (.inr fun attrs => parseDecl_isSome hsome))

theorem Begins.kind_ne (h : Begins t) : t.kind ≠ .kwEnd := by
  intro hend
  obtain h | h | h | h := h
  · rw [isAttr, hend] at h
    cases h
  · rw [hend] at h
    cases h
  · rw [hend] at h
    cases h
  · have hsome : (parseDecl .new t.kind).isSome = true := h .new
    rw [hend] at hsome
    cases hsome

def TokenKind.piece : TokenKind → Nat
  | .ident => 0
  | .kwImport => 1
  | .kwExport => 2
  | _ => 3

def Owner.piece : Owner → Nat
  | .attr _ => 0
  | .imp _ => 1
  | .exp _ _ => 2
  | .decl _ => 3

theorem Piece.Reads.kind (h : p.Reads pass toks) (ht : toks[p.start]? = some t) :
    p.owner.piece = t.kind.piece := by
  obtain ⟨u, sites, hu, h⟩ := h
  obtain rfl : u = t := Option.some.inj (hu.symm.trans ht)
  obtain ⟨start, stop, owner⟩ := p
  cases owner with
  | attr a =>
    have hkind : u.kind = .ident := by
      have hattr := h.1
      rw [isAttr, Bool.and_eq_true] at hattr
      exact beq_iff_eq.mp hattr.1
    rw [hkind]
    rfl
  | imp i =>
    rw [h.1]
    rfl
  | exp before after =>
    rw [h.1]
    rfl
  | decl d =>
    obtain ⟨decl, extra, hdecl, -⟩ := h
    show 3 = u.kind.piece
    cases hkind : u.kind <;> rw [hkind] at hdecl <;> first | rfl | cases hdecl

theorem Piece.Reads.unique {q : Piece} (hp : p.Reads pass toks) (hq : q.Reads pass toks)
    (hstart : p.start = q.start) (hps : p.owner.Sees s) (hqs : q.owner.Sees s) : p = q := by
  have hpiece : p.owner.piece = q.owner.piece := by
    obtain ⟨t, ht, -⟩ := hp.begins
    rw [hp.kind ht, hq.kind (hstart ▸ ht)]
  obtain ⟨t, l, ht, hp⟩ := hp
  obtain ⟨u, m, hu, hq⟩ := hq
  obtain ⟨start, stop, owner⟩ := p
  obtain ⟨start', stop', owner'⟩ := q
  obtain rfl : start = start' := hstart
  obtain rfl : t = u := Option.some.inj (ht.symm.trans hu)
  cases owner <;> cases owner' <;> try cases hpiece
  case attr.attr a b =>
    cases SiteParser.run_unique hp.2 hq.2
    rfl
  case imp.imp a b =>
    cases SiteParser.run_unique hp.2 hq.2
    rfl
  case exp.exp before after before' after' =>
    obtain rfl : before = before' := hps.trans hqs.symm
    cases SiteParser.run_unique hp.2 hq.2
    rfl
  case decl.decl d e =>
    obtain ⟨decl, extra, hdecl, hp⟩ := hp
    obtain ⟨decl', extra', hdecl', hq⟩ := hq
    rw [show d.attrs = s.pending from hps] at hdecl
    rw [show e.attrs = s.pending from hqs] at hdecl'
    obtain rfl : decl = decl' := Option.some.inj (hdecl.symm.trans hdecl')
    cases SiteParser.run_unique hp hq
    rfl

def Advances {α : Type} (p : P α) : Prop :=
  ∀ pass toks i a j sites, i < toks.length → p.run pass toks i = .ok (a, j, sites) → i < j

theorem Advances.first {p : P α} {f : α → P β} (h : Advances p) : Advances (p >>= f) := by
  intro pass toks i b k sites hi hrun
  obtain ⟨a, j, l, l', ha, hb, -⟩ := SiteParser.run_bind_eq_ok.mp hrun
  exact (h pass toks i a j l hi ha).trans_le ((f a).forward _ _ _ _ hb).1

theorem advances_bump : Advances bump := by
  intro pass toks i a j sites hi hrun
  cases hrun
  omega

theorem Advances.afterPos {f : Nat → P β} (h : ∀ n, Advances (f n)) : Advances (pos >>= f) := by
  intro pass toks i b k sites hi hrun
  obtain ⟨a, j, l, l', ha, hb, -⟩ := SiteParser.run_bind_eq_ok.mp hrun
  cases ha
  exact h _ _ _ _ _ _ _ hi hb

theorem parseDecl_advances {attrs : FixedVec AttrAst 16} {kind : TokenKind}
    {decl : P (DeclAst × Extra)} (h : parseDecl attrs kind = some decl) : Advances decl := by
  unfold parseDecl at h
  split at h <;> cases h
  -- all declarations begin with a token that is taken
  all_goals exact .first (.first advances_bump)

theorem Piece.Reads.lt (h : p.Reads pass toks) : p.start < p.stop := by
  obtain ⟨t, sites, ht, h⟩ := h
  obtain ⟨hlen, -⟩ := List.getElem?_eq_some_iff.mp ht
  obtain ⟨start, stop, owner⟩ := p
  cases owner with
  | attr a =>
    have hadv : Advances (parseAttr t) := .afterPos fun n => .first advances_bump
    exact hadv _ _ _ _ _ _ hlen h.2
  | imp i =>
    have hadv : Advances parseImportAst := .first advances_bump
    exact hadv _ _ _ _ _ _ hlen h.2
  | exp before after =>
    have hadv : Advances (parseExportAst before) := .first advances_bump
    exact hadv _ _ _ _ _ _ hlen h.2
  | decl d =>
    obtain ⟨decl, extra, hdecl, hrun⟩ := h
    exact parseDecl_advances hdecl _ _ _ _ _ _ hlen hrun

/-! ## Pieces along the way -/

structure Pieces (pass : Site → Bool) (toks : List Token) (i : Nat) (s : ModuleState)
    (pieces : List Piece) (j : Nat) (s' : ModuleState) : Prop where
  tiles : Tiles i pieces j
  reads : ∀ p ∈ pieces, p.Reads pass toks
  imports : s'.ast.imports.items = s.ast.imports.items ++ pieces.flatMap fun p => p.owner.imports
  decls : s'.ast.decls.items = s.ast.decls.items ++ pieces.flatMap fun p => p.owner.decls
  exports : Exports s.ast.exports pieces s'.ast.exports
  attached : Attached s.pending.items pieces s'.pending.items

theorem Tiles.append (h : Tiles i ps j) (h' : Tiles j qs k) : Tiles i (ps ++ qs) k := by
  induction ps generalizing i with
  | nil =>
    obtain rfl : i = j := h
    exact h'
  | cons p ps ih => exact ⟨h.1, h.2.1, ih h.2.2⟩

theorem Exports.append {u v : FixedVec Range 256} (h : Exports u ps v) (h' : Exports v qs w) :
    Exports u (ps ++ qs) w := by
  induction ps generalizing u with
  | nil =>
    obtain rfl : u = v := h
    exact h'
  | cons p ps ih =>
    obtain ⟨start, stop, owner⟩ := p
    cases owner with
    | exp before after => exact ⟨h.1, ih h.2⟩
    | attr a | imp i | decl d => exact ih h

theorem Attached.append {u v w : List AttrAst} (h : Attached u ps v) (h' : Attached v qs w) :
    Attached u (ps ++ qs) w := by
  induction ps generalizing u with
  | nil =>
    obtain rfl : u = v := h
    exact h'
  | cons p ps ih =>
    obtain ⟨start, stop, owner⟩ := p
    cases owner with
    | decl d => exact ⟨h.1, ih h.2⟩
    | attr a | imp i | exp before after => exact ih h

theorem Pieces.nil : Pieces pass toks i s [] i s where
  tiles := rfl
  reads _ hp := nomatch hp
  imports := (List.append_nil _).symm
  decls := (List.append_nil _).symm
  exports := rfl
  attached := rfl

theorem Pieces.snoc {s'' : ModuleState} (h : Pieces pass toks i s ps j s') (hstart : p.start = j)
    (hp : p.Reads pass toks) (htakes : Takes s' p.owner s'') :
    Pieces pass toks i s (ps ++ [p]) p.stop s'' := by
  obtain ⟨himports, hdecls, hexports, hattached⟩ := htakes
  refine ⟨h.tiles.append ⟨hstart, hstart ▸ hp.lt, rfl⟩, ?_, ?_, ?_, ?_, ?_⟩
  · intro q hq
    rw [List.mem_append, List.mem_singleton] at hq
    obtain hq | rfl := hq
    · exact h.reads q hq
    · exact hp
  · rw [himports, h.imports, List.append_assoc, List.flatMap_append, List.flatMap_singleton]
  · rw [hdecls, h.decls, List.append_assoc, List.flatMap_append, List.flatMap_singleton]
  · refine h.exports.append ?_
    obtain ⟨start, stop, owner⟩ := p
    cases owner <;> exact hexports
  · refine h.attached.append ?_
    obtain ⟨start, stop, owner⟩ := p
    cases owner <;> exact hattached

theorem Way.pieces (way : Way pass toks i s j s')
    (h : ∀ k u t, Way pass toks i s k u → toks[k]? = some t → Expected u t) :
    ∃ ps, Pieces pass toks i s ps j s' := by
  induction way with
  | here => exact ⟨[], .nil⟩
  | turn way turn ih =>
    rename_i j k u u'
    obtain ⟨ps, hps⟩ := ih
    obtain ⟨t, sites, ht, hend, -, hrun⟩ := turn
    have hbegins : Begins t := by
      have hexpected : Expected u t := h j u t way ht
      rwa [Expected, if_neg hend] at hexpected
    obtain hnot | ⟨owner, hreads, -, htakes⟩ := parseItem_run ht hrun
    · exact absurd hbegins hnot
    · exact ⟨ps ++ [⟨j, k, owner⟩], hps.snoc rfl hreads htakes⟩

structure Ahead (pass : Site → Bool) (toks : List Token) (i : Nat) (s : ModuleState)
    (pieces : List Piece) (j : Nat) (w : FixedVec Range 256) : Prop where
  tiles : Tiles i pieces j
  reads : ∀ p ∈ pieces, p.Reads pass toks
  exports : Exports s.ast.exports pieces w
  attached : Attached s.pending.items pieces []

theorem Ahead.sees (h : Ahead pass toks i s (p :: ps) j w) : p.owner.Sees s := by
  obtain ⟨-, -, hexports, hattached⟩ := h
  obtain ⟨start, stop, owner⟩ := p
  cases owner with
  | attr a => trivial
  | imp i => trivial
  | exp before after => exact hexports.1
  | decl d =>
    have hitems : d.attrs.items = s.pending.items := hattached.1
    show d.attrs = s.pending
    cases hd : d.attrs
    cases hs : s.pending
    rw [hd, hs] at hitems
    cases hitems
    rfl

theorem Ahead.turn (h : Ahead pass toks i s ps j w) (hj : ∃ t, toks[j]? = some t ∧ t.kind = .kwEnd)
    (turn : Turn pass toks i s k s') : ∃ qs, Ahead pass toks k s' qs j w := by
  obtain ⟨t, sites, ht, hend, -, hrun⟩ := turn
  cases ps with
  | nil =>
    obtain rfl : i = j := h.tiles
    obtain ⟨u, hu, hkind⟩ := hj
    obtain rfl : t = u := Option.some.inj (ht.symm.trans hu)
    exact absurd hkind hend
  | cons p ps =>
    obtain ⟨hstart, hlt, htiles⟩ := h.tiles
    have hp : p.Reads pass toks := h.reads p List.mem_cons_self
    obtain hnot | ⟨owner, hreads, hsees, -, -, hexports, hattached⟩ := parseItem_run ht hrun
    · obtain ⟨u, hu, hbegins⟩ := hp.begins
      rw [hstart] at hu
      obtain rfl : t = u := Option.some.inj (ht.symm.trans hu)
      exact absurd hbegins hnot
    · obtain rfl : p = ⟨i, k, owner⟩ := hp.unique hreads hstart h.sees hsees
      refine ⟨ps, htiles, fun q hq => h.reads q (List.mem_cons_of_mem _ hq), ?_, ?_⟩
      · have hrest := h.exports
        cases owner with
        | exp before after =>
          obtain rfl : after = s'.ast.exports := hexports.2
          exact hrest.2
        | attr a | imp i | decl d =>
          rw [show s.ast.exports = s'.ast.exports from hexports] at hrest
          exact hrest
      · have hrest := h.attached
        cases owner with
        | decl d =>
          rw [← show [] = s'.pending.items from hattached.2]
          exact hrest.2
        | attr a =>
          rw [← show s.pending.items ++ [a] = s'.pending.items from hattached]
          exact hrest
        | imp i | exp before after =>
          rw [← show s.pending.items = s'.pending.items from hattached]
          exact hrest

theorem Way.ahead (h : Ahead pass toks i s ps j w) (hj : ∃ t, toks[j]? = some t ∧ t.kind = .kwEnd)
    (way : Way pass toks i s k s') : ∃ qs, Ahead pass toks k s' qs j w := by
  induction way with
  | here => exact ⟨ps, h⟩
  | turn way turn ih =>
    obtain ⟨qs, hqs⟩ := ih
    exact hqs.turn hj turn

theorem Ahead.expected (h : Ahead pass toks i s ps j w)
    (hj : ∃ u, toks[j]? = some u ∧ u.kind = .kwEnd) (ht : toks[i]? = some t) : Expected s t := by
  cases ps with
  | nil =>
    obtain rfl : i = j := h.tiles
    obtain ⟨u, hu, hkind⟩ := hj
    obtain rfl : t = u := Option.some.inj (ht.symm.trans hu)
    rw [Expected, if_pos hkind]
    exact h.attached
  | cons p ps =>
    obtain ⟨u, hu, hbegins⟩ := (h.reads p List.mem_cons_self).begins
    rw [h.tiles.1] at hu
    obtain rfl : t = u := Option.some.inj (ht.symm.trans hu)
    rw [Expected, if_neg hbegins.kind_ne]
    exact hbegins

/-! ## The whole module -/

theorem turns_way {e : ParseError} {u v : ModuleState} {n : Nat} {sites : List Site}
    (way : Way pass toks i s j u) (h : (SiteParser.turns e (fun s : ModuleState => do
      let t ← look
      if t.kind = .kwEnd ∨ t.kind = .eof then pure (.inr s)
      else do
        let s ← parseItem s t
        pure (.inl s)) n u).run pass toks j = .ok (v, k, sites)) : Way pass toks i s k v := by
  induction n generalizing j u sites with
  | zero => cases h
  | succ n ih =>
    obtain ⟨next, j', l, l', hbody, hrest, -⟩ := SiteParser.run_bind_eq_ok.mp h
    obtain ⟨t, j₁, m, m', hlook, hbody, -⟩ := SiteParser.run_bind_eq_ok.mp hbody
    rw [run_look] at hlook
    cases hlook
    by_cases hstop : ((toks[j]?).getD .eof).kind = .kwEnd ∨ ((toks[j]?).getD .eof).kind = .eof
    · rw [if_pos hstop] at hbody
      cases hbody
      cases hrest
      exact way
    · rw [if_neg hstop] at hbody
      obtain ⟨u', j₂, o, o', hitem, hpure, -⟩ := SiteParser.run_bind_eq_ok.mp hbody
      cases hpure
      cases ht : toks[j]? with
      | none =>
        rw [ht] at hstop
        exact absurd (.inr rfl) hstop
      | some t =>
        rw [ht] at hitem hstop
        rw [not_or] at hstop
        exact ih (way.turn ⟨t, o, ht, hstop.1, hstop.2, hitem⟩) hrest

theorem parseItems_way {sites : List Site} (h : (parseItems s).run pass toks i = .ok (s', j, sites))
    :
    Way pass toks i s j s' := by
  unfold parseItems loop at h
  rw [SiteParser.run_loop] at h
  exact turns_way .here h

theorem run_eat {kind : TokenKind} {e : ParseError} {r : Range} {sites : List Site}
    (hkind : kind ≠ .eof) (h : (eat kind e).run pass toks i = .ok (r, j, sites)) :
    ∃ t, toks[i]? = some t ∧ t.kind = kind := by
  obtain ⟨_, k, l, l', hexpect, -, -⟩ := SiteParser.run_bind_eq_ok.mp h
  obtain ⟨t, k', m, m', hlook, hif, -⟩ := SiteParser.run_bind_eq_ok.mp hexpect
  rw [run_look] at hlook
  cases hlook
  by_cases hfound : ((toks[i]?).getD .eof).kind = kind
  · cases ht : toks[i]? with
    | none =>
      rw [ht] at hfound
      exact absurd hfound.symm hkind
    | some t =>
      rw [ht] at hfound
      exact ⟨t, rfl, hfound⟩
  · rw [if_neg hfound] at hif
    cases hif

theorem parseModuleAst_way {src : Bytes} (h : parseModuleAst src = .ok ast) :
    ∃ name i sites j s, parseHeader.run (passes src) (tokens src) 0 = .ok (name, i, sites) ∧
      Way (passes src) (tokens src) i ⟨.named name, .new⟩ j s ∧
      (∃ t, (tokens src)[j]? = some t ∧ t.kind = .kwEnd) ∧ s.ast = ast := by
  unfold parseModuleAst at h
  split at h
  case h_2 => cases h
  case h_1 tree stop sites hrun =>
    cases h
    obtain ⟨name, i, l, l', hheader, hrest, -⟩ := SiteParser.run_bind_eq_ok.mp hrun
    obtain ⟨s, j, m, m', hitems, hrest, -⟩ := SiteParser.run_bind_eq_ok.mp hrest
    obtain ⟨r, k, o, o', hend, hrest, -⟩ := SiteParser.run_bind_eq_ok.mp hrest
    obtain ⟨r', k', q, q', -, hpure, -⟩ := SiteParser.run_bind_eq_ok.mp hrest
    cases hpure
    have hend : ∃ t, (tokens src)[j]? = some t ∧ t.kind = .kwEnd := run_eat (by decide) hend
    exact ⟨name, i, l, j, s, hheader, parseItems_way hitems, hend, rfl⟩

/-- Everything between the header of an accepted source and its `end` is in the tree. -/
def Kept (src : Bytes) (ast : ModuleAst) : Prop :=
  ∃ name i sites j t, parseHeader.run (passes src) (tokens src) 0 = .ok (name, i, sites) ∧
    (tokens src)[j]? = some t ∧ t.kind = .kwEnd ∧ AllKept (passes src) (tokens src) i j ast

theorem Kept.ahead {src : Bytes} (h : Kept src ast) {name : Range} {sites : List Site}
    (hheader : parseHeader.run (passes src) (tokens src) 0 = .ok (name, i, sites)) :
    ∃ ps j, Ahead (passes src) (tokens src) i ⟨.named name, .new⟩ ps j ast.exports ∧
      ∃ t, (tokens src)[j]? = some t ∧ t.kind = .kwEnd := by
  obtain ⟨name', i', l, j, t, hheader', ht, hend, ps, htiles, hreads, -, -, hexports, hattached⟩ := h
  cases SiteParser.run_unique hheader hheader'
  exact ⟨ps, j, ⟨htiles, hreads, hexports, hattached⟩, t, ht, hend⟩

def mistypedWord : Bytes := ascii "module m; wrd f; end;"

theorem mistypedWord_accepted : parseModuleAst mistypedWord = .ok (.named ⟨1, 2⟩) := by
  decide

end Tyu.Frontend
