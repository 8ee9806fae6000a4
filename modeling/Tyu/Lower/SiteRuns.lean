import Tyu.Lower.Walk

/-! # The sites of a word -/

namespace Tyu

open Lib Obl

structure SiteCall where
  kind : Kind
  formula : Formula
  inTree : Option InTreeVerdict

namespace Session

def site (sha : Digest) (s : Session) (c : SiteCall) : Session :=
  (s.closeSite sha c.kind c.formula c.inTree).2

def sites (sha : Digest) (s : Session) (cs : List SiteCall) : Session := cs.foldl (site sha) s

end Session

namespace Irgen

/-- Between two states of the lowering sites are closed, and the session is else the same. -/
def Gen.Sites (sha : Digest) (g g' : Gen) : Prop := ∃ cs, g'.session = g.session.sites sha cs

variable {sha : Digest}

theorem Gen.Sites.same {g g' : Gen} (h : g'.session = g.session) : Gen.Sites sha g g' := ⟨[], h⟩

instance : Std.Refl (Gen.Sites sha) := ⟨fun _ => .same rfl⟩

instance : IsTrans Gen (Gen.Sites sha) where
  trans := by
    rintro g g' g'' ⟨cs, h⟩ ⟨cs', h'⟩
    refine ⟨cs ++ cs', ?_⟩
    rw [h', h, Session.sites, Session.sites, Session.sites, List.foldl_append]

abbrev Sited (sha : Digest) {α : Type} (m : GenM α) : Prop := Along (Gen.Sites sha) m

instance : Blind (Gen.Sites sha) := ⟨fun _ h => .same h⟩

instance : Loose (Gen.Sites sha) := ⟨fun _ h => .same h⟩

theorem sited_closeSite {Γ : Env} (kind : Kind) (formula : Formula) (inTree : Option InTreeVerdict) :
    Sited Γ.digest (closeSite Γ kind formula inTree) := by
  refine ⟨fun g a g' h => ?_⟩
  cases h
  exact ⟨[⟨kind, formula, inTree⟩], rfl⟩

instance {Γ : Env} : Straight Γ (Gen.Sites Γ.digest) := .ofBlind sited_closeSite

section Control

variable {Γ : Env} {compile : Compile} [hcompile : ∀ cur r b, Sited Γ.digest (compile cur r b)]
  {cur : BlockId} {lex : Cursor} {span : Span} {name : String} {e e' : TcError}

omit hcompile in
instance {acc : StackBound} {base : List Value} {header bodyEnd after : BlockId} :
    Sited Γ.digest (closeLoop Γ acc base header bodyEnd after e e' span) := by
  unfold closeLoop
  repeat refine .seq inferInstance fun _ => ?_
  infer_instance

instance {isMut allow : Bool} : Sited Γ.digest (compileScopedBlock Γ compile cur lex isMut allow span) := by
  unfold compileScopedBlock
  repeat refine .seq inferInstance fun _ => ?_
  infer_instance

omit hcompile in
instance : Sited Γ.digest (compileEnvWord Γ cur name span) := by
  unfold compileEnvWord
  repeat refine .seq inferInstance fun _ => ?_
  dsimp only
  split
  · refine .seq inferInstance fun _ => ?_
    split <;> infer_instance
  · split <;> infer_instance

instance : Controls Γ compile (Gen.Sites Γ.digest) where
  cond _ _ := inferInstance
  loop _ _ := inferInstance
  whileLoop _ _ := inferInstance
  lock _ _ := inferInstance
  scopedBlock _ _ _ _ _ := inferInstance
  word _ _ _ := inferInstance
  callQuote _ _ := inferInstance
  taskSpawn _ _ := inferInstance
  taskRun _ := inferInstance

end Control

instance sited_compileSpan {Γ : Env} {fuel : Nat} {cur : BlockId} {r : Range} {allow : Bool} :
    Sited Γ.digest (compileSpan Γ fuel cur r allow) :=
  along_compileSpan (fun _ _ => inferInstance) fuel cur r allow

theorem buildIrWord_sites {Γ : Env} {fuel : Nat} {session : Session} {decl : Decl} {sig : WordSig}
    {out : IrWordOutput} (h : buildIrWord Γ fuel session decl sig = .ok out) :
    ∃ cs, out.session = session.sites Γ.digest cs := by
  unfold buildIrWord at h
  obtain ⟨name, -, h⟩ := bind_eq_ok.mp h
  obtain ⟨⟨word, g⟩, hrun, h⟩ := bind_eq_ok.mp h
  cases h
  have hbody : Sited Γ.digest (wordBody Γ (compileSpan Γ fuel) decl) := inferInstance
  exact hbody.run _ _ _ hrun

end Irgen

end Tyu
