import Tyu.Frontend.Parser

/-! # Layout -/

namespace Tyu.Frontend

open Lib

def SameTokens (s t : Bytes) : Prop := tokens s = tokens t

def ModuleAst.names (a : ModuleAst) : List Range :=
  a.name :: a.imports.items.flatMap (fun i => i.module :: i.names.items) ++ a.exports.items ++
    a.decls.items.map DeclAst.name

/-- What the parser accepts and what it makes of it does not depend on the layout.  Ranges count
tokens, so that equal trees cover corresponding tokens of the two sources. -/
def LayoutFree (s t : Bytes) : Prop :=
  ((∃ a, parseModuleAst s = .ok a) ↔ ∃ b, parseModuleAst t = .ok b) ∧
    ∀ a b, parseModuleAst s = .ok a → parseModuleAst t = .ok b →
      a = b ∧ ∀ r ∈ a.names, bytesAt s r = bytesAt t r

/-- The tree of a list of tokens when every clause is let through, and the clauses and arguments
that the parser meets in it. -/
def TokenTree (toks : List Token) (a : ModuleAst) (sites : List Site) : Prop :=
  ∃ stop, parseModule.run (fun _ => true) toks 0 = .ok (a, stop, sites)

theorem TokenTree.unique {toks : List Token} {a b : ModuleAst} {l m : List Site}
    (ha : TokenTree toks a l) (hb : TokenTree toks b m) : a = b ∧ l = m := by
  obtain ⟨i, ha⟩ := ha
  obtain ⟨j, hb⟩ := hb
  have h := SiteParser.run_unique ha hb
  rw [Prod.mk.injEq, Prod.mk.injEq] at h
  exact ⟨h.1, h.2.2⟩

theorem parseModuleAst_eq_ok {src : Bytes} {a : ModuleAst} : parseModuleAst src = .ok a ↔
    ∃ sites, TokenTree (tokens src) a sites ∧ sites.all (passes src) = true := by
  have hrun : parseModuleAst src = .ok a ↔
      ∃ stop sites, parseModule.run (passes src) (tokens src) 0 = .ok (a, stop, sites) := by
    unfold parseModuleAst
    constructor
    · intro h
      split at h
      · rename_i b stop sites hrun
        cases h
        exact ⟨stop, sites, hrun⟩
      · cases h
    · rintro ⟨stop, sites, h⟩
      rw [h]
  rw [hrun]
  constructor
  · rintro ⟨stop, sites, h⟩
    obtain ⟨htree, hall⟩ := (parseModule.checked _ _ _ _).mp h
    exact ⟨sites, ⟨stop, htree⟩, hall⟩
  · rintro ⟨sites, ⟨stop, htree⟩, hall⟩
    exact ⟨stop, sites, (parseModule.checked _ _ _ _).mpr ⟨htree, hall⟩⟩

theorem bytesAt_token {src : Bytes} {i : Nat} :
    bytesAt src ⟨i, i + 1⟩ = (((tokens src)[i]?).map Token.text).getD [] := by
  show (if i < i + 1 then _ else _) = _
  rw [if_pos (Nat.lt_succ_self i), Nat.add_sub_cancel, tokens, List.getElem?_map]
  cases hp : (lex src)[i]? with
  | none => rfl
  | some p => exact slice_lex (List.mem_of_getElem? hp)

theorem bytesAt_single {s t : Bytes} (h : SameTokens s t) {r : Range} (hr : r.stop ≤ r.start + 1) :
    bytesAt s r = bytesAt t r := by
  obtain ⟨start, stop⟩ := r
  by_cases hempty : start < stop
  · obtain rfl : stop = start + 1 := by
      have hr' : stop ≤ start + 1 := hr
      omega
    rw [bytesAt_token, bytesAt_token, show tokens s = tokens t from h]
  · have hnone : ∀ src, bytesAt src ⟨start, stop⟩ = [] := fun src => if_neg hempty
    rw [hnone, hnone]

/-- `module a/b; end;` with and without spaces around the slash. -/
def tightPath : Bytes := ascii "module a/b; end;"
def loosePath : Bytes := ascii "module a / b; end;"

def pathTree : ModuleAst := .named ⟨1, 4⟩

theorem tightPath_tree : TokenTree (tokens tightPath) pathTree [] := by
  have hrun : parseModule.run (fun _ => true) (tokens tightPath) 0 = .ok (pathTree, 7, []) := by
    decide
  exact ⟨7, hrun⟩

theorem same_path : SameTokens tightPath loosePath := by
  show tokens tightPath = tokens loosePath
  decide

theorem path_bytes : bytesAt tightPath ⟨1, 4⟩ ≠ bytesAt loosePath ⟨1, 4⟩ := by decide

end Tyu.Frontend
