import Tyu.Lower.Declared
import Tyu.Lower.Interface

/-!
# Separate compilation

A caller is checked with what the interface of a module declares of a word; the module itself is
compiled to a word with computed effects and a computed bound.
-/

namespace Tyu.Irgen

open Lib

structure WordEntry.Covers (e : WordEntry) (w : Word) : Prop where
  performs : (w.performs.minus e.performs).isEmpty = true
  high : w.bound.high.exceeds e.bound.high = false

structure WordEntry.Below (e e' : WordEntry) : Prop where
  name : e'.name = e.name
  performs : (e.performs.minus e'.performs).isEmpty = true
  high : e.bound.high.exceeds e'.bound.high = false

section

variable {a b c : EffectSet} {h₁ h₂ h₃ : High} {e e' e'' : WordEntry} {w : Word}

theorem minus_isEmpty : (a.minus b).isEmpty = true ↔
    ∀ i, a.bits.getLsbD i = true → b.bits.getLsbD i = true := by
  rw [EffectSet.isEmpty, EffectSet.minus, beq_iff_eq]
  constructor
  · intro h i hi
    have hbit := congrArg (fun x => BitVec.getLsbD x i) h
    have hlt := BitVec.lt_of_getLsbD hi
    simpa [hi, hlt] using hbit
  · intro h
    apply BitVec.eq_of_getLsbD_eq
    intro i hi
    have := h i
    simp only [BitVec.getLsbD_and, BitVec.getLsbD_not, hi, BitVec.getLsbD_zero]
    grind

theorem minus_trans (hab : (a.minus b).isEmpty = true) (hbc : (b.minus c).isEmpty = true) :
    (a.minus c).isEmpty = true := by
  rw [minus_isEmpty] at hab hbc ⊢
  exact fun i hi => hbc i (hab i hi)

theorem minus_self : (a.minus a).isEmpty = true := minus_isEmpty.mpr fun _ hi => hi

theorem minus_union : (a.minus (a.union b)).isEmpty = true := by
  rw [minus_isEmpty]
  intro i hi
  rw [EffectSet.union, BitVec.getLsbD_or, hi, Bool.true_or]

theorem exceeds_trans (h₁₂ : h₁.exceeds h₂ = false) (h₂₃ : h₂.exceeds h₃ = false) :
    h₁.exceeds h₃ = false := by
  cases h₁ <;> cases h₂ <;> cases h₃ <;>
    simp_all only [High.exceeds, decide_eq_false_iff_not, reduceCtorEq]
  omega

theorem exceeds_self : h₁.exceeds h₁ = false := by
  cases h₁ <;> simp [High.exceeds]

theorem exceeds_maxHigh : h₁.exceeds (maxHigh h₁ h₂) = false := by
  cases h₁ <;> cases h₂ <;> simp [High.exceeds, maxHigh]

theorem WordEntry.Below.refl : e.Below e := ⟨rfl, minus_self, exceeds_self⟩

theorem WordEntry.Below.trans (h : e.Below e') (h' : e'.Below e'') : e.Below e'' :=
  ⟨h'.name.trans h.name, minus_trans h.performs h'.performs, exceeds_trans h.high h'.high⟩

theorem WordEntry.below_merge : e.Below (e.merge w) := ⟨rfl, minus_union, exceeds_maxHigh⟩

theorem WordEntry.Covers.below (h : e.Covers w) (hle : e.Below e') : e'.Covers w :=
  ⟨minus_trans h.performs hle.performs, exceeds_trans h.high hle.high⟩

end

section Summaries

variable {Γ : Env} {fuel : Nat} {checks : ChecksMode} {decls : List Decl}
  {env env' env'' : List WordEntry}

abbrev Grown (env env' : List WordEntry) : Prop := List.Forall₂ WordEntry.Below env env'

theorem grown_refl (env : List WordEntry) : Grown env env := by
  induction env with
  | nil => exact .nil
  | cons e env ih => exact .cons .refl ih

theorem Grown.trans (h : Grown env env') (h' : Grown env' env'') : Grown env env'' := by
  induction h generalizing env'' with
  | nil => exact h'
  | cons he _ ih =>
    cases h' with
    | cons he' hrest => exact .cons (he.trans he') (ih hrest)

theorem grown_merge (name : String) (w : Word) (env : List WordEntry) :
    Grown env (mergeWordSummary name w env).1 := by
  induction env with
  | nil => exact .nil
  | cons e env ih =>
    unfold mergeWordSummary
    split
    · exact .cons WordEntry.below_merge (grown_refl env)
    · exact .cons .refl ih

theorem grown_summaryPass {changed : Bool} {out : List WordEntry × Bool}
    (h : summaryPass Γ fuel checks decls env changed = .ok out) : Grown env out.1 := by
  induction decls generalizing env changed with
  | nil =>
    cases h
    exact grown_refl env
  | cons decl rest ih =>
    unfold summaryPass at h
    split at h
    · exact ih h
    · obtain ⟨sig, -, h⟩ := bind_eq_ok.mp h
      obtain ⟨word, -, h⟩ := bind_eq_ok.mp h
      exact (grown_merge decl.name word.word env).trans (ih h)

theorem grown_localSummaryEnv {passes : Nat}
    (h : localSummaryEnv Γ fuel checks decls passes env = .ok env') : Grown env env' := by
  induction passes generalizing env with
  | zero => cases h
  | succ passes ih =>
    unfold localSummaryEnv at h
    obtain ⟨⟨next, changed⟩, hpass, h⟩ := bind_eq_ok.mp h
    have hgrown := grown_summaryPass hpass
    dsimp only at h
    split at h
    · exact hgrown.trans (ih h)
    · cases h
      exact hgrown

theorem Grown.lookup {name : String} {e : WordEntry} (h : Grown env env')
    (he : lookup env name = some e) : ∃ e', lookup env' name = some e' ∧ e.Below e' := by
  induction h with
  | nil => cases he
  | @cons x y xs ys hxy _ ih =>
    unfold Irgen.lookup at he ⊢
    rw [List.find?_cons] at he ⊢
    rw [hxy.name]
    split at he
    · rename_i hname
      cases he
      exact ⟨y, rfl, hxy⟩
    · exact ih he

end Summaries

/-! ## What a name means to a caller -/

section Scope

variable {b : Build} {files : Files} {src : Source} {d : DeclAst} {scope scope' : List WordEntry}
  {badSig full badName : Nat} {name : String} {e : WordEntry} {m defAst : ModuleAst}

theorem lookup_append_some {xs ys : List WordEntry} (h : lookup xs name = some e) :
    lookup (xs ++ ys) name = some e := by
  unfold lookup at h ⊢
  rw [List.find?_append, h]
  rfl

theorem enterWord_run (h : enterWord b src badSig full badName d scope = .ok scope') :
    (scope' = scope ∧ (d.kind = .word → d.sig = none)) ∨
      ∃ nm sig, d.kind = .word ∧ d.sig.isSome = true ∧ nm.text = d.name ∧
        scope' = scope ++ [entryOf b src d nm sig] := by
  unfold enterWord at h
  split at h
  · rename_i hkind
    cases h
    exact .inl ⟨rfl, fun hword => absurd hword hkind⟩
  · rename_i hkind
    cases hsig : d.sig with
    | none =>
      rw [hsig] at h
      cases h
      exact .inl ⟨rfl, fun _ => rfl⟩
    | some range =>
      rw [hsig] at h
      obtain ⟨sig, -, h⟩ := bind_eq_ok.mp h
      obtain ⟨_, -, h⟩ := bind_eq_ok.mp h
      obtain ⟨nm, hname, h⟩ := bind_eq_ok.mp h
      cases h
      refine .inr ⟨nm, sig, by simpa using hkind, rfl, ?_, rfl⟩
      rw [expect_eq_ok, Atom.new] at hname
      split at hname
      · cases hname
        rfl
      · cases hname

theorem enterWord_keeps (h : enterWord b src badSig full badName d scope = .ok scope')
    (he : lookup scope name = some e) : lookup scope' name = some e := by
  obtain ⟨rfl, -⟩ | ⟨nm, sig, -, -, -, rfl⟩ := enterWord_run h
  · exact he
  · exact lookup_append_some he

def Declares (defAst : ModuleAst) (name : String) : Prop :=
  ∃ d, defAst.findDecl name = some d ∧ d.kind = .word ∧ d.sig.isSome = true

def Offers (defAst : ModuleAst) (name : String) : Prop :=
  name ∈ defAst.exportNames ∧ Declares defAst name

/-- What the entry of a name says comes from its declaration in the interface. -/
def Described (b : Build) (defAst : ModuleAst) (name : String) (e : WordEntry) : Prop :=
  ∃ d nm sig, defAst.findDecl name = some d ∧ e = entryOf b defAst.src d nm sig

theorem enterExport_run {exported : String}
    (h : (match defAst.findDecl exported with
      | none => .ok scope
      | some d => enterWord b defAst.src 2205 2207 2206 d scope) = Except.ok scope') :
    (scope' = scope ∧ ¬Declares defAst exported) ∨
      ∃ e, e.name.text = exported ∧ Declares defAst exported ∧
        Described b defAst exported e ∧ scope' = scope ++ [e] := by
  cases hfind : defAst.findDecl exported with
  | none =>
    rw [hfind] at h
    cases h
    refine .inl ⟨rfl, ?_⟩
    rintro ⟨d, hd, -⟩
    rw [hfind] at hd
    cases hd
  | some d =>
    rw [hfind] at h
    have hname : d.name = exported := by
      have hfound := List.find?_some hfind
      exact eq_of_beq hfound
    obtain ⟨rfl, hsig⟩ | ⟨nm, sig, hkind, hsig, hnm, rfl⟩ := enterWord_run h
    · refine .inl ⟨rfl, ?_⟩
      rintro ⟨d', hd', hkind, hsome⟩
      rw [hfind] at hd'
      cases hd'
      rw [hsig hkind] at hsome
      cases hsome
    · exact .inr ⟨entryOf b defAst.src d nm sig, hnm.trans hname, ⟨d, hfind, hkind, hsig⟩,
        ⟨d, nm, sig, hfind, rfl⟩, rfl⟩

theorem lookup_enterExports (h : enterExports b defAst scope = .ok scope') :
    (∀ e, lookup scope name = some e → lookup scope' name = some e) ∧
      (lookup scope name = none →
        (¬Offers defAst name ∧ lookup scope' name = none) ∨
          Offers defAst name ∧ ∃ e, Described b defAst name e ∧ lookup scope' name = some e) := by
  unfold enterExports at h
  unfold Offers
  generalize defAst.exportNames = names at h
  induction names generalizing scope with
  | nil =>
    rw [foldlM_nil_eq_ok] at h
    subst h
    exact ⟨fun _ he => he, fun hnone => .inl ⟨by simp, hnone⟩⟩
  | cons exported rest ih =>
    obtain ⟨mid, hone, hrest⟩ := foldlM_cons_eq_ok.mp h
    obtain ⟨hkeep, hnew⟩ := ih hrest
    obtain ⟨rfl, hnot⟩ | ⟨e, hname, hdeclares, hdescribed, rfl⟩ := enterExport_run hone
    · refine ⟨hkeep, fun hnone => ?_⟩
      obtain ⟨hoffers, hfound⟩ | ⟨hoffers, hfound⟩ := hnew hnone
      · refine .inl ⟨?_, hfound⟩
        rintro ⟨hmem, hdeclares⟩
        obtain rfl | hmem := List.mem_cons.mp hmem
        · exact hnot hdeclares
        · exact hoffers ⟨hmem, hdeclares⟩
      · exact .inr ⟨⟨List.mem_cons_of_mem _ hoffers.1, hoffers.2⟩, hfound⟩
    · refine ⟨fun e' he' => hkeep e' (lookup_append_some he'), fun hnone => ?_⟩
      by_cases hsame : exported = name
      · subst hsame
        refine .inr ⟨⟨List.mem_cons_self, hdeclares⟩, e, hdescribed, hkeep e ?_⟩
        unfold lookup at hnone ⊢
        rw [List.find?_append, hnone]
        simp [hname]
      · have hmid : lookup (scope ++ [e]) name = none := by
          unfold lookup at hnone ⊢
          rw [List.find?_append, hnone]
          simp [hname, hsame]
        obtain ⟨hoffers, hfound⟩ | ⟨hoffers, hfound⟩ := hnew hmid
        · refine .inl ⟨?_, hfound⟩
          rintro ⟨hmem, hdeclares⟩
          obtain rfl | hmem := List.mem_cons.mp hmem
          · exact hsame rfl
          · exact hoffers ⟨hmem, hdeclares⟩
        · exact .inr ⟨⟨List.mem_cons_of_mem _ hoffers.1, hoffers.2⟩, hfound⟩

/-- A name that a module takes from another one: no word of the language has it, and the
first import that offers it is that module. -/
structure Imports (files : Files) (m : ModuleAst) (source name : String) (defAst : ModuleAst) :
    Prop where
  foreign : lookup builtinWords name = none
  found : files.defFile source = some (some defAst)
  offers : Offers defAst name
  first : ∃ before imp after, m.imports = before ++ imp :: after ∧ imp.moduleName = source ∧
    ∀ i ∈ before, ∀ other, files.defFile i.moduleName = some (some other) → ¬Offers other name

theorem loadImport_run {imp : ImportAst} (h : (do
      let file ← expect (files.defFile imp.moduleName) 2201
      let defAst ← expect file 2202
      enterExports b defAst scope : Except Nat (List WordEntry)) = .ok scope') :
    ∃ defAst, files.defFile imp.moduleName = some (some defAst) ∧
      enterExports b defAst scope = .ok scope' := by
  obtain ⟨file, hfile, h⟩ := bind_eq_ok.mp h
  obtain ⟨defAst, hdef, h⟩ := bind_eq_ok.mp h
  rw [expect_eq_ok] at hfile hdef
  exact ⟨defAst, hdef ▸ hfile, h⟩

theorem lookup_loadImportSigs (h : loadImportSigs b files m scope = .ok scope')
    (he : lookup scope name = some e) : lookup scope' name = some e := by
  unfold loadImportSigs at h
  generalize m.imports = imports at h
  induction imports generalizing scope with
  | nil =>
    rw [foldlM_nil_eq_ok] at h
    exact h ▸ he
  | cons imp rest ih =>
    obtain ⟨mid, hone, hrest⟩ := foldlM_cons_eq_ok.mp h
    obtain ⟨defAst, -, hexports⟩ := loadImport_run hone
    exact ih ((lookup_enterExports hexports).1 e he) hrest

theorem lookup_loadLocalSigs (h : loadLocalSigs b m scope = .ok scope')
    (he : lookup scope name = some e) : lookup scope' name = some e := by
  unfold loadLocalSigs at h
  generalize m.decls = decls at h
  induction decls generalizing scope with
  | nil =>
    rw [foldlM_nil_eq_ok] at h
    exact h ▸ he
  | cons d rest ih =>
    obtain ⟨mid, hone, hrest⟩ := foldlM_cons_eq_ok.mp h
    exact ih (enterWord_keeps hone he) hrest

theorem lookup_initEnv {source : String} (h : initEnv b files m = .ok scope)
    (himports : Imports files m source name defAst) :
    ∃ e, lookup scope name = some e ∧ Described b defAst name e := by
  obtain ⟨mid, hload, hlocal⟩ := bind_eq_ok.mp h
  obtain ⟨before, imp, after, heq, hsource, hfirst⟩ := himports.first
  have hnone := himports.foreign
  generalize builtinWords = start at hload hnone
  have hfound : ∃ e, lookup mid name = some e ∧ Described b defAst name e := by
    unfold loadImportSigs at hload
    rw [heq] at hload
    clear heq h
    induction before generalizing start with
    | nil =>
      obtain ⟨next, hone, hrest⟩ := foldlM_cons_eq_ok.mp hload
      obtain ⟨found, hfile, hexports⟩ := loadImport_run hone
      rw [hsource, himports.found] at hfile
      cases hfile
      obtain ⟨hno, -⟩ | ⟨-, e, hdescribed, he⟩ := (lookup_enterExports hexports).2 hnone
      · exact absurd himports.offers hno
      · refine ⟨e, ?_, hdescribed⟩
        have hafter : loadImportSigs b files { m with imports := after } next = .ok mid := hrest
        exact lookup_loadImportSigs hafter he
    | cons i before ih =>
      obtain ⟨next, hone, hrest⟩ := foldlM_cons_eq_ok.mp hload
      obtain ⟨other, hfile, hexports⟩ := loadImport_run hone
      have hnot := hfirst i List.mem_cons_self other hfile
      obtain ⟨-, hnext⟩ | ⟨hoffers, -⟩ := (lookup_enterExports hexports).2 hnone
      · exact ih (fun j hj => hfirst j (List.mem_cons_of_mem _ hj)) next hrest hnext
      · exact absurd hoffers hnot
  obtain ⟨e, he, hdescribed⟩ := hfound
  exact ⟨e, lookup_loadLocalSigs hlocal he, hdescribed⟩

end Scope

/-! ## The interface and the implementation -/

section Compiled

variable {b : Build} {files : Files} {m defAst : ModuleAst} {out : Compiled} {name : String}
  {d defDecl : DeclAst}

theorem compileModule_run (h : compileModule b files m = .ok out) :
    checkProgram files m = .ok () ∧ initEnv b files m = .ok out.scope ∧
      ∃ Γ : Env, forEachIrWord Γ b.fuel b.opsText (m.wordDecls.map (DeclAst.lowered b m.src))
        (m.decls.length + 1) (b.session m) = .ok (out.words, out.summaries) ∧
        Γ.words = out.scope := by
  have ok_of_mapError : ∀ {α ε ε' : Type} {x : Except ε α} {f : ε → ε'} {a : α},
      x.mapError f = .ok a → x = .ok a := by
    intro α ε ε' x f a hx
    cases x with
    | error e => cases hx
    | ok a' =>
      cases hx
      rfl
  unfold compileModule at h
  obtain ⟨_, hcheck, h⟩ := bind_eq_ok.mp h
  obtain ⟨scope, hscope, h⟩ := bind_eq_ok.mp h
  obtain ⟨words, hwords, h⟩ := bind_eq_ok.mp h
  cases h
  exact ⟨ok_of_mapError hcheck, ok_of_mapError hscope, _, ok_of_mapError hwords, rfl⟩

theorem agreed (hcheck : checkProgram files m = .ok ())
    (hfile : files.defFile m.name = some (some defAst)) (hexport : name ∈ defAst.exportNames)
    (hdef : defAst.findDecl name = some defDecl) (hkind : defDecl.kind = .word)
    (hmod : m.findDecl name = some d) :
    defDecl.performs.bits = d.performs.bits ∧ defDecl.performs.net = d.performs.net ∧
      defDecl.performs.high = d.performs.high := by
  obtain ⟨_, hown, -⟩ := bind_eq_ok.mp hcheck
  unfold checkOwn at hown
  rw [hfile] at hown
  obtain ⟨def', hdef', hiface⟩ := bind_eq_ok.mp hown
  rw [expect_eq_ok] at hdef'
  cases hdef'
  obtain ⟨_, -, hiface⟩ := bind_eq_ok.mp hiface
  obtain ⟨_, -, hiface⟩ := bind_eq_ok.mp hiface
  have hdecl := forM_eq_ok.mp hiface name hexport
  obtain ⟨defDecl', hfind, hdecl⟩ := bind_eq_ok.mp hdecl
  rw [expect_eq_ok, hdef] at hfind
  cases hfind
  obtain ⟨d', hfind, hdecl⟩ := bind_eq_ok.mp hdecl
  rw [expect_eq_ok, hmod] at hfind
  cases hfind
  obtain ⟨_, -, hdecl⟩ := bind_eq_ok.mp hdecl
  obtain ⟨_, -, hdecl⟩ := bind_eq_ok.mp hdecl
  rw [if_pos hkind] at hdecl
  obtain ⟨_, -, hwords⟩ := bind_eq_ok.mp hdecl
  obtain ⟨_, -, hwords⟩ := bind_eq_ok.mp hwords
  obtain ⟨_, -, hwords⟩ := bind_eq_ok.mp hwords
  exact require_eq_ok.mp hwords

theorem lowerDecls_mem {Γ : Env} {fuel : Nat} {opsText : Word → String} {decls : List Decl}
    {session : Session} {words : List LoweredWord} {w : LoweredWord}
    (h : lowerDecls Γ fuel opsText decls session = .ok words) (hw : w ∈ words) :
    ∃ session sig out, buildIrWord Γ fuel session w.decl sig = .ok out ∧ w.word = out.word ∧
      w.extraWords = out.extraWords := by
  induction decls generalizing session words with
  | nil =>
    cases h
    cases hw
  | cons decl rest ih =>
    unfold lowerDecls at h
    split at h
    · exact ih h hw
    · obtain ⟨⟨first, session'⟩, hfirst, h⟩ := bind_eq_ok.mp h
      obtain ⟨others, hothers, h⟩ := bind_eq_ok.mp h
      cases h
      obtain rfl | hw := List.mem_cons.mp hw
      · unfold lowerDecl at hfirst
        obtain ⟨sig, -, hfirst⟩ := bind_eq_ok.mp hfirst
        obtain ⟨out, hbuild, hfirst⟩ := bind_eq_ok.mp hfirst
        obtain ⟨_, -, hfirst⟩ := bind_eq_ok.mp hfirst
        obtain ⟨_, -, hfirst⟩ := bind_eq_ok.mp hfirst
        cases hfirst
        exact ⟨_, sig, out, hbuild, rfl, rfl⟩
      · exact ih hothers hw

theorem compiled_declared {w : LoweredWord} (h : compileModule b files m = .ok out)
    (hw : w ∈ out.words) (hexplicit : w.decl.hasExplicitPerforms = true) :
    (w.word.performs.minus (.fromBits w.decl.effectBits)).isEmpty = true := by
  obtain ⟨-, -, Γ, hall, -⟩ := compileModule_run h
  obtain ⟨summaries, -, hall⟩ := bind_eq_ok.mp hall
  obtain ⟨words, hwords, hall⟩ := bind_eq_ok.mp hall
  cases hall
  obtain ⟨session, sig, built, hbuild, heq, -⟩ := lowerDecls_mem hwords hw
  rw [heq]
  exact buildIrWord_declared hbuild hexplicit

theorem lowerDecls_decls {Γ : Env} {fuel : Nat} {opsText : Word → String} {decls : List Decl}
    {session : Session} {words : List LoweredWord}
    (h : lowerDecls Γ fuel opsText decls session = .ok words) :
    words.map LoweredWord.decl = decls.filter fun d => d.body.isSome := by
  induction decls generalizing session words with
  | nil =>
    cases h
    rfl
  | cons decl rest ih =>
    unfold lowerDecls at h
    split at h
    · rename_i hbody
      rw [List.filter_cons_of_neg (by simpa using hbody)]
      exact ih h
    · rename_i hbody
      obtain ⟨⟨first, session'⟩, hfirst, h⟩ := bind_eq_ok.mp h
      obtain ⟨others, hothers, h⟩ := bind_eq_ok.mp h
      cases h
      obtain ⟨sig, -, hfirst⟩ := bind_eq_ok.mp hfirst
      obtain ⟨out, -, hfirst⟩ := bind_eq_ok.mp hfirst
      obtain ⟨_, -, hfirst⟩ := bind_eq_ok.mp hfirst
      obtain ⟨_, -, hfirst⟩ := bind_eq_ok.mp hfirst
      cases hfirst
      rw [List.map_cons, ih hothers,
        List.filter_cons_of_pos (by simpa [Option.isSome_iff_ne_none] using hbody)]

theorem single_word (h : compileModule b files m = .ok out) (hdecls : m.wordDecls = [d])
    (hbody : d.body.isSome = true) : ∃ w ∈ out.words, w.decl = d.lowered b m.src := by
  obtain ⟨-, -, Γ, hall, -⟩ := compileModule_run h
  obtain ⟨summaries, -, hall⟩ := bind_eq_ok.mp hall
  obtain ⟨words, hwords, hall⟩ := bind_eq_ok.mp hall
  cases hall
  have hlist := lowerDecls_decls hwords
  have hmem : d.lowered b m.src ∈ out.words.map LoweredWord.decl := by
    rw [hlist, hdecls]
    exact List.mem_filter.mpr ⟨List.mem_cons_self, hbody⟩
  obtain ⟨w, hw, hdecl⟩ := List.mem_map.mp hmem
  exact ⟨w, hw, hdecl⟩

theorem compiled_grown (h : compileModule b files m = .ok out) :
    Grown out.scope out.summaries := by
  obtain ⟨-, -, Γ, hall, hwords⟩ := compileModule_run h
  obtain ⟨summaries, hsummaries, hall⟩ := bind_eq_ok.mp hall
  obtain ⟨words, -, hall⟩ := bind_eq_ok.mp hall
  cases hall
  rw [← hwords]
  exact grown_localSummaryEnv hsummaries

theorem minus_empty {a : EffectSet} : (a.minus .empty).isEmpty = true ↔ a.bits = 0#16 := by
  rw [minus_isEmpty]
  constructor
  · intro h
    apply BitVec.eq_of_getLsbD_eq
    intro i hi
    have := h i
    simp only [EffectSet.empty, BitVec.getLsbD_zero] at this ⊢
    grind
  · intro h i hi
    rw [h, BitVec.getLsbD_zero] at hi
    cases hi

theorem Performs.effects_bits (p : Performs) : p.effects = .fromBits p.bits := by
  unfold Performs.effects
  split
  · rfl
  · rename_i h
    rw [not_not.mp h]
    rfl

end Compiled

def plainBuild : Build where
  parseWordSig _ _ := some ⟨.new, .new⟩
  contractHash _ _ := 0
  env m :=
    { src := m.src, words := [], subtypes := [], descriptor := none, resources := []
      nominals := ⟨[], []⟩, iso := [], allowRawCasts := false, wordBits := 64
      digest := fun _ => "", rangeReason := fun _ _ _ _ => ""
      resolveMmioPlace := fun _ => .ok none
      parseTypeExpr := fun _ => none, parseWordSig := fun _ => none }
  session _ := forecastSession .off
  fuel := 4
  opsText _ := ""

/-- The signature `( -- )` and a body behind it. -/
def plainSource (body : List (TokenKind × String)) : Source :=
  let arrow : List (TokenKind × String) := [(.lParen, "("), (.other, "--"), (.rParen, ")")]
  ⟨(arrow ++ body).map fun t => ⟨t.1, t.2, .UNKNOWN⟩⟩

def plainModule (name word : String) (imports : List ImportAst) (body : List (TokenKind × String))
    (performs : Performs) : ModuleAst where
  name := name
  imports := imports
  hasExportStmt := false
  exports := []
  decls := [{
    kind := .word
    name := word
    sig := some ⟨0, 3⟩
    attrs := []
    body := some ⟨3, 3 + body.length⟩
    requires := none
    ensures := none
    capSet := none
    performs := performs }]
  src := plainSource body

/-- `: spin ( -- ) [ 1 drop ] loop ;` -/
def spinModule (performs : Performs) : ModuleAst :=
  plainModule "Lib" "spin" [] [(.lBracket, "["), (.number, "1"), (.ident, "drop"),
    (.rBracket, "]"), (.ident, "loop")] performs

def spinFiles (performs : Performs) : Files where
  defFile name := if name = "Lib" then some (some (plainModule "Lib" "spin" [] [] performs)) else none
  modFile name := if name = "Lib" then some (some (spinModule performs)) else none

/-- `: go ( -- ) spin ;` -/
def spinCaller : ModuleAst :=
  plainModule "Main" "go" [⟨"Lib", ["spin"]⟩] [(.ident, "spin")] .none

/-- `performs { diverge, high=1 }` -/
def divergeClause : Performs := ⟨4#16, 0, 1, true, by simp⟩

theorem spin_imported (p : Performs) :
    Imports (spinFiles p) spinCaller "Lib" "spin" (plainModule "Lib" "spin" [] [] p) where
  foreign := by decide
  found := rfl
  offers := ⟨by simp [ModuleAst.exportNames, plainModule], _, rfl, rfl, rfl⟩
  first := ⟨[], ⟨"Lib", ["spin"]⟩, [], rfl, rfl, fun _ hi => absurd hi List.not_mem_nil⟩

theorem isOk_run {α ε : Type} {x : Except ε α} (h : x.isOk = true) : ∃ a, x = .ok a := by
  cases x with
  | error e => cases h
  | ok a => exact ⟨a, rfl⟩

end Tyu.Irgen
