import Tyu.Backend.Wasm.Module

/-!
# The span table of an emitted module

The offset of a load or store is noted in the body of its function, moved by the place of the body
in the code section and by the place of that section in the module.
-/

namespace Tyu.Wasm

open Lib Lib.Wire

/-! ## The growing body -/

/-- The call operands among instructions that are written from an offset on. -/
def callSites (start : Nat) : List Instr → List (Nat × Callee)
  | [] => []
  | .call callee :: is =>
    (start + 1, callee) :: callSites (start + (Instr.call callee).bytes.length) is
  | i :: is => callSites (start + i.bytes.length) is

def bytesOf (is : List Instr) : Bytes := is.flatMap Instr.bytes

theorem length_access (op : MemOp) (span : Span) : (Instr.access op span).bytes.length = 3 := rfl

theorem length_call (callee : Callee) : (Instr.call callee).bytes.length = 6 := rfl

theorem addAll_eq (b : Body) (is : List Instr) :
    b.addAll is = ⟨b.out ++ bytesOf is, b.calls ++ callSites b.out.length is,
      b.traps ++ (accesses b.out.length is).map fun a => (a.offset + 1, a.span)⟩ := by
  induction is generalizing b with
  | nil =>
    show b = ⟨b.out ++ [], b.calls ++ [], b.traps ++ []⟩
    simp only [List.append_nil]
  | cons i is ih =>
    show (b.add i).addAll is = _
    rw [ih]
    have hout : (b.add i).out = b.out ++ i.bytes := by cases i <;> rfl
    have hlen : (b.add i).out.length = b.out.length + i.bytes.length := by
      rw [hout, List.length_append]
    rw [hlen, hout]
    have hbytes : b.out ++ i.bytes ++ bytesOf is = b.out ++ bytesOf (i :: is) := by
      rw [List.append_assoc]
      rfl
    rw [hbytes]
    cases i with
    | access op span =>
      have hnote : (b.out ++ (Instr.access op span).bytes).length - 2 = b.out.length + 1 := by
        rw [List.length_append, length_access]
        omega
      show Body.mk _ _ ((b.traps ++ [((b.out ++ (Instr.access op span).bytes).length - 2, span)]) ++
        _) = _
      rw [hnote, List.append_assoc]
      rfl
    | call callee =>
      show Body.mk _ ((b.calls ++ [(b.out.length + 1, callee)]) ++ _) _ = _
      rw [List.append_assoc]
      rfl
    | _ => rfl

variable {is : List Instr} {a : Access} {c : Nat × Callee} {b b' : Backend} {src : Source}
  {helpers : Helper → RegionHelper} {m : Emitted}

theorem mem_accesses_cons {start : Nat} {i : Instr} :
    a ∈ accesses start (i :: is) ↔
      (∃ op span, i = .access op span ∧ a = ⟨start, op, span⟩) ∨
        a ∈ accesses (start + i.bytes.length) is := by
  cases i with
  | access op span =>
    constructor
    · intro h
      rcases List.mem_cons.mp h with rfl | h
      · exact Or.inl ⟨op, span, rfl, rfl⟩
      · exact Or.inr h
    · rintro (⟨_, _, hi, rfl⟩ | h)
      · cases hi
        exact List.mem_cons_self
      · exact List.mem_cons_of_mem _ h
  | _ =>
    constructor
    · exact Or.inr
    · rintro (⟨_, _, hi, -⟩ | h)
      · cases hi
      · exact h

theorem mem_callSites_cons {start : Nat} {i : Instr} :
    c ∈ callSites start (i :: is) ↔
      (∃ callee, i = .call callee ∧ c = (start + 1, callee)) ∨
        c ∈ callSites (start + i.bytes.length) is := by
  cases i with
  | call callee =>
    constructor
    · intro h
      rcases List.mem_cons.mp h with rfl | h
      · exact Or.inl ⟨callee, rfl, rfl⟩
      · exact Or.inr h
    · rintro (⟨_, hi, rfl⟩ | h)
      · cases hi
        exact List.mem_cons_self
      · exact List.mem_cons_of_mem _ h
  | _ =>
    constructor
    · exact Or.inr
    · rintro (⟨_, hi, -⟩ | h)
      · cases hi
      · exact h

theorem length_bytesOf_cons (i : Instr) (is : List Instr) :
    (bytesOf (i :: is)).length = i.bytes.length + (bytesOf is).length := by
  show (i.bytes ++ bytesOf is).length = _
  rw [List.length_append]

theorem opcode_accesses {start : Nat} (h : a ∈ accesses start is) :
    start ≤ a.offset ∧ (bytesOf is)[a.offset - start]? = some a.op.opcode := by
  induction is generalizing start with
  | nil => cases h
  | cons i is ih =>
    rcases mem_accesses_cons.mp h with ⟨op, span, rfl, rfl⟩ | h
    · refine ⟨Nat.le_refl _, ?_⟩
      rw [Nat.sub_self]
      rfl
    · obtain ⟨hle, hget⟩ := ih h
      refine ⟨by omega, ?_⟩
      show (i.bytes ++ bytesOf is)[a.offset - start]? = _
      rw [List.getElem?_append_right (by omega), Nat.sub_sub]
      exact hget

theorem callSites_bounds {start : Nat} (h : c ∈ callSites start is) :
    start ≤ c.1 ∧ c.1 + CALL_LEB_WIDTH ≤ start + (bytesOf is).length := by
  induction is generalizing start with
  | nil => cases h
  | cons i is ih =>
    rw [length_bytesOf_cons]
    rcases mem_callSites_cons.mp h with ⟨callee, rfl, rfl⟩ | h
    · rw [length_call]
      show start ≤ start + 1 ∧ start + 1 + 5 ≤ _
      omega
    · have := ih h
      omega

theorem access_beside_call {start : Nat} (ha : a ∈ accesses start is) (hc : c ∈ callSites start is)
    :
    a.offset < c.1 ∨ c.1 + CALL_LEB_WIDTH ≤ a.offset := by
  induction is generalizing start with
  | nil => cases ha
  | cons i is ih =>
    rcases mem_accesses_cons.mp ha with ⟨op, span, rfl, rfl⟩ | ha
    · rcases mem_callSites_cons.mp hc with ⟨_, hi, -⟩ | hc
      · cases hi
      · have hafter := (callSites_bounds hc).1
        rw [length_access] at hafter
        left
        show start < c.1
        omega
    · rcases mem_callSites_cons.mp hc with ⟨callee, rfl, rfl⟩ | hc
      · have hafter := (opcode_accesses ha).1
        rw [length_call] at hafter
        right
        show start + 1 + 5 ≤ a.offset
        omega
      · exact ih ha hc

structure Func.WellNoted (f : Func) : Prop where
  opcode : ∀ a ∈ f.accesses, f.body[a.offset]? = some a.op.opcode
  inside : ∀ c ∈ f.calls, c.1 + CALL_LEB_WIDTH ≤ f.body.length
  beside : ∀ a ∈ f.accesses, ∀ c ∈ f.calls, a.offset < c.1 ∨ c.1 + CALL_LEB_WIDTH ≤ a.offset

theorem wellNoted_addAll (text : String) (index : Nat) (hdr : Bytes) (code : List Instr) :
    Func.WellNoted ⟨text, index, (Body.addAll ⟨hdr, [], []⟩ code).out,
      (Body.addAll ⟨hdr, [], []⟩ code).calls, accesses hdr.length code⟩ := by
  rw [addAll_eq]
  constructor
  · intro a ha
    obtain ⟨hle, hget⟩ := opcode_accesses ha
    show (hdr ++ bytesOf code)[a.offset]? = _
    rw [List.getElem?_append_right hle]
    exact hget
  · intro c hc
    have hbound := (callSites_bounds hc).2
    show c.1 + CALL_LEB_WIDTH ≤ (hdr ++ bytesOf code).length
    rw [List.length_append]
    exact hbound
  · intro a ha c hc
    exact access_beside_call ha hc

theorem operands_place {calls : List (Nat × Callee)} {operands : List (Nat × Bytes)}
    {p : Nat × Bytes} (h : calls.mapM (operand b) = .ok operands) (hp : p ∈ operands) :
    ∃ c ∈ calls, p.1 = c.1 ∧ p.2.length = CALL_LEB_WIDTH := by
  obtain ⟨c, hc, hoperand⟩ := mapM_eq_ok h hp
  unfold operand at hoperand
  split at hoperand
  · cases hoperand
    exact ⟨c, hc, rfl, length_paddedUleb _ _⟩
  · cases hoperand

theorem patchCalls_keeps {f g : Func} (hf : f.WellNoted) (h : patchCalls b f = .ok g) :
    g.accesses = f.accesses ∧ ∀ a ∈ g.accesses, g.body[a.offset]? = some a.op.opcode := by
  unfold patchCalls at h
  obtain ⟨operands, hoperands, hg⟩ := bind_eq_ok.mp h
  cases hg
  refine ⟨rfl, fun a ha => ?_⟩
  show (patchAll f.body operands)[a.offset]? = _
  rw [getElem?_patchAll]
  · exact hf.opcode a ha
  · intro p hp
    obtain ⟨c, hc, hoff, hlen⟩ := operands_place hoperands hp
    rw [hoff, hlen]
    exact hf.inside c hc
  · intro p hp
    obtain ⟨c, hc, hoff, hlen⟩ := operands_place hoperands hp
    rw [hoff, hlen]
    exact hf.beside a ha c hc

def trapSitesFrom (index : Nat) : List Func → List TrapSite
  | [] => []
  | f :: fs =>
    (f.accesses.map fun a => ⟨index, a.offset + 1, a.span⟩) ++ trapSitesFrom (index + 1) fs

theorem trapSitesFrom_append (index : Nat) (fs gs : List Func) :
    trapSitesFrom index (fs ++ gs) =
      trapSitesFrom index fs ++ trapSitesFrom (index + fs.length) gs := by
  induction fs generalizing index with
  | nil => rfl
  | cons f fs ih =>
    show _ ++ trapSitesFrom (index + 1) (fs ++ gs) = _
    rw [ih, List.length_cons, Nat.add_assoc, Nat.add_comm 1, ← List.append_assoc]
    rfl

structure Backend.Noted (b : Backend) : Prop where
  funcs : ∀ f ∈ b.funcs, f.WellNoted
  sites : b.trapSites = trapSitesFrom 0 b.funcs

theorem scanOp_keeps {op : Op} (h : scanOp b op = .ok b') :
    b'.funcs = b.funcs ∧ b'.trapSites = b.trapSites := by
  unfold scanOp at h
  split at h
  · cases h
    split <;> exact ⟨rfl, rfl⟩
  · cases h
  · cases h
  · cases h
  · cases h
    exact ⟨rfl, rfl⟩
  · cases h
    exact ⟨rfl, rfl⟩
  · split at h <;> cases h <;> exact ⟨rfl, rfl⟩

theorem scan_keeps {ops : List Op} (h : ops.foldlM scanOp b = .ok b') :
    b'.funcs = b.funcs ∧ b'.trapSites = b.trapSites := by
  induction ops generalizing b with
  | nil => rw [foldlM_nil_eq_ok.mp h]; exact ⟨rfl, rfl⟩
  | cons op ops ih =>
    obtain ⟨m, hstep, hrest⟩ := foldlM_cons_eq_ok.mp h
    obtain ⟨hfuncs, hsites⟩ := ih hrest
    obtain ⟨hfuncs', hsites'⟩ := scanOp_keeps hstep
    exact ⟨hfuncs.trans hfuncs', hsites.trans hsites'⟩

theorem emitWord_noted {w : Word} (hb : b.Noted) (h : emitWord src b w = .ok b') : b'.Noted := by
  unfold emitWord at h
  obtain ⟨m, hscan, h⟩ := bind_eq_ok.mp h
  obtain ⟨⟨code, t⟩, -, h⟩ := bind_eq_ok.mp h
  obtain ⟨hfuncs, hsites⟩ := scan_keeps hscan
  cases h
  constructor
  · intro f hf
    rcases List.mem_append.mp hf with hf | hf
    · exact hb.funcs f (hfuncs ▸ hf)
    · rw [List.mem_singleton.mp hf]
      exact wellNoted_addAll _ _ _ _
  · show m.trapSites ++ _ = trapSitesFrom 0 (m.funcs ++ [_])
    rw [trapSitesFrom_append, hsites, hfuncs, hb.sites, addAll_eq, Nat.zero_add]
    show _ ++ List.map _ (List.map _ (accesses (header w).length code)) =
      _ ++ (List.map _ (accesses (header w).length code) ++ [])
    rw [List.map_map, List.append_nil]
    rfl

theorem emitWords_noted {words : List Word} (hb : b.Noted)
    (h : words.foldlM (emitWord src) b = .ok b') : b'.Noted := by
  induction words generalizing b with
  | nil => rw [← foldlM_nil_eq_ok.mp h]; exact hb
  | cons w words ih =>
    obtain ⟨m, hstep, hrest⟩ := foldlM_cons_eq_ok.mp h
    exact ih (emitWord_noted hb hstep) hrest

theorem getElem?_codeEntries {payload : Bytes} {bodies : List Bytes} {i : Nat}
    (h : i < payload.length) : (codeEntries payload bodies).1[i]? = payload[i]? := by
  induction bodies generalizing payload with
  | nil => rfl
  | cons body bodies ih =>
    show (codeEntries (payload ++ uleb body.length ++ body) bodies).1[i]? = _
    rw [List.append_assoc, ih (by rw [List.length_append]; omega), List.getElem?_append_left h]

theorem length_codeEntries (payload : Bytes) (bodies : List Bytes) :
    (codeEntries payload bodies).2.length = bodies.length := by
  induction bodies generalizing payload with
  | nil => rfl
  | cons body bodies ih =>
    show (codeEntries _ bodies).2.length + 1 = bodies.length + 1
    rw [ih]

theorem body_codeEntries {payload : Bytes} {bodies : List Bytes} {k off j : Nat} {body : Bytes}
    (hoff : (codeEntries payload bodies).2[k]? = some off) (hbody : bodies[k]? = some body)
    (hj : j < body.length) : (codeEntries payload bodies).1[off + j]? = body[j]? := by
  induction bodies generalizing payload k with
  | nil => cases hbody
  | cons first bodies ih =>
    cases k with
    | zero =>
      have hfront : (payload ++ uleb first.length).length = off := Option.some.inj hoff
      have hfirst : first = body := Option.some.inj hbody
      subst hfirst
      show (codeEntries (payload ++ uleb first.length ++ first) bodies).1[off + j]? = _
      rw [getElem?_codeEntries (by rw [List.length_append]; omega),
        List.getElem?_append_right (by omega)]
      congr 1
      omega
    | succ k => exact ih hoff hbody

/-! ## The emitted module -/

theorem mapM_patchCalls {fs gs : List Func} (hfs : ∀ f ∈ fs, f.WellNoted)
    (h : fs.mapM (patchCalls b) = .ok gs) :
    gs.map (·.accesses) = fs.map (·.accesses) ∧
      ∀ g ∈ gs, ∀ a ∈ g.accesses, g.body[a.offset]? = some a.op.opcode := by
  induction fs generalizing gs with
  | nil =>
    rw [mapM_nil_eq_ok.mp h]
    exact ⟨rfl, nofun⟩
  | cons f fs ih =>
    obtain ⟨g, rest, hg, hrest, rfl⟩ := mapM_cons_eq_ok.mp h
    obtain ⟨hsame, hopcode⟩ := patchCalls_keeps (hfs f List.mem_cons_self) hg
    obtain ⟨hsames, hopcodes⟩ := ih (fun f hf => hfs f (List.mem_cons_of_mem _ hf)) hrest
    refine ⟨by rw [List.map_cons, List.map_cons, hsame, hsames], fun g' hg' => ?_⟩
    rcases List.mem_cons.mp hg' with rfl | hg'
    · exact hopcode
    · exact hopcodes g' hg'

theorem trapSitesFrom_congr {index : Nat} {fs gs : List Func}
    (h : gs.map (·.accesses) = fs.map (·.accesses)) :
    trapSitesFrom index gs = trapSitesFrom index fs := by
  induction gs generalizing index fs with
  | nil =>
    cases fs with
    | nil => rfl
    | cons f fs => cases h
  | cons g gs ih =>
    cases fs with
    | nil => cases h
    | cons f fs =>
      obtain ⟨hhead, htail⟩ := List.cons.inj h
      show g.accesses.map _ ++ trapSitesFrom (index + 1) gs =
        f.accesses.map _ ++ trapSitesFrom (index + 1) fs
      rw [show g.accesses = f.accesses from hhead, ih htail]

theorem trapSitesFrom_helpers {index : Nat} {hs : List Helper} {types : List (Bytes × Bytes)} :
    trapSitesFrom index (addHelpers helpers hs types).1 = [] := by
  induction hs generalizing index types with
  | nil => rfl
  | cons h hs ih => exact ih

theorem wellNoted_helpers {hs : List Helper} {types : List (Bytes × Bytes)} {f : Func}
    (hf : f ∈ (addHelpers helpers hs types).1) : f.WellNoted := by
  induction hs generalizing types with
  | nil => cases hf
  | cons h hs ih =>
    rcases List.mem_cons.mp hf with rfl | hf
    · exact ⟨nofun, nofun, nofun⟩
    · exact ih hf

def recordAt (a : Access) : SpanRecord :=
  ⟨UInt32.ofNat (a.offset + 1), UInt32.ofNat a.span.start,
    UInt32.ofNat (a.span.stop - a.span.start)⟩

theorem records_eq {base k : Nat} {offsets : List Nat} {funcs : List Func}
    (hlen : k + funcs.length ≤ offsets.length) :
    (trapSitesFrom k funcs).map (recordOf base offsets) =
      (sitesOf base (offsets.drop k) funcs).map recordAt := by
  induction funcs generalizing k with
  | nil => rfl
  | cons f funcs ih =>
    rw [List.length_cons] at hlen
    have hk : k < offsets.length := by omega
    rw [List.drop_eq_getElem_cons hk]
    show List.map _ (List.map _ f.accesses ++ trapSitesFrom (k + 1) funcs) =
      List.map _ (List.map _ f.accesses ++ sitesOf base (offsets.drop (k + 1)) funcs)
    rw [List.map_append, List.map_append, ih (by omega), List.map_map, List.map_map]
    congr 1
    apply List.map_congr_left
    intro a _
    show recordOf base offsets ⟨k, a.offset + 1, a.span⟩ =
      recordAt { a with offset := base + offsets[k] + a.offset }
    unfold recordOf recordAt
    rw [List.getElem?_eq_getElem hk]
    rfl

structure Emitted.Laid (m : Emitted) : Prop where
  /-- at the offset of a load or store stands its opcode -/
  opcode : ∀ a ∈ m.sites, m.bin[a.offset]? = some a.op.opcode
  records : m.records = m.sites.map recordAt
  table : ∃ front, m.bin = front ++ Spans.customSection m.records

theorem getElem?_middle {xs ys zs : Bytes} {j : Nat} {x : UInt8} (h : ys[j]? = some x) :
    (xs ++ ys ++ zs)[xs.length + j]? = some x := by
  obtain ⟨hlt, -⟩ := List.getElem?_eq_some_iff.mp h
  rw [List.append_assoc, List.getElem?_append_right (by omega), Nat.add_sub_cancel_left,
    List.getElem?_append_left hlt]
  exact h

theorem laid_emitModuleSections {imports : Nat} {funcs : List Func}
    (hopcode : ∀ f ∈ funcs, ∀ a ∈ f.accesses, f.body[a.offset]? = some a.op.opcode)
    (hsites : b.trapSites = trapSitesFrom 0 funcs) (h : emitModuleSections b imports funcs = .ok m)
    :
    m.Laid := by
  unfold emitModuleSections at h
  split at h
  · cases h
  · cases h
    constructor
    · intro a ha
      obtain ⟨⟨f, off⟩, he, ha⟩ := List.mem_flatMap.mp ha
      obtain ⟨a, hacc, rfl⟩ := List.mem_map.mp ha
      obtain ⟨k, hk⟩ := List.mem_iff_getElem?.mp he
      obtain ⟨hf, hoff⟩ := List.getElem?_zip_eq_some.mp hk
      have hget := hopcode f (List.mem_of_getElem? hf) a hacc
      have hbody : ∀ wrap, (funcs.map (·.body) ++ [wrap])[k]? = some f.body := by
        intro wrap
        obtain ⟨hlt, -⟩ := List.getElem?_eq_some_iff.mp hf
        rw [List.getElem?_append_left (by rw [List.length_map]; exact hlt), List.getElem?_map, hf]
        rfl
      have hcode := body_codeEntries hoff (hbody _) (List.getElem?_eq_some_iff.mp hget).1
      rw [hget] at hcode
      show (_ ++ _ ++ _ ++ _)[_ + off + a.offset]? = _
      rw [List.append_assoc (_ ++ _), Nat.add_assoc]
      exact getElem?_middle hcode
    · show List.map _ b.trapSites = _
      rw [hsites, records_eq (by
        rw [length_codeEntries, List.length_append, List.length_map]
        omega)]
      rfl
    · exact ⟨_, rfl⟩

theorem laid_emitModule {entryName : String} {words : List Word}
    (h : emitModule src helpers entryName words = .ok m) : m.Laid := by
  unfold emitModule at h
  obtain ⟨b, hwords, h⟩ := bind_eq_ok.mp h
  have hnoted : b.Noted := by
    apply emitWords_noted _ hwords
    exact ⟨fun f hf => absurd hf List.not_mem_nil, rfl⟩
  unfold emitPostlude at h
  obtain ⟨funcs, hfuncs, h⟩ := bind_eq_ok.mp h
  have hwell : ∀ f ∈ b.funcs ++ (addHelpers helpers (usedHelpers b) b.types).1, f.WellNoted := by
    intro f hf
    rcases List.mem_append.mp hf with hf | hf
    · exact hnoted.funcs f hf
    · exact wellNoted_helpers hf
  obtain ⟨hsame, hopcode⟩ := mapM_patchCalls hwell hfuncs
  apply laid_emitModuleSections hopcode _ h
  rw [trapSitesFrom_congr hsame, trapSitesFrom_append, trapSitesFrom_helpers, List.append_nil]
  exact hnoted.sites

/-- Every record has the offset in the module of the opcode of its load or store. -/
def Emitted.PointsAtOpcodes (m : Emitted) : Prop :=
  m.records.map (·.codeOffset.toNat) = m.sites.map (·.offset)

/-- The module ends in a table from which the decoder takes back the records, and these have
the spans of the loads and stores. -/
def Emitted.Decodes (m : Emitted) : Prop :=
  ∃ front payload, m.bin = front ++ sectionBytes 0 (name SECTION_NAME ++ payload) ∧
    Spans.decode payload = some m.records ∧
    m.records.map (fun r => (r.spanStart, r.spanLen)) = m.sites.map fun a =>
      (UInt32.ofNat a.span.start, UInt32.ofNat (a.span.stop - a.span.start))

/-- The table is always read back; only a module of more loads and stores than a machine word
can count is left out. -/
theorem decodes_emitModule {entryName : String} {words : List Word}
    (h : emitModule src helpers entryName words = .ok m) (hcount : m.sites.length < 2 ^ 64) :
    m.Decodes := by
  obtain ⟨-, hrecords, front, hbin⟩ := laid_emitModule h
  refine ⟨front, Spans.encode m.records, hbin, Spans.decode_encode ?_, ?_⟩
  · rw [hrecords, List.length_map]
    exact hcount
  · rw [hrecords, List.map_map]
    rfl

theorem recordAt_offset (a : Access) : (recordAt a).codeOffset.toNat ≠ a.offset := by
  show (UInt32.ofNat (a.offset + 1)).toNat ≠ a.offset
  rw [UInt32.toNat_ofNat']
  omega

/-- `: main ( -- i64 )` with the operations given. -/
def mainWord (ops : FixedVec Op 96) : Word where
  name := ⟨"main", by decide⟩
  sig := ⟨.new, ⟨[TY_I64], one_result⟩⟩
  performs := .empty
  requires := .empty
  bound := ⟨1, .slots 1⟩
  entry := ⟨0⟩
  types := ⟨[AT_EMPTY, AT_I64], by decide⟩
  typeSizes := ⟨[0, 8], by decide⟩
  typeClasses := ⟨[.other, .i64], by decide⟩
  apertures := .new
  subtypeBases := ⟨[TY_EMPTY, TY_EMPTY], by decide⟩
  blocks := ⟨[⟨⟨0⟩, .new, ops⟩], one_entry⟩

def plainSource : Source := ⟨fun _ => false, fun _ => none, fun _ => none⟩

def noHelpers (_ : Helper) : RegionHelper := ⟨"", [], [], []⟩

def loadOps : FixedVec Op 96 :=
  ⟨[⟨.constI64 8192, ⟨16, 20⟩⟩, ⟨.load TY_I64, ⟨21, 25⟩⟩, ⟨.ret, ⟨26, 27⟩⟩], by decide⟩

def emitted (ops : FixedVec Op 96) : Except CodegenError Emitted :=
  emitModule plainSource noHelpers "main" [mainWord ops]

def constantOps : FixedVec Op 96 := ⟨[⟨.constI64 7, ⟨16, 17⟩⟩, ⟨.ret, ⟨18, 19⟩⟩], by decide⟩

end Tyu.Wasm
