import Tyu.Verifier.VerdictFileRecords

/-!
# Reading a verdicts file back

The parts of the document around its records, and the round trip of both writers.
-/

namespace Tyu

open Lib Lib.Json Manifest

namespace VerdictFile

/-! ## The parts of the document -/

def Certifier.Readable (c : Certifier) : Prop :=
  VerdictFile.Readable c.cls ∧ VerdictFile.Readable c.name ∧ VerdictFile.Readable c.recognition ∧
    VerdictFile.Readable c.tool.name ∧ VerdictFile.Readable c.tool.version ∧
    VerdictFile.Readable c.toolchain

theorem run_parseCertifier_object (rest : Bytes) :
    parseCertifier.run (0x7B :: rest) =
      (parseObject certifierMember {} >>= certifierOf).run (0x7B :: rest) := by
  unfold parseCertifier
  rw [StateT.run_bind, run_skipWs_of_head (by decide)]
  rfl

theorem run_skipValue_null (rest : Bytes) :
    skipValue.run (write .null ++ rest) = .ok ((), rest) := by
  unfold skipValue
  simp only [write, List.cons_append, List.nil_append]
  rw [StateT.run_bind, run_skipWs_of_head (by decide)]
  rfl

theorem run_skipValue_string (rest : Bytes) :
    skipValue.run (0x22 :: rest) = (do let _ ← parseString; pure () : VReader Unit).run (0x22 :: rest) := by
  unfold skipValue
  rw [StateT.run_bind, run_skipWs_of_head (by decide)]
  rfl

theorem run_parseCertifier_null (rest : Bytes) :
    parseCertifier.run (write .null ++ rest) = .ok (none, rest) := by
  have hskip : parseCertifier.run (write .null ++ rest) =
      (do skipValue; pure none : VReader (Option Certifier)).run (write .null ++ rest) := by
    unfold parseCertifier
    simp only [write, List.cons_append, List.nil_append]
    rw [StateT.run_bind, run_skipWs_of_head (by decide)]
    rfl
  rw [hskip, StateT.run_bind, run_skipValue_null]
  rfl

theorem reads_certifier (o : Option Certifier) :
    Reads parseCertifier .malformed (write (certifierTree o)) (∀ c ∈ o, c.Readable) o := by
  cases o with
  | none =>
    constructor
    · intro _ rest _
      exact run_parseCertifier_null rest
    · intro hbad
      exact absurd (fun c hc => nomatch hc) hbad
  | some c =>
    have htool : ReadsMembers .malformed parseString toolMember {}
        [("name", .str c.tool.name), ("version", .str c.tool.version)]
        (Readable c.tool.name ∧ Readable c.tool.version ∧ True)
        ⟨some c.tool.name, some c.tool.version⟩ := by
      refine .cons (reads_key _ (by decide)) ((reads_string _).map _) ?_
      refine .cons (reads_key _ (by decide)) ((reads_string _).map _) ?_
      exact .nil
    have hmembers : ReadsMembers .malformed parseString certifierMember {}
        [("class", .str c.cls), ("name", .str c.name), ("recognition", .str c.recognition),
          ("tool", .obj [("name", .str c.tool.name), ("version", .str c.tool.version)]),
          ("toolchain", .str c.toolchain)]
        (Readable c.cls ∧ Readable c.name ∧ Readable c.recognition ∧
          (Readable c.tool.name ∧ Readable c.tool.version ∧ True) ∧ Readable c.toolchain ∧ True)
        ⟨some c.cls, some c.name, some c.recognition, ⟨some c.tool.name, some c.tool.version⟩,
          some c.toolchain⟩ := by
      refine .cons (reads_key _ (by decide)) ((reads_string _).map _) ?_
      refine .cons (reads_key _ (by decide)) ((reads_string _).map _) ?_
      refine .cons (reads_key _ (by decide)) ((reads_string _).map _) ?_
      refine .cons (reads_key _ (by decide)) (htool.object.map _) ?_
      refine .cons (reads_key _ (by decide)) ((reads_string _).map _) ?_
      exact .nil
    have hobject : Reads (parseObject certifierMember {} >>= certifierOf) .malformed
        (write (certifierTree (some c))) (∀ d ∈ some c, d.Readable) (some c) := by
      refine (hmembers.object.bind fun _ => rfl).congr ?_
      simp [Certifier.Readable, and_assoc]
    have hrun : ∀ rest, parseCertifier.run (write (certifierTree (some c)) ++ rest) =
        (parseObject certifierMember {} >>= certifierOf).run
          (write (certifierTree (some c)) ++ rest) := by
      intro rest
      unfold certifierTree
      rw [write, List.cons_append]
      exact run_parseCertifier_object _
    constructor
    · intro hgood rest hrest
      rw [hrun]
      exact hobject.accept hgood rest hrest
    · intro hbad rest hrest
      rw [hrun]
      exact hobject.refuse hbad rest hrest

theorem reads_emitted (e : EmittedChecksData) :
    Reads parseEmitted .malformed (write (emittedTree e)) True e := by
  have hmembers : ReadsMembers .malformed parseString emittedMember ⟨0, 0, 0⟩
      [("subtype_range", .num e.subtypeRange.toNat), ("contract", .num e.contract.toNat),
        ("mmio_bounds", .num e.mmioBounds.toNat)] (True ∧ True ∧ True ∧ True) e := by
    refine .cons (reads_key _ (by decide)) ((reads_u32 _).map _) ?_
    refine .cons (reads_key _ (by decide)) ((reads_u32 _).map _) ?_
    refine .cons (reads_key _ (by decide)) ((reads_u32 _).map _) ?_
    exact .nil
  exact hmembers.object.congr (by simp)

theorem reads_sources (c : UInt32 × UInt32) :
    Reads (parseObject sourcesMember (0, 0)) .malformed (write (sourcesTree c)) True c := by
  have hmembers : ReadsMembers .malformed parseString sourcesMember (0, 0)
      [("file", .num c.1.toNat), ("in_tree", .num c.2.toNat)] (True ∧ True ∧ True) c := by
    refine .cons (reads_key _ (by decide)) ((reads_u32 _).map _) ?_
    refine .cons (reads_key _ (by decide)) ((reads_u32 _).map _) ?_
    exact .nil
  exact hmembers.object.congr (by simp)

def ProvablyFailingRecord.Readable (p : ProvablyFailingRecord) : Prop :=
  VerdictFile.Readable p.id ∧ VerdictFile.Readable p.note

theorem reads_pfi (p : ProvablyFailingRecord) :
    Reads parsePfi .malformed (write (pfiTree p)) p.Readable p := by
  have hmembers : ReadsMembers .malformed parseString pfiMember {}
      [("id", .str p.id), ("note", .str p.note)] (Readable p.id ∧ Readable p.note ∧ True)
      ⟨some p.id, some p.note⟩ := by
    refine .cons (reads_key _ (by decide)) ((reads_string _).map _) ?_
    refine .cons (reads_key _ (by decide)) ((reads_string _).map _) ?_
    exact .nil
  exact (hmembers.object.bind fun _ => rfl).congr (by simp [ProvablyFailingRecord.Readable])

def OpenReasonRecord.Readable (r : OpenReasonRecord) : Prop :=
  VerdictFile.Readable r.id ∧ VerdictFile.Readable r.reason

theorem reads_reason (r : OpenReasonRecord) :
    Reads parseReason .malformed (write (reasonTree r)) r.Readable r := by
  have hmembers : ReadsMembers .malformed parseString reasonMember {}
      [("id", .str r.id), ("reason", .str r.reason)] (Readable r.id ∧ Readable r.reason ∧ True)
      ⟨some r.id, some r.reason⟩ := by
    refine .cons (reads_key _ (by decide)) ((reads_string _).map _) ?_
    refine .cons (reads_key _ (by decide)) ((reads_string _).map _) ?_
    exact .nil
  exact (hmembers.object.bind fun _ => rfl).congr (by simp [OpenReasonRecord.Readable])

theorem reads_unknown {σ : Type} (s : σ) (text : String) :
    Reads (skipUnknown s) .malformed (write (.str text)) (Readable text) s := by
  have hrun : ∀ rest, (skipUnknown s).run (write (.str text) ++ rest) =
      (do let _ ← parseString; pure s : VReader σ).run (write (.str text) ++ rest) := by
    intro rest
    have hquote : ∃ t, write (.str text) ++ rest = 0x22 :: t := ⟨_, rfl⟩
    obtain ⟨t, ht⟩ := hquote
    unfold skipUnknown
    rw [ht, StateT.run_bind, run_skipValue_string]
    show ((parseString >>= fun _ => pure ()) >>= fun _ => pure s : VReader σ).run (0x22 :: t) = _
    rw [bind_assoc]
    rfl
  have hstring := (reads_string text).map fun _ => s
  constructor
  · intro hgood rest hrest
    rw [hrun]
    exact hstring.accept hgood rest hrest
  · intro hbad rest hrest
    rw [hrun]
    exact hstring.refuse hbad rest hrest

/-! ## The document -/

/-- Every text of the document is readable, and every claim in it complete. -/
structure VerdictsInput.Readable (v : VerdictsInput) : Prop where
  certifier : ∀ c ∈ v.certifier, c.Readable
  target : VerdictFile.Readable v.target
  modelSemantics : VerdictFile.Readable v.modelSemantics
  concurrency : VerdictFile.Readable v.concurrency
  records : ∀ r ∈ v.records, r.Readable

structure EchoInput.Readable (e : EchoInput) : Prop where
  verdicts : e.verdicts.Readable
  provablyFailing : ∀ p ∈ e.provablyFailing, p.Readable
  openReasons : ∀ r ∈ e.openReasons, r.Readable
  verifyTool : ∀ t ∈ e.verifyTool, VerdictFile.Readable t

def VerdictsInput.parts (v : VerdictsInput) : DocParts where
  schema := some VERDICTS_SCHEMA
  semantics := some SEMANTICS_VERSION
  stmt := some STMT_SCHEMA
  certifier := v.certifier
  target := some v.target
  modelSemantics := some v.modelSemantics
  concurrency := some v.concurrency
  records := some v.records
  staleVerdicts := writtenCount v.staleVerdicts
  emitted := v.emitted.written

theorem reads_docMembers (v : VerdictsInput) (hwf : ∀ r ∈ v.records, r.WellFormed)
    {extra : List (String × Json)} {good : Prop} {s : DocParts}
    (hextra : ReadsMembers .malformed parseString docMember v.parts extra good s) :
    ReadsMembers .malformed parseString docMember {} (docMembers v extra)
      (v.Readable ∧ good) s := by
  have hverdicts : Reads (parseArray parseRecord) .malformed
      (write (.arr (v.records.map recordTree))) (∀ r ∈ v.records, r.Readable) v.records :=
    Reads.array fun r hr => reads_record (hwf r hr)
  have hmembers : ReadsMembers .malformed parseString docMember {} (docMembers v extra)
      (True ∧ (∀ c ∈ v.certifier, c.Readable) ∧ True ∧ True ∧ Readable v.target ∧
        Readable v.modelSemantics ∧ Readable v.concurrency ∧ (∀ r ∈ v.records, r.Readable) ∧
        (∀ n ∈ writtenCount v.staleVerdicts, True) ∧ (∀ e ∈ v.emitted.written, True) ∧ good) s := by
    refine .cons (reads_key _ (by decide)) ((reads_key _ (by decide)).map _) ?_
    refine .cons (reads_key _ (by decide)) ((reads_certifier _).map _) ?_
    refine .cons (reads_key _ (by decide)) ((reads_key _ (by decide)).map _) ?_
    refine .cons (reads_key _ (by decide)) ((reads_key _ (by decide)).map _) ?_
    refine .cons (reads_key _ (by decide)) ((reads_string _).map _) ?_
    refine .cons (reads_key _ (by decide)) ((reads_string _).map _) ?_
    refine .cons (reads_key _ (by decide)) ((reads_string _).map _) ?_
    refine .cons (reads_key _ (by decide)) (hverdicts.map _) ?_
    apply ReadsMembers.optional (fun o => ({ v.parts with staleVerdicts := o, emitted := none } : DocParts))
    · exact reads_key _ (by decide)
    · exact fun n => (reads_u32 n).map _
    apply ReadsMembers.optional (fun o => ({ v.parts with emitted := o } : DocParts))
    · exact reads_key _ (by decide)
    · exact fun e => (reads_emitted e).map _
    exact hextra
  have hgood : (True ∧ (∀ c ∈ v.certifier, c.Readable) ∧ True ∧ True ∧ Readable v.target ∧
      Readable v.modelSemantics ∧ Readable v.concurrency ∧ (∀ r ∈ v.records, r.Readable) ∧
      (∀ n ∈ writtenCount v.staleVerdicts, True) ∧ (∀ e ∈ v.emitted.written, True) ∧ good) ↔
      v.Readable ∧ good := by
    constructor
    · intro ⟨_, hcert, _, _, htarget, hmodel, hconc, hrecords, _, _, hlast⟩
      exact ⟨⟨hcert, htarget, hmodel, hconc, hrecords⟩, hlast⟩
    · intro ⟨h, hlast⟩
      exact ⟨trivial, h.certifier, trivial, trivial, h.target, h.modelSemantics, h.concurrency,
        h.records, fun _ _ => trivial, fun _ _ => trivial, hlast⟩
  rw [← propext hgood]
  exact hmembers

def EchoInput.parts (e : EchoInput) : DocParts :=
  { e.verdicts.parts with
    provablyFailing := writtenList e.provablyFailing
    openReasons := writtenList e.openReasons
    sources := e.sources }

theorem reads_echoExtra (e : EchoInput) :
    ReadsMembers .malformed parseString docMember e.verdicts.parts (echoExtra e)
      ((∀ xs ∈ writtenList e.provablyFailing, ∀ p ∈ xs, p.Readable) ∧
        (∀ xs ∈ writtenList e.openReasons, ∀ r ∈ xs, r.Readable) ∧ (∀ c ∈ e.sources, True) ∧
        (∀ t ∈ e.verifyTool, Readable t) ∧ True) e.parts := by
  unfold echoExtra
  apply ReadsMembers.optional (fun o => ({ e.verdicts.parts with provablyFailing := o } : DocParts))
  · exact reads_key _ (by decide)
  · exact fun xs => (Reads.array fun p _ => reads_pfi p).map _
  apply ReadsMembers.optional (fun o => ({ e.verdicts.parts with
    provablyFailing := writtenList e.provablyFailing, openReasons := o } : DocParts))
  · exact reads_key _ (by decide)
  · exact fun xs => (Reads.array fun r _ => reads_reason r).map _
  apply ReadsMembers.optional (fun o => ({ e.verdicts.parts with
    provablyFailing := writtenList e.provablyFailing
    openReasons := writtenList e.openReasons
    sources := o } : DocParts))
  · exact reads_key _ (by decide)
  · exact fun c => (reads_sources c).map _
  apply ReadsMembers.optional (fun _ => e.parts)
  · exact reads_key _ (by decide)
  · exact fun t => reads_unknown e.parts t
  exact .nil

/-! ## Round trip -/

def verdictsTree (v : VerdictsInput) : Json := .obj (docMembers v [])

def echoTree (e : EchoInput) : Json := .obj (docMembers e.verdicts (echoExtra e))

theorem verdictsText_eq_write (v : VerdictsInput) : verdictsText v = write (verdictsTree v) := by
  obtain ⟨body, htext, hwrite⟩ := verdictsText_eq v
  rw [htext, verdictsTree, hwrite]
  rfl

theorem echoText_eq_write (e : EchoInput) :
    (verdictsText e.verdicts).dropLast ++ echoMembers e ++ utf8 "\x7d" = write (echoTree e) := by
  obtain ⟨body, htext, hwrite⟩ := verdictsText_eq e.verdicts
  rw [htext, echoTree, hwrite, echoMembers_eq, List.dropLast_concat, List.append_assoc]
  rfl

theorem size_verdictsTree_le (e : EchoInput) :
    (verdictsTree e.verdicts).size ≤ (echoTree e).size := by
  obtain ⟨body, -, hwrite⟩ := verdictsText_eq e.verdicts
  rw [← length_write, ← length_write, verdictsTree, echoTree, hwrite, hwrite]
  simp only [writeMembers, List.length_append, List.length_nil]
  omega

theorem encodeVerdicts_eq_ok {v : VerdictsInput} {bytes : Bytes} :
    encodeVerdicts v = .ok bytes ↔
      (verdictsTree v).size ≤ VERDICTS_FILE_MAX_BYTES ∧ bytes = write (verdictsTree v) := by
  unfold encodeVerdicts
  rw [verdictsText_eq_write, ← length_write]
  simp only [bind_eq_ok, pure_eq_ok, require_eq_ok]
  constructor
  · intro ⟨_, hsize, hbytes⟩
    exact ⟨hsize, hbytes.symm⟩
  · intro ⟨hsize, hbytes⟩
    exact ⟨⟨⟩, hsize, hbytes.symm⟩

theorem encodeEcho_eq_ok {e : EchoInput} {bytes : Bytes} :
    encodeEcho e = .ok bytes ↔
      (echoTree e).size ≤ VERDICTS_FILE_MAX_BYTES ∧ bytes = write (echoTree e) := by
  unfold encodeEcho
  simp only [bind_eq_ok, pure_eq_ok, require_eq_ok, encodeVerdicts_eq_ok]
  constructor
  · intro ⟨doc, hdoc, _, hsize, hbytes⟩
    rw [hdoc.2, ← verdictsText_eq_write, echoText_eq_write] at hsize hbytes
    rw [length_write] at hsize
    exact ⟨hsize, hbytes.symm⟩
  · intro ⟨hsize, hbytes⟩
    refine ⟨_, ⟨Nat.le_trans (size_verdictsTree_le e) hsize, rfl⟩, ⟨⟩, ?_⟩
    rw [← verdictsText_eq_write, echoText_eq_write, length_write]
    exact ⟨hsize, hbytes.symm⟩

theorem readEcho_eq_ok {bytes : Bytes} {d : Doc} :
    readEcho bytes = .ok d ↔ bytes.length ≤ VERDICTS_FILE_MAX_BYTES ∧
      (∃ rest, parseDoc.run bytes = .ok (d, rest)) ∧ d.schema = VERDICTS_SCHEMA ∧
      d.verdicts.semantics = SEMANTICS_VERSION := by
  unfold readEcho
  simp only [bind_eq_ok, pure_eq_ok, require_eq_ok]
  constructor
  · intro ⟨_, hcap, ⟨d', rest⟩, hparse, _, hschema, _, hsem, hd⟩
    subst hd
    exact ⟨hcap, ⟨rest, hparse⟩, hschema, hsem⟩
  · intro ⟨hcap, ⟨rest, hparse⟩, hschema, hsem⟩
    exact ⟨⟨⟩, hcap, (d, rest), hparse, ⟨⟩, hschema, ⟨⟩, hsem, rfl⟩

def InIdOrder (records out : List VerdictRecord) : Prop :=
  out.Perm records ∧ out.Pairwise fun a b => a.id ≤ b.id

theorem sortById_inIdOrder (records : List VerdictRecord) : InIdOrder records (sortById records) := by
  refine ⟨List.mergeSort_perm _ _, ?_⟩
  have hsorted : (sortById records).Pairwise fun a b => (!decide (b.id < a.id)) = true := by
    apply List.pairwise_mergeSort
    · intro a b c hab hbc
      simp only [Bool.not_eq_true', decide_eq_false_iff_not, String.not_lt] at hab hbc ⊢
      exact String.le_trans hab hbc
    · intro a b
      simp only [Bool.or_eq_true, Bool.not_eq_true', decide_eq_false_iff_not, String.not_lt]
      exact String.le_total a.id b.id
  apply hsorted.imp
  intro a b hab
  simp only [Bool.not_eq_true', decide_eq_false_iff_not, String.not_lt] at hab
  exact hab

theorem readVerdicts_iff {members : List (String × Json)} {good : Prop} {s : DocParts}
    {records : List VerdictRecord}
    (hsize : (Json.obj members).size ≤ VERDICTS_FILE_MAX_BYTES)
    (hmembers : ReadsMembers .malformed parseString docMember {} members good s)
    (hschema : s.schema = some VERDICTS_SCHEMA) (hsem : s.semantics = some SEMANTICS_VERSION)
    (hrecords : s.records = some records) :
    (∃ d, readVerdicts (write (.obj members)) = .ok d ∧ InIdOrder records d.records) ↔ good := by
  have hdoc : ∃ d : Doc, (∀ rest, (docOf s).run rest = .ok (d, rest)) ∧ d.schema = VERDICTS_SCHEMA ∧
      d.verdicts.semantics = SEMANTICS_VERSION ∧ d.verdicts.records = records := by
    unfold docOf
    rw [hschema, hsem, hrecords]
    exact ⟨_, fun _ => rfl, rfl, rfl, rfl⟩
  obtain ⟨d, hrun, hdschema, hdsem, hdrecords⟩ := hdoc
  have hparse : Reads parseDoc .malformed (write (.obj members)) good d := hmembers.object.bind hrun
  rw [← length_write] at hsize
  generalize write (.obj members) = text at hparse hsize
  unfold readVerdicts
  constructor
  · intro ⟨v, hread, _⟩
    obtain ⟨d', hecho, -⟩ := bind_eq_ok.mp hread
    obtain ⟨rest, hrest⟩ := (readEcho_eq_ok.mp hecho).2.1
    by_contra hbad
    have hrefused := hparse.refuse hbad [] follow_nil
    rw [List.append_nil, hrest] at hrefused
    cases hrefused
  · intro hgood
    have haccepted := hparse.accept hgood [] follow_nil
    rw [List.append_nil] at haccepted
    have hecho := readEcho_eq_ok.mpr ⟨hsize, ⟨[], haccepted⟩, hdschema, hdsem⟩
    refine ⟨_, bind_eq_ok.mpr ⟨d, hecho, rfl⟩, ?_⟩
    show InIdOrder records (sortById d.verdicts.records)
    rw [hdrecords]
    exact sortById_inIdOrder records

theorem readVerdicts_verdictsTree {v : VerdictsInput} (hwf : ∀ r ∈ v.records, r.WellFormed)
    (hsize : (verdictsTree v).size ≤ VERDICTS_FILE_MAX_BYTES) :
    (∃ d, readVerdicts (write (verdictsTree v)) = .ok d ∧ InIdOrder v.records d.records) ↔
      v.Readable := by
  have hmembers := reads_docMembers v hwf .nil
  rw [and_true] at hmembers
  exact readVerdicts_iff hsize hmembers rfl rfl rfl

/-- The verdicts that a reader has of a document with the stamps of this build. -/
def VerdictsInput.verdicts (v : VerdictsInput) : Verdicts where
  semantics := SEMANTICS_VERSION
  stmt := STMT_SCHEMA
  certifier := v.certifier
  target := v.target
  modelSemantics := v.modelSemantics
  concurrency := v.concurrency
  records := sortById v.records

theorem readVerdicts_write {v : VerdictsInput} (hwf : ∀ r ∈ v.records, r.WellFormed)
    (hsize : (verdictsTree v).size ≤ VERDICTS_FILE_MAX_BYTES) (hgood : v.Readable) :
    readVerdicts (write (verdictsTree v)) = .ok v.verdicts := by
  have hmembers := reads_docMembers v hwf .nil
  rw [and_true] at hmembers
  have hrun : ∃ d : Doc, (∀ rest, (docOf v.parts).run rest = .ok (d, rest)) ∧
      d.schema = VERDICTS_SCHEMA ∧ d.verdicts.semantics = SEMANTICS_VERSION ∧
      { d.verdicts with records := sortById d.verdicts.records } = v.verdicts :=
    ⟨_, fun _ => rfl, rfl, rfl, rfl⟩
  obtain ⟨d, hrun, hschema, hsem, hverdicts⟩ := hrun
  have hparse := (hmembers.object.bind hrun).accept hgood [] follow_nil
  rw [List.append_nil] at hparse
  rw [← length_write] at hsize
  have hecho := readEcho_eq_ok.mpr ⟨hsize, ⟨[], hparse⟩, hschema, hsem⟩
  refine bind_eq_ok.mpr ⟨d, hecho, ?_⟩
  rw [← hverdicts]
  rfl

theorem readVerdicts_echoTree {e : EchoInput} (hwf : ∀ r ∈ e.records, r.WellFormed)
    (hsize : (echoTree e).size ≤ VERDICTS_FILE_MAX_BYTES) :
    (∃ d, readVerdicts (write (echoTree e)) = .ok d ∧ InIdOrder e.records d.records) ↔
      e.Readable := by
  have hlist : ∀ {α : Type} {good : α → Prop} (xs : List α),
      (∀ ys ∈ writtenList xs, ∀ x ∈ ys, good x) ↔ ∀ x ∈ xs, good x := by
    intro α good xs
    unfold writtenList
    cases xs <;> simp
  have hmembers := reads_docMembers e.verdicts hwf (reads_echoExtra e)
  refine (readVerdicts_iff hsize hmembers rfl rfl rfl).trans ?_
  rw [hlist, hlist]
  constructor
  · intro ⟨hv, hpfi, hreasons, _, htool, _⟩
    exact ⟨hv, hpfi, hreasons, htool⟩
  · intro h
    exact ⟨h.verdicts, h.provablyFailing, h.openReasons, fun _ _ => trivial, h.verifyTool, trivial⟩

/-- Both writers round-trip exactly when the document fits into a file, its strings are readable
and its claims complete. -/
theorem readVerdicts_encode_iff (v : VerdictsInput) (e : EchoInput)
    (hv : ∀ r ∈ v.records, r.WellFormed) (he : ∀ r ∈ e.records, r.WellFormed) :
    ((∃ d, (encodeVerdicts v >>= readVerdicts) = .ok d ∧ InIdOrder v.records d.records) ↔
      (verdictsTree v).size ≤ VERDICTS_FILE_MAX_BYTES ∧ v.Readable) ∧
    ((∃ d, (encodeEcho e >>= readVerdicts) = .ok d ∧ InIdOrder e.records d.records) ↔
      (echoTree e).size ≤ VERDICTS_FILE_MAX_BYTES ∧ e.Readable) := by
  constructor
  · constructor
    · intro ⟨d, hread, horder⟩
      obtain ⟨bytes, hencode, hback⟩ := bind_eq_ok.mp hread
      obtain ⟨hsize, hbytes⟩ := encodeVerdicts_eq_ok.mp hencode
      rw [hbytes] at hback
      exact ⟨hsize, (readVerdicts_verdictsTree hv hsize).mp ⟨d, hback, horder⟩⟩
    · intro ⟨hsize, hgood⟩
      obtain ⟨d, hback, horder⟩ := (readVerdicts_verdictsTree hv hsize).mpr hgood
      exact ⟨d, bind_eq_ok.mpr ⟨_, encodeVerdicts_eq_ok.mpr ⟨hsize, rfl⟩, hback⟩, horder⟩
  · constructor
    · intro ⟨d, hread, horder⟩
      obtain ⟨bytes, hencode, hback⟩ := bind_eq_ok.mp hread
      obtain ⟨hsize, hbytes⟩ := encodeEcho_eq_ok.mp hencode
      rw [hbytes] at hback
      exact ⟨hsize, (readVerdicts_echoTree he hsize).mp ⟨d, hback, horder⟩⟩
    · intro ⟨hsize, hgood⟩
      obtain ⟨d, hback, horder⟩ := (readVerdicts_echoTree he hsize).mpr hgood
      exact ⟨d, bind_eq_ok.mpr ⟨_, encodeEcho_eq_ok.mpr ⟨hsize, rfl⟩, hback⟩, horder⟩

def assumedRecord (justification : String) : VerdictRecord where
  id := "Bank::inc::subtype-range::0"
  idHash := "5ebc3ea22d4b97a1"
  status := .assumed
  trust := .assumed
  method := none
  surface := none
  statementHash := none
  authored := some .developer
  proof := none
  claimed := none
  justification := some justification
  witnessReason := none
  note := none

theorem assumedRecord_wellFormed (justification : String) :
    (assumedRecord justification).WellFormed where
  trusted _ := nofun
  proof h := nomatch h
  hash _ h := nomatch h

def assumedInput (justification : String) : VerdictsInput where
  certifier := none
  target := "x86_64"
  modelSemantics := MODEL_UNMODELED
  concurrency := CONCURRENCY_UNMODELED
  records := [assumedRecord justification]
  staleVerdicts := 0
  emitted := ⟨0, 0, 0⟩

def assumedEcho (justification : String) : EchoInput where
  toolName := "tyuc"
  toolVersion := "0.1.0"
  target := "x86_64"
  modelSemantics := MODEL_UNMODELED
  concurrency := CONCURRENCY_UNMODELED
  records := [assumedRecord justification]
  staleVerdicts := 0
  emitted := ⟨0, 0, 0⟩
  provablyFailing := []
  openReasons := []
  inTreeVerdicts := 0
  verifyTool := none

theorem assumedRecords_wellFormed (justification : String) :
    ∀ r ∈ [assumedRecord justification], r.WellFormed := by
  intro r hr
  rw [List.mem_singleton.mp hr]
  exact assumedRecord_wellFormed justification

/-- A control character in a justification: both documents are written, and neither is read. -/
theorem control_justification_lost :
    (∀ r ∈ (assumedInput "\x01").records, r.WellFormed) ∧
      (∃ bytes, encodeVerdicts (assumedInput "\x01") = .ok bytes) ∧
      (∃ bytes, encodeEcho (assumedEcho "\x01") = .ok bytes) ∧
      ¬ (∃ d, (encodeVerdicts (assumedInput "\x01") >>= readVerdicts) = .ok d ∧
        InIdOrder (assumedInput "\x01").records d.records) ∧
      ¬ (∃ d, (encodeEcho (assumedEcho "\x01") >>= readVerdicts) = .ok d ∧
        InIdOrder (assumedEcho "\x01").records d.records) := by
  have hwf := assumedRecords_wellFormed "\x01"
  have hbad : ¬ (assumedRecord "\x01").Readable := fun h =>
    absurd (h.justification "\x01" rfl).2 (by decide)
  have hsize : (verdictsTree (assumedInput "\x01")).size ≤ VERDICTS_FILE_MAX_BYTES := by
    decide
  have hecho : (echoTree (assumedEcho "\x01")).size ≤ VERDICTS_FILE_MAX_BYTES := by
    decide
  refine ⟨hwf, ⟨_, encodeVerdicts_eq_ok.mpr ⟨hsize, rfl⟩⟩, ⟨_, encodeEcho_eq_ok.mpr ⟨hecho, rfl⟩⟩,
    fun h => ?_, fun h => ?_⟩
  · obtain ⟨d, hread, horder⟩ := h
    obtain ⟨bytes, hencode, hback⟩ := bind_eq_ok.mp hread
    rw [(encodeVerdicts_eq_ok.mp hencode).2] at hback
    have hgood := (readVerdicts_verdictsTree hwf hsize).mp ⟨d, hback, horder⟩
    exact hbad (hgood.records _ (List.mem_singleton.mpr rfl))
  · obtain ⟨d, hread, horder⟩ := h
    obtain ⟨bytes, hencode, hback⟩ := bind_eq_ok.mp hread
    rw [(encodeEcho_eq_ok.mp hencode).2] at hback
    have hgood := (readVerdicts_echoTree hwf hecho).mp ⟨d, hback, horder⟩
    exact hbad (hgood.verdicts.records _ (List.mem_singleton.mpr rfl))

theorem assumed_round_trip :
    ((∃ d, (encodeVerdicts (assumedInput "reviewed") >>= readVerdicts) = .ok d ∧
        InIdOrder (assumedInput "reviewed").records d.records) ↔
      (verdictsTree (assumedInput "reviewed")).size ≤ VERDICTS_FILE_MAX_BYTES ∧
        (assumedInput "reviewed").Readable) ∧
    ((∃ d, (encodeEcho (assumedEcho "reviewed") >>= readVerdicts) = .ok d ∧
        InIdOrder (assumedEcho "reviewed").records d.records) ↔
      (echoTree (assumedEcho "reviewed")).size ≤ VERDICTS_FILE_MAX_BYTES ∧
        (assumedEcho "reviewed").Readable) :=
  readVerdicts_encode_iff _ _ (assumedRecords_wellFormed "reviewed")
    (assumedRecords_wellFormed "reviewed")

end VerdictFile

end Tyu
