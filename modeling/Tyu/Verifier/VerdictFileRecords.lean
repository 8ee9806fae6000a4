import Tyu.Verifier.VerdictFileTree

/-! # Reading the records of a verdicts file back -/

namespace Tyu

open Lib Lib.Json Manifest

namespace VerdictFile

/-! ## Strings -/

def plainByte (b : UInt8) : Bool :=
  0x20 ≤ b || b = 0x08 || b = 0x09 || b = 0x0A || b = 0x0C || b = 0x0D

/-- A string that the reader takes back: at most 512 bytes and no control character that has
no one-letter escape. -/
def Readable (s : String) : Prop :=
  (utf8 s).length ≤ VERDICT_ID_MAX_BYTES ∧ (utf8 s).all plainByte = true

instance (s : String) : Decidable (Readable s) := inferInstanceAs (Decidable (_ ∧ _))

theorem stringBytes_close (out rest : Bytes) : stringBytes out (0x22 :: rest) = .ok (out, rest) := by
  rw [stringBytes.eq_def]
  rfl

theorem stringBytes_self {b : UInt8} (hquote : b ≠ 0x22) (hback : b ≠ 0x5C) (hcontrol : ¬ b < 0x20)
    (out rest : Bytes) :
    stringBytes out (b :: rest) =
      if (out ++ [b]).length > VERDICT_ID_MAX_BYTES then .error .malformed
      else stringBytes (out ++ [b]) rest := by
  rw [stringBytes.eq_def]
  simp only [if_neg hquote, if_neg hback, if_neg hcontrol]

theorem stringBytes_plain {b : UInt8} (h : plainByte b = true) (out rest : Bytes) :
    stringBytes out (escape b ++ rest) =
      if (out ++ [b]).length > VERDICT_ID_MAX_BYTES then .error .malformed
      else stringBytes (out ++ [b]) rest := by
  unfold escape
  by_cases h1 : b = 0x22
  · subst h1; rfl
  by_cases h2 : b = 0x5C
  · subst h2; rfl
  by_cases h3 : b = 0x08
  · subst h3; rfl
  by_cases h4 : b = 0x0C
  · subst h4; rfl
  by_cases h5 : b = 0x0A
  · subst h5; rfl
  by_cases h6 : b = 0x0D
  · subst h6; rfl
  by_cases h7 : b = 0x09
  · subst h7; rfl
  have h8 : ¬ b < 0x20 := by
    simp only [plainByte, h3, h4, h5, h6, h7, decide_false, Bool.or_false, decide_eq_true_eq] at h
    exact UInt8.not_lt.mpr h
  rw [if_neg h1, if_neg h2, if_neg h3, if_neg h4, if_neg h5, if_neg h6, if_neg h7, if_neg h8]
  exact stringBytes_self h1 h2 h8 out rest

theorem stringBytes_control {b : UInt8} (h : plainByte b = false) (out rest : Bytes) :
    stringBytes out (escape b ++ rest) = .error .malformed := by
  simp only [plainByte, Bool.or_eq_false_iff, decide_eq_false_iff_not] at h
  have h1 : b ≠ 0x22 := by
    intro hb
    rw [hb] at h
    exact h.1.1.1.1.1 (by decide)
  have h2 : b ≠ 0x5C := by
    intro hb
    rw [hb] at h
    exact h.1.1.1.1.1 (by decide)
  unfold escape
  rw [if_neg h1, if_neg h2, if_neg h.1.1.1.1.2, if_neg h.1.2, if_neg h.1.1.2, if_neg h.2,
    if_neg h.1.1.1.2, if_pos (UInt8.not_le.mp h.1.1.1.1.1)]
  rfl

theorem stringBytes_eq (bs out rest : Bytes) (hout : out.length ≤ VERDICT_ID_MAX_BYTES) :
    stringBytes out (bs.flatMap escape ++ 0x22 :: rest) =
      if (out ++ bs).length ≤ VERDICT_ID_MAX_BYTES ∧ bs.all plainByte = true then
        .ok (out ++ bs, rest)
      else .error .malformed := by
  induction bs generalizing out with
  | nil =>
    rw [List.append_nil, if_pos ⟨hout, rfl⟩]
    exact stringBytes_close out rest
  | cons b bs ih =>
    have happend : out ++ [b] ++ bs = out ++ b :: bs := by simp
    rw [List.flatMap_cons, List.append_assoc]
    by_cases hb : plainByte b = true
    · rw [stringBytes_plain hb]
      by_cases hlen : (out ++ [b]).length > VERDICT_ID_MAX_BYTES
      · rw [if_pos hlen, if_neg]
        intro hgood
        have hle := hgood.1
        simp only [List.length_append, List.length_cons, List.length_nil] at hle hlen
        omega
      · rw [if_neg hlen, ih (out ++ [b]) (by omega), happend]
        simp only [List.all_cons, hb, Bool.true_and]
    · rw [Bool.not_eq_true] at hb
      rw [stringBytes_control hb, if_neg]
      intro hgood
      rw [List.all_cons, hb] at hgood
      exact absurd hgood.2 (by simp)

theorem run_parseString {bytes out rest : Bytes} {s : String}
    (hout : stringBytes [] bytes = .ok (out, rest))
    (hs : String.fromUTF8? out.toByteArray = some s) :
    parseString.run (0x22 :: bytes) = .ok (s, rest) := by
  unfold parseString
  rw [run_skipWs_bind (by decide), run_bump_bind, if_neg (by decide), StateT.run_bind]
  show (stringBytes [] bytes >>= _) = _
  rw [hout]
  show StateT.run _ rest = _
  simp only [hs]
  rfl

theorem run_parseString_bad {bytes : Bytes} (h : stringBytes [] bytes = .error .malformed) :
    parseString.run (0x22 :: bytes) = .error .malformed := by
  unfold parseString
  rw [run_skipWs_bind (by decide), run_bump_bind, if_neg (by decide), StateT.run_bind]
  show (stringBytes [] bytes >>= _) = _
  rw [h]
  rfl

theorem reads_string (s : String) :
    Reads parseString .malformed (write (.str s)) (Readable s) s := by
  have htext : ∀ rest, write (.str s) ++ rest =
      0x22 :: ((utf8 s).flatMap escape ++ 0x22 :: rest) := by
    intro rest
    simp [write, quote]
  constructor
  · intro hgood rest _
    unfold Readable at hgood
    rw [htext]
    refine run_parseString ?_ (fromUTF8_utf8 s)
    rw [stringBytes_eq _ [] rest (by simp), List.nil_append, if_pos hgood]
  · intro hbad rest _
    unfold Readable at hbad
    rw [htext]
    refine run_parseString_bad ?_
    rw [stringBytes_eq _ [] rest (by simp), List.nil_append, if_neg hbad]

theorem reads_key (k : String) (h : Readable k) :
    Reads parseString .malformed (quote k) True k :=
  (reads_string k).congr ⟨fun _ => trivial, fun _ => h⟩

theorem reads_closed {α : Type} {parse : String → Option α} {unknown : String → VerdictError}
    {asStr : α → String} {a : α} (hparse : parse (asStr a) = some a) (hread : Readable (asStr a)) :
    Reads (parseClosed parse unknown) .malformed (write (.str (asStr a))) True a := by
  have hbind : Reads (parseClosed parse unknown) .malformed (write (.str (asStr a)))
      (Readable (asStr a)) a :=
    (reads_string (asStr a)).bind fun rest => by
      rw [hparse]
      rfl
  exact hbind.congr ⟨fun _ => trivial, fun _ => hread⟩

/-- A member of a claim: a string is wanted where `null` may stand. -/
def Present (o : Option String) : Prop := ∃ s, o = some s ∧ Readable s

theorem reads_orNull (o : Option String) :
    Reads (do let v ← parseString; pure (some v)) .malformed (write (orNull o)) (Present o) o := by
  cases o with
  | none =>
    constructor
    · intro hgood
      obtain ⟨s, hs, -⟩ := hgood
      cases hs
    · intro _ rest _
      unfold parseString
      simp only [orNull, write, List.cons_append, StateT.run_bind]
      rw [run_skipWs_of_head (by decide)]
      rfl
  | some s =>
    refine ((reads_string s).map some).congr ⟨fun h => ⟨s, rfl, h⟩, ?_⟩
    rintro ⟨t, ht, h⟩
    exact Option.some.inj ht ▸ h

theorem reads_u32 (v : UInt32) :
    Reads parseU32 .malformed (write (.num v.toNat)) True v where
  accept _ rest hrest := by
    have hlt := v.toNat_lt
    have hnum : write (.num v.toNat) = decimal v.toNat := by
      simp only [write, number]
      rw [if_neg (by omega)]
      rfl
    obtain ⟨d, ds, hd, hdigit⟩ := decimal_head v.toNat
    have hspan := takeWhile_digits (fun _ => isDigit_of_mem_decimal (n := v.toNat)) hrest.not_digit
    have hminus : ¬ some d = some 0x2D := by
      intro h
      exact ne_of_isDigit hdigit (by decide) (Option.some.inj h)
    have hdigits : (parseDigits false).run (decimal v.toNat ++ rest) =
        .ok ((v.toNat : Int), rest) := by
      unfold parseDigits
      rw [run_get_bind]
      simp only [hspan.1, hspan.2, digitsFrom_decimal]
      rw [if_neg (decimal_ne_nil _)]
      show (if v.toNat > 2 ^ 63 - 1 then err else pure (if false = true then -(v.toNat : Int)
        else v.toNat) : VReader Int).run rest = _
      rw [if_neg (by omega)]
      rfl
    have hint : parseI64.run (decimal v.toNat ++ rest) = .ok ((v.toNat : Int), rest) := by
      rw [← hdigits, hd, List.cons_append]
      unfold parseI64
      rw [StateT.run_bind, run_skipWs_of_head (isSpace_of_isDigit hdigit)]
      show (if some d = some 0x2D then _ else parseDigits false : VReader Int).run _ = _
      rw [if_neg hminus]
    unfold parseU32
    rw [hnum, StateT.run_bind, hint]
    show (if (v.toNat : Int) < 0 ∨ (v.toNat : Int) > 2 ^ 32 - 1 then err
      else pure (UInt32.ofNat (v.toNat : Int).toNat) : VReader UInt32).run rest = _
    rw [if_neg (by omega), Int.toNat_natCast, UInt32.ofNat_toNat]
    rfl
  refuse h := absurd trivial h

/-! ## Records -/

def ProofInfo.Readable (p : ProofInfo) : Prop :=
  VerdictFile.Readable p.statement ∧ (∀ t ∈ p.thm, VerdictFile.Readable t) ∧
    (∀ t ∈ p.kernelCheck, VerdictFile.Readable t) ∧ (∀ t ∈ p.file, VerdictFile.Readable t) ∧
    ∀ xs ∈ p.relies, ∀ x ∈ xs, VerdictFile.Readable x

theorem reads_proof (p : ProofInfo) :
    Reads parseProof .malformed (write (proofTree p)) p.Readable p := by
  have hkind : Reads (parseClosed proofKindParse fun found => .unknownMethod found "proof.kind")
      .malformed (write (.str (proofKindStr p.kind))) True p.kind := by
    cases p.kind <;> exact reads_closed rfl (by decide)
  have hmembers : ReadsMembers .malformed parseString proofMember {}
      (("kind", .str (proofKindStr p.kind)) :: ("statement", .str p.statement) ::
        (optionalMember "theorem" Json.str p.thm ++
          (optionalMember "kernel_check" Json.str p.kernelCheck ++
            (optionalMember "file" Json.str p.file ++
              (optionalMember "relies" (fun xs => .arr (xs.map Json.str)) p.relies ++ [])))))
      (True ∧ Readable p.statement ∧ (∀ t ∈ p.thm, Readable t) ∧ (∀ t ∈ p.kernelCheck, Readable t) ∧
        (∀ t ∈ p.file, Readable t) ∧ (∀ xs ∈ p.relies, ∀ x ∈ xs, Readable x) ∧ True)
      ⟨some p.kind, some p.statement, p.thm, p.kernelCheck, p.file, p.relies⟩ := by
    refine .cons (reads_key _ (by decide)) (hkind.map _) ?_
    refine .cons (reads_key _ (by decide)) ((reads_string _).map _) ?_
    apply ReadsMembers.optional (fun o => (⟨some p.kind, some p.statement, o, none, none, none⟩ : ProofParts))
    · exact reads_key _ (by decide)
    · exact fun x => (reads_string x).map _
    apply ReadsMembers.optional (fun o => (⟨some p.kind, some p.statement, p.thm, o, none, none⟩ : ProofParts))
    · exact reads_key _ (by decide)
    · exact fun x => (reads_string x).map _
    apply ReadsMembers.optional (fun o => (⟨some p.kind, some p.statement, p.thm, p.kernelCheck, o, none⟩ : ProofParts))
    · exact reads_key _ (by decide)
    · exact fun x => (reads_string x).map _
    apply ReadsMembers.optional (fun o => (⟨some p.kind, some p.statement, p.thm, p.kernelCheck, p.file, o⟩ : ProofParts))
    · exact reads_key _ (by decide)
    · exact fun xs => (Reads.array fun x _ => reads_string x).map _
    exact .nil
  exact (hmembers.object.bind fun _ => rfl).congr (by simp [ProofInfo.Readable])

def Claimed.Complete (c : Claimed) : Prop :=
  Present c.status ∧ Present c.trust ∧ Present c.method ∧ Present c.statementHash

theorem reads_claimed (c : Claimed) :
    Reads parseClaimed .malformed (write (claimedTree c)) c.Complete c := by
  have hpart : ∀ (o : Option String) (f : Option String → Claimed),
      Reads (do let v ← parseString; pure (f (some v))) .malformed (write (orNull o)) (Present o)
        (f o) := by
    intro o f
    have h := (reads_orNull o).map f
    simp only [bind_assoc, pure_bind] at h
    exact h
  have hmembers : ReadsMembers .malformed parseString claimedMember ⟨none, none, none, none⟩
      [("status", orNull c.status), ("trust", orNull c.trust), ("method", orNull c.method),
        ("statement_hash", orNull c.statementHash)]
      (Present c.status ∧ Present c.trust ∧ Present c.method ∧ Present c.statementHash ∧ True) c := by
    refine .cons (reads_key _ (by decide)) (hpart _ fun o => ⟨o, none, none, none⟩) ?_
    refine .cons (reads_key _ (by decide)) (hpart _ fun o => ⟨c.status, o, none, none⟩) ?_
    refine .cons (reads_key _ (by decide)) (hpart _ fun o => ⟨c.status, c.trust, o, none⟩) ?_
    refine .cons (reads_key _ (by decide)) (hpart _ fun o => ⟨c.status, c.trust, c.method, o⟩) ?_
    exact .nil
  exact hmembers.object.congr (by simp [Claimed.Complete])

structure VerdictRecord.Readable (r : VerdictRecord) : Prop where
  id : VerdictFile.Readable r.id
  idHash : VerdictFile.Readable r.idHash
  statementHash : ∀ h ∈ r.statementHash, VerdictFile.Readable h
  proof : ∀ p ∈ r.proof, p.Readable
  claimed : ∀ c ∈ r.claimed, c.Complete
  justification : ∀ j ∈ r.justification, VerdictFile.Readable j
  witnessReason : ∀ w ∈ r.witnessReason, VerdictFile.Readable w
  note : ∀ n ∈ r.note, VerdictFile.Readable n

theorem run_recordOf {r : VerdictRecord} (hwf : r.WellFormed) (rest : Bytes) :
    (recordOf ⟨some r.id, some r.idHash, some r.status, some r.trust, r.method, r.surface,
      r.statementHash, r.authored, r.proof, r.claimed, r.justification, r.witnessReason,
      r.note⟩).run rest = .ok (r, rest) := by
  have htrust : ¬ (r.status.isClosed = true ∧ r.trust = .opened) := fun h => hwf.trusted h.1 h.2
  have hproof : ¬ (r.trust = .proof ∧ r.proof.isNone = true) := fun h =>
    hwf.proof h.1 (Option.isNone_iff_eq_none.mp h.2)
  have hhash : ¬ (r.method.any Method.bindsStatement = true ∧ r.statementHash.isNone = true) := by
    intro h
    obtain ⟨m, hm, hbinds⟩ := (Option.any_eq_true _ _).mp h.1
    exact hwf.hash m hm hbinds (Option.isNone_iff_eq_none.mp h.2)
  show (if r.status.isClosed = true ∧ r.trust = .opened then err
    else if r.trust = .proof ∧ r.proof.isNone = true then err
    else if r.method.any Method.bindsStatement = true ∧ r.statementHash.isNone = true then err
    else pure r : VReader VerdictRecord).run rest = _
  rw [if_neg htrust, if_neg hproof, if_neg hhash]
  rfl

theorem reads_witness (reason : String) :
    Reads (parseObject witnessMember none) .malformed (write (witnessTree reason))
      (Readable reason) (some reason) := by
  have hmembers : ReadsMembers .malformed parseString witnessMember none [("reason", .str reason)]
      (Readable reason ∧ True) (some reason) := by
    refine .cons (reads_key _ (by decide)) ((reads_string _).map _) ?_
    exact .nil
  exact hmembers.object.congr (by simp)

theorem reads_record {r : VerdictRecord} (hwf : r.WellFormed) :
    Reads parseRecord .malformed (write (recordTree r)) r.Readable r := by
  have hstatus : Reads (parseClosed statusParse fun _ => .malformed) .malformed
      (write (.str (statusStr r.status))) True r.status := by
    cases r.status <;> exact reads_closed rfl (by decide)
  have htrust : Reads (parseClosed trustParse fun _ => .malformed) .malformed
      (write (.str (trustStr r.trust))) True r.trust := by
    cases r.trust <;> exact reads_closed rfl (by decide)
  have hmethod : ∀ m, Reads (parseClosed methodParse fun found => .unknownMethod found "method")
      .malformed (write (.str (methodStr m))) True m := by
    intro m
    cases m <;> exact reads_closed rfl (by decide)
  have hsurface : ∀ s : ProofSurface, Reads (parseClosed surfaceParse fun _ => .malformed)
      .malformed (write (.str s.asStr)) True s := by
    intro s
    cases s <;> exact reads_closed rfl (by decide)
  have hauthored : ∀ a : Authored, Reads (parseClosed authoredParse fun _ => .malformed)
      .malformed (write (.str a.asStr)) True a := by
    intro a
    cases a <;> exact reads_closed rfl (by decide)
  have hmembers : ReadsMembers .malformed parseString recordMember {}
      (("id", .str r.id) :: ("id_hash", .str r.idHash) ::
        ("status", .str (statusStr r.status)) :: ("trust", .str (trustStr r.trust)) ::
        (optionalMember "method" (fun m => .str (methodStr m)) r.method ++
          (optionalMember "surface" (fun s => .str s.asStr) r.surface ++
            (optionalMember "statement_hash" Json.str r.statementHash ++
              (optionalMember "authored" (fun a => .str a.asStr) r.authored ++
                (optionalMember "proof" proofTree r.proof ++
                  (optionalMember "claimed" claimedTree r.claimed ++
                    (optionalMember "justification" Json.str r.justification ++
                      (optionalMember "witness" witnessTree r.witnessReason ++
                        (optionalMember "note" Json.str r.note ++ []))))))))))
      (Readable r.id ∧ Readable r.idHash ∧ True ∧ True ∧ (∀ m ∈ r.method, True) ∧
        (∀ s ∈ r.surface, True) ∧ (∀ h ∈ r.statementHash, Readable h) ∧ (∀ a ∈ r.authored, True) ∧
        (∀ p ∈ r.proof, p.Readable) ∧ (∀ c ∈ r.claimed, c.Complete) ∧
        (∀ j ∈ r.justification, Readable j) ∧ (∀ w ∈ r.witnessReason, Readable w) ∧
        (∀ n ∈ r.note, Readable n) ∧ True)
      ⟨some r.id, some r.idHash, some r.status, some r.trust, r.method, r.surface,
        r.statementHash, r.authored, r.proof, r.claimed, r.justification, r.witnessReason,
        r.note⟩ := by
    refine .cons (reads_key _ (by decide)) ((reads_string _).map _) ?_
    refine .cons (reads_key _ (by decide)) ((reads_string _).map _) ?_
    refine .cons (reads_key _ (by decide)) (hstatus.map _) ?_
    refine .cons (reads_key _ (by decide)) (htrust.map _) ?_
    apply ReadsMembers.optional (fun o => (⟨some r.id, some r.idHash, some r.status, some r.trust, o, none,
      none, none, none, none, none, none, none⟩ : RecordParts))
    · exact reads_key _ (by decide)
    · exact fun m => (hmethod m).map _
    apply ReadsMembers.optional (fun o => (⟨some r.id, some r.idHash, some r.status, some r.trust, r.method, o,
      none, none, none, none, none, none, none⟩ : RecordParts))
    · exact reads_key _ (by decide)
    · exact fun s => (hsurface s).map _
    apply ReadsMembers.optional (fun o => (⟨some r.id, some r.idHash, some r.status, some r.trust, r.method,
      r.surface, o, none, none, none, none, none, none⟩ : RecordParts))
    · exact reads_key _ (by decide)
    · exact fun h => (reads_string h).map _
    apply ReadsMembers.optional (fun o => (⟨some r.id, some r.idHash, some r.status, some r.trust, r.method,
      r.surface, r.statementHash, o, none, none, none, none, none⟩ : RecordParts))
    · exact reads_key _ (by decide)
    · exact fun a => (hauthored a).map _
    apply ReadsMembers.optional (fun o => (⟨some r.id, some r.idHash, some r.status, some r.trust, r.method,
      r.surface, r.statementHash, r.authored, o, none, none, none, none⟩ : RecordParts))
    · exact reads_key _ (by decide)
    · exact fun p => (reads_proof p).map _
    apply ReadsMembers.optional (fun o => (⟨some r.id, some r.idHash, some r.status, some r.trust, r.method,
      r.surface, r.statementHash, r.authored, r.proof, o, none, none, none⟩ : RecordParts))
    · exact reads_key _ (by decide)
    · exact fun c => (reads_claimed c).map _
    apply ReadsMembers.optional (fun o => (⟨some r.id, some r.idHash, some r.status, some r.trust, r.method,
      r.surface, r.statementHash, r.authored, r.proof, r.claimed, o, none, none⟩ : RecordParts))
    · exact reads_key _ (by decide)
    · exact fun j => (reads_string j).map _
    apply ReadsMembers.optional (fun o => (⟨some r.id, some r.idHash, some r.status, some r.trust, r.method,
      r.surface, r.statementHash, r.authored, r.proof, r.claimed, r.justification, o, none⟩ : RecordParts))
    · exact reads_key _ (by decide)
    · exact fun w => (reads_witness w).map _
    apply ReadsMembers.optional (fun o => (⟨some r.id, some r.idHash, some r.status, some r.trust, r.method,
      r.surface, r.statementHash, r.authored, r.proof, r.claimed, r.justification,
      r.witnessReason, o⟩ : RecordParts))
    · exact reads_key _ (by decide)
    · exact fun n => (reads_string n).map _
    exact .nil
  refine (hmembers.object.bind (run_recordOf hwf)).congr ⟨fun h => ?_, fun h => ?_⟩
  · obtain ⟨hid, hidHash, -, -, -, -, hhash, -, hproof, hclaimed, hjust, hwit, hnote, -⟩ := h
    exact ⟨hid, hidHash, hhash, hproof, hclaimed, hjust, hwit, hnote⟩
  · exact ⟨h.id, h.idHash, trivial, trivial, fun _ _ => trivial, fun _ _ => trivial,
      h.statementHash, fun _ _ => trivial, h.proof, h.claimed, h.justification, h.witnessReason,
      h.note, trivial⟩

end VerdictFile

end Tyu
