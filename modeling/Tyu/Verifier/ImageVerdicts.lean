import Tyu.Lib.JsonCuts
import Tyu.Verifier.ManifestRoundTrip

/-!
# The record of a guard decision

An image's build leaves a record of whether its guards were omitted and of the accounting that
this was decided from.
-/

namespace Tyu

open Lib Lib.Json

structure MainContextAccounting where
  high : UInt32
  top : Bool
  budget : UInt32
  verdict : String

structure ImageVerdicts where
  elided : Bool
  main : MainContextAccounting

def IMAGE_VERDICTS_SCHEMA : String := "tyu.image-verdicts/v1"

namespace ImageVerdicts

open Manifest

def writeImageVerdicts (v : ImageVerdicts) : Bytes :=
  utf8 "\x7b\"schema\":" ++ pushStrJson IMAGE_VERDICTS_SCHEMA ++
    utf8 ",\"semantics\":" ++ pushStrJson SEMANTICS_VERSION ++
    utf8 ",\"guards\":" ++ pushStrJson (if v.elided then "elided" else "retained") ++
    utf8 ",\"main\":\x7b\"high\":" ++ pushI64Json v.main.high.toNat ++
    utf8 ",\"top\":" ++ writeBool v.main.top ++
    utf8 ",\"budget\":" ++ pushI64Json v.main.budget.toNat ++
    utf8 ",\"verdict\":" ++ pushStrJson v.main.verdict ++ utf8 "\x7d\x7d"

def encodeImageVerdicts (v : ImageVerdicts) : Except CodecError Bytes := do
  let out := writeImageVerdicts v
  require (out.length ≤ OBL_ARTIFACT_MAX_BYTES) (.tooLarge out.length)
  pure out

structure ImageParts where
  schema : Option String := none
  semantics : Option String := none
  guards : Option String := none
  main : MainContextAccounting := ⟨0, false, 0, ""⟩

def mainMember (key : String) (m : MainContextAccounting) : CodecReader MainContextAccounting :=
  match key with
  | "high" => do let v ← parseU64AsU32; pure { m with high := v }
  | "top" => do let v ← parseBool; pure { m with top := v }
  | "budget" => do let v ← parseU64AsU32; pure { m with budget := v }
  | "verdict" => do let v ← parseString; pure { m with verdict := v }
  | _ => skipUnknown m

def imageMember (key : String) (s : ImageParts) : CodecReader ImageParts :=
  match key with
  | "schema" => do let v ← parseString; pure { s with schema := some v }
  | "semantics" => do let v ← parseString; pure { s with semantics := some v }
  | "guards" => do let v ← parseString; pure { s with guards := some v }
  | "main" => do let v ← parseObject mainMember s.main; pure { s with main := v }
  | _ => skipUnknown s

def parseParts : CodecReader ImageParts := do
  skipWs
  let b ← bump .malformed
  if b ≠ 0x7B then throw (.imageVerdictsInvalid "")
  else
    let rest ← get
    objectLoop .malformed parseString imageMember (rest.length + 1) {}

def ofParts (s : ImageParts) : Except CodecError ImageVerdicts := do
  let found := s.schema.getD ""
  require (found = IMAGE_VERDICTS_SCHEMA) (.imageVerdictsInvalid found)
  let sem := s.semantics.getD ""
  require (sem = SEMANTICS_VERSION) (.imageVerdictsInvalid sem)
  match s.guards with
  | some "elided" => pure { elided := true, main := s.main }
  | some "retained" => pure { elided := false, main := s.main }
  | other => throw (.imageVerdictsInvalid (other.getD ""))

def readImageVerdicts (bytes : Bytes) : Except CodecError ImageVerdicts := do
  let (s, _) ← parseParts.run bytes
  ofParts s

def mainMembers (m : MainContextAccounting) : List (String × Json) :=
  [("high", .num m.high.toNat), ("top", .bool m.top), ("budget", .num m.budget.toNat),
    ("verdict", .str m.verdict)]

def guards (v : ImageVerdicts) : String := if v.elided then "elided" else "retained"

def imageMembers (v : ImageVerdicts) : List (String × Json) :=
  [("schema", .str IMAGE_VERDICTS_SCHEMA), ("semantics", .str SEMANTICS_VERSION),
    ("guards", .str v.guards), ("main", .obj (mainMembers v.main))]

theorem writeImageVerdicts_eq (v : ImageVerdicts) :
    writeImageVerdicts v = write (.obj (imageMembers v)) := by
  simp only [writeImageVerdicts, imageMembers, mainMembers, guards, write, writeMembers,
    ← writeBool_eq, pushStrJson_eq, pushI64Json_uint32, List.append_assoc, List.cons_append]
  rfl

theorem encodeImageVerdicts_eq_ok {v : ImageVerdicts} {bytes : Bytes}
    (h : encodeImageVerdicts v = .ok bytes) : bytes = write (.obj (imageMembers v)) := by
  unfold encodeImageVerdicts at h
  obtain ⟨_, -, h⟩ := bind_eq_ok.mp h
  rw [← writeImageVerdicts_eq]
  exact (pure_eq_ok.mp h).symm

/-! ## Pieces that are cut short -/

theorem definite_parseHexDigits (n v : Nat) : Definite (parseHexDigits n v) := by
  induction n generalizing v with
  | zero => exact .pure v
  | succ n ih =>
    unfold parseHexDigits
    refine .bind (.bump _) fun b => ?_
    cases hexDigitValue b with
    | some d => exact ih _
    | none => exact .throw _

theorem stringLoop_longer {fuel : Nat} {out v : String} {bytes rest : Bytes} (k : Nat)
    (tail : Bytes) (h : (stringLoop fuel out).run bytes = .ok (v, rest)) :
    (stringLoop (fuel + k) out).run (bytes ++ tail) = .ok (v, rest ++ tail) := by
  induction fuel generalizing out bytes with
  | zero => cases h
  | succ fuel ih =>
    rw [show fuel + 1 + k = fuel + k + 1 by omega]
    unfold stringLoop at h ⊢
    obtain ⟨b, mid, hb, h⟩ := run_bind_eq_ok.mp h
    refine run_bind_eq_ok.mpr ⟨b, mid ++ tail, Definite.bump _ _ _ _ tail hb, ?_⟩
    by_cases hquote : b = 0x22
    · rw [if_pos hquote] at h ⊢
      exact Definite.pure out _ _ _ tail h
    rw [if_neg hquote] at h ⊢
    by_cases hescape : b = 0x5C
    · rw [if_pos hescape] at h ⊢
      obtain ⟨e, mid', he, h⟩ := run_bind_eq_ok.mp h
      refine run_bind_eq_ok.mpr ⟨e, mid' ++ tail, Definite.bump _ _ _ _ tail he, ?_⟩
      cases hshort : shortEscape e with
      | some c =>
        rw [hshort] at h
        exact ih h
      | none =>
        rw [hshort] at h
        dsimp only at h ⊢
        by_cases hu : e = 0x75
        · rw [if_pos hu] at h ⊢
          obtain ⟨x, mid'', hx, h⟩ := run_bind_eq_ok.mp h
          refine run_bind_eq_ok.mpr ⟨x, mid'' ++ tail, definite_parseHexDigits _ _ _ _ _ tail hx, ?_⟩
          by_cases hvalid : x.isValidChar
          · rw [if_pos hvalid] at h ⊢
            exact ih h
          · rw [if_neg hvalid] at h
            cases h
        · rw [if_neg hu] at h
          cases h
    rw [if_neg hescape] at h ⊢
    by_cases hcontrol : b < 0x20
    · rw [if_pos hcontrol] at h
      cases h
    rw [if_neg hcontrol] at h ⊢
    rw [run_get_bind] at h ⊢
    dsimp only at h ⊢
    by_cases hlen : utf8SeqLen b = 0 ∨ mid.length + 1 < utf8SeqLen b
    · rw [if_pos hlen] at h
      cases h
    rw [if_neg hlen] at h
    have hle : utf8SeqLen b - 1 ≤ mid.length := by omega
    rw [if_neg (by rw [List.length_append]; omega), List.take_append_of_le_length hle,
      List.drop_append_of_le_length hle]
    cases hchars : String.fromUTF8? (b :: mid.take (utf8SeqLen b - 1)).toByteArray with
    | none =>
      rw [hchars] at h
      cases h
    | some s =>
      rw [hchars] at h
      exact ih h

theorem definite_parseString : Definite parseString := by
  unfold parseString
  refine .skipWs_bind (.bind (.bump _) fun b => .ite (.throw _) ?_) fun v rest h => ?_
  · intro bytes v rest tail h
    rw [run_get_bind] at h ⊢
    have hlonger := stringLoop_longer tail.length tail h
    rwa [show bytes.length + 1 + tail.length = (bytes ++ tail).length + 1 by
      rw [List.length_append]; omega] at hlonger
  · cases h

theorem refuses_parseString_nil : Refuses parseString [] := fun _ _ h => nomatch h

theorem cutShort_string (s : String) : CutShort parseString (write (.str s)) := by
  have hread := (reads_string s).accept trivial [] follow_nil
  rw [List.append_nil] at hread
  exact Refuses.cutShort fun t u htext hu => definite_parseString.refuses hread htext hu

theorem cutShort_bool (b : Bool) : CutShort parseBool (write (.bool b)) := by
  refine Refuses.cutShort fun t u htext hu => ?_
  have ht : t = (write (.bool b)).take t.length := by rw [← htext, List.take_left]
  have hlen : t.length < (write (.bool b)).length := by
    have hpos := List.length_pos_of_ne_nil hu
    rw [← htext, List.length_append]
    omega
  have hshort : ∀ b n, n < (write (.bool b)).length →
      (parseBool.run ((write (.bool b)).take n)).isOk = false := by
    decide
  intro v rest hok
  have hnot := hshort b t.length hlen
  rw [← ht, hok] at hnot
  cases hnot

theorem cutShort_u32 (n : Nat) : CutShort parseU64AsU32 (write (.num n)) := by
  have hnum : write (.num n) = decimal n := by
    simp only [write, number]
    rw [if_neg (by omega)]
    rfl
  refine CutShort.map ?_ fun a bytes v rest hok => ?_
  · intro t u htext hu v rest hok
    rw [hnum] at htext
    have hdigits : ∀ d ∈ t, isDigit d = true := fun d hd =>
      isDigit_of_mem_decimal (by rw [← htext]; exact List.mem_append_left u hd)
    have hskip : (skipWs : CodecReader Unit).run t = .ok ((), t) := by
      cases t with
      | nil => rfl
      | cons d t => exact run_skipWs_of_head (isSpace_of_isDigit (hdigits d List.mem_cons_self))
    unfold parseU64 at hok
    obtain ⟨⟨⟩, mid₀, hws, hok⟩ := run_bind_eq_ok.mp hok
    rw [hskip] at hws
    cases hws
    obtain ⟨⟨value, count⟩, mid, hrun, hok⟩ := run_bind_eq_ok.mp hok
    have heq : digitRun (2 ^ 64 - 1) 0 0 (t ++ []) = _ :=
      digitRun_eq hdigits (fun b hb => by cases hb) 0 0 (Nat.zero_le _)
    rw [List.append_nil] at heq
    have hrun' : digitRun (2 ^ 64 - 1) 0 0 t = .ok ((value, count), mid) := hrun
    rw [heq] at hrun'
    by_cases hmax : digitsFrom 0 t ≤ 2 ^ 64 - 1
    · rw [if_pos hmax] at hrun'
      have hmid : [] = mid := (Prod.mk.inj (Except.ok.inj hrun')).2
      subst hmid
      by_cases hcount : count = 0
      · dsimp only at hok
        rw [if_pos hcount] at hok
        cases hok
      · dsimp only at hok
        rw [if_neg hcount] at hok
        cases hok
        rfl
    · rw [if_neg hmax] at hrun'
      cases hrun'
  · cases hok
    rfl

/-! ## Members in any order and number -/

inductive MainMember where
  | high
  | top
  | budget
  | verdict

inductive ImageMember where
  | schema
  | semantics
  | guards
  | main (members : List MainMember)

def MainMember.json (m : MainContextAccounting) : MainMember → String × Json
  | .high => ("high", .num m.high.toNat)
  | .top => ("top", .bool m.top)
  | .budget => ("budget", .num m.budget.toNat)
  | .verdict => ("verdict", .str m.verdict)

/-- A member of the accounting `m` stored over `a`. -/
def MainMember.store (m a : MainContextAccounting) : MainMember → MainContextAccounting
  | .high => { a with high := m.high }
  | .top => { a with top := m.top }
  | .budget => { a with budget := m.budget }
  | .verdict => { a with verdict := m.verdict }

def ImageMember.json (v : ImageVerdicts) : ImageMember → String × Json
  | .schema => ("schema", .str IMAGE_VERDICTS_SCHEMA)
  | .semantics => ("semantics", .str SEMANTICS_VERSION)
  | .guards => ("guards", .str v.guards)
  | .main members => ("main", .obj (members.map (·.json v.main)))

def ImageMember.store (v : ImageVerdicts) (s : ImageParts) : ImageMember → ImageParts
  | .schema => { s with schema := some IMAGE_VERDICTS_SCHEMA }
  | .semantics => { s with semantics := some SEMANTICS_VERSION }
  | .guards => { s with guards := some v.guards }
  | .main members => { s with main := members.foldl (MainMember.store v.main) s.main }

theorem mainChain (m a : MainContextAccounting) (ts : List MainMember) :
    MemberChain .malformed mainMember a (ts.map (·.json m)) (ts.foldl (MainMember.store m) a) := by
  induction ts generalizing a with
  | nil => exact .nil a
  | cons t ts ih =>
    rw [List.map_cons, List.foldl_cons]
    cases t with
    | high =>
      exact .cons ((reads_u32 m.high).map _) ((cutShort_u32 _).map fun _ _ _ _ h => by cases h; rfl)
        (ih _)
    | top =>
      exact .cons ((reads_bool m.top).map _) ((cutShort_bool _).map fun _ _ _ _ h => by cases h; rfl)
        (ih _)
    | budget =>
      exact .cons ((reads_u32 m.budget).map _)
        ((cutShort_u32 _).map fun _ _ _ _ h => by cases h; rfl) (ih _)
    | verdict =>
      exact .cons ((reads_string m.verdict).map _)
        ((cutShort_string _).map fun _ _ _ _ h => by cases h; rfl) (ih _)

theorem imageChain (v : ImageVerdicts) (s : ImageParts) (ts : List ImageMember) :
    MemberChain .malformed imageMember s (ts.map (·.json v)) (ts.foldl (ImageMember.store v) s) := by
  induction ts generalizing s with
  | nil => exact .nil s
  | cons t ts ih =>
    rw [List.map_cons, List.foldl_cons]
    cases t with
    | schema =>
      exact .cons ((reads_string _).map _) ((cutShort_string _).map fun _ _ _ _ h => by cases h; rfl)
        (ih _)
    | semantics =>
      exact .cons ((reads_string _).map _) ((cutShort_string _).map fun _ _ _ _ h => by cases h; rfl)
        (ih _)
    | guards =>
      exact .cons ((reads_string _).map _) ((cutShort_string _).map fun _ _ _ _ h => by cases h; rfl)
        (ih _)
    | main members =>
      have hchain := mainChain v.main s.main members
      have hreads := (hchain.readsMembers reads_key).object
      refine .cons (hreads.map _) ?_ (ih _)
      refine CutShort.map (Refuses.cutShort fun t u htext hu => ?_) fun _ _ _ _ h => by cases h; rfl
      exact hchain.object_refuses reads_key definite_parseString refuses_parseString_nil htext hu

theorem run_parseParts (bytes : Bytes) :
    parseParts.run (0x7B :: bytes) = (parseObject imageMember {}).run (0x7B :: bytes) := by
  unfold parseParts parseObject readObject
  rw [StateT.run_bind, run_skipWs_of_head (by decide), StateT.run_bind,
    run_expectByte (by decide)]
  rfl

theorem readImageVerdicts_members (v : ImageVerdicts) (ts : List ImageMember) :
    readImageVerdicts (write (.obj (ts.map (·.json v)))) =
      ofParts (ts.foldl (ImageMember.store v) {}) := by
  have hreads := ((imageChain v {} ts).readsMembers reads_key).object
  have hrun := hreads.accept trivial [] follow_nil
  rw [List.append_nil] at hrun
  obtain ⟨rest, hrest⟩ : ∃ rest, write (.obj (ts.map (·.json v))) = 0x7B :: rest := by
    cases ts with
    | nil => exact ⟨_, rfl⟩
    | cons t ts => exact ⟨_, by rw [List.map_cons, write]⟩
  unfold readImageVerdicts
  rw [hrest, run_parseParts, ← hrest]
  show ((readObject .malformed parseString imageMember {}).run _ >>= _) = _
  rw [hrun]
  rfl

theorem foldl_stored {σ τ β : Type} {store : σ → τ → σ} (field : σ → β) {t₀ : τ} {x : β}
    (hit : ∀ s, field (store s t₀) = x) (miss : ∀ s t, t ≠ t₀ → field (store s t) = field s)
    (ts : List τ) (s : σ) : (t₀ ∈ ts → field (ts.foldl store s) = x) ∧
      (t₀ ∉ ts → field (ts.foldl store s) = field s) := by
  induction ts generalizing s with
  | nil => exact ⟨fun h => absurd h List.not_mem_nil, fun _ => rfl⟩
  | cons t ts ih =>
    rw [List.foldl_cons]
    refine ⟨fun hmem => ?_, fun hmem => ?_⟩
    · by_cases hlater : t₀ ∈ ts
      · exact (ih _).1 hlater
      · have ht : t₀ = t := (List.mem_cons.mp hmem).resolve_right hlater
        rw [(ih _).2 hlater, ← ht, hit]
    · rw [List.mem_cons, not_or] at hmem
      rw [(ih _).2 hmem.2, miss s t (Ne.symm hmem.1)]

theorem schema_stored (v : ImageVerdicts) (ts : List ImageMember) (s : ImageParts) :
    (.schema ∈ ts → (ts.foldl (ImageMember.store v) s).schema = some IMAGE_VERDICTS_SCHEMA) ∧
      (.schema ∉ ts → (ts.foldl (ImageMember.store v) s).schema = s.schema) := by
  refine foldl_stored ImageParts.schema (fun _ => rfl) (fun s t ht => ?_) ts s
  cases t with
  | schema => exact absurd rfl ht
  | semantics | guards | main => rfl

theorem semantics_stored (v : ImageVerdicts) (ts : List ImageMember) (s : ImageParts) :
    (.semantics ∈ ts → (ts.foldl (ImageMember.store v) s).semantics = some SEMANTICS_VERSION) ∧
      (.semantics ∉ ts → (ts.foldl (ImageMember.store v) s).semantics = s.semantics) := by
  refine foldl_stored ImageParts.semantics (fun _ => rfl) (fun s t ht => ?_) ts s
  cases t with
  | semantics => exact absurd rfl ht
  | schema | guards | main => rfl

theorem guards_stored (v : ImageVerdicts) (ts : List ImageMember) (s : ImageParts) :
    (.guards ∈ ts → (ts.foldl (ImageMember.store v) s).guards = some v.guards) ∧
      (.guards ∉ ts → (ts.foldl (ImageMember.store v) s).guards = s.guards) := by
  refine foldl_stored ImageParts.guards (fun _ => rfl) (fun s t ht => ?_) ts s
  cases t with
  | guards => exact absurd rfl ht
  | schema | semantics | main => rfl

theorem ofParts_fails_iff (v : ImageVerdicts) (ts : List ImageMember) :
    (∃ e, ofParts (ts.foldl (ImageMember.store v) {}) = .error e) ↔
      ¬ (.schema ∈ ts ∧ .semantics ∈ ts ∧ .guards ∈ ts) := by
  have hschema := schema_stored v ts {}
  have hsemantics := semantics_stored v ts {}
  have hguards := guards_stored v ts {}
  generalize ts.foldl (ImageMember.store v) {} = s at hschema hsemantics hguards ⊢
  unfold ofParts
  by_cases h₁ : ImageMember.schema ∈ ts
  · rw [hschema.1 h₁]
    by_cases h₂ : ImageMember.semantics ∈ ts
    · rw [hsemantics.1 h₂]
      by_cases h₃ : ImageMember.guards ∈ ts
      · rw [hguards.1 h₃]
        refine iff_of_false ?_ (not_not_intro ⟨h₁, h₂, h₃⟩)
        rintro ⟨e, he⟩
        unfold guards at he
        cases helided : v.elided with
        | true =>
          rw [helided] at he
          cases he
        | false =>
          rw [helided] at he
          cases he
      · rw [hguards.2 h₃]
        exact iff_of_true ⟨_, rfl⟩ fun h => h₃ h.2.2
    · rw [hsemantics.2 h₂]
      exact iff_of_true ⟨_, rfl⟩ fun h => h₂ h.2.1
  · rw [hschema.2 h₁]
    exact iff_of_true ⟨_, rfl⟩ fun h => h₁ h.1

/-! ## Values of another type -/

variable {j : Json} {ms : List (String × Json)} {i : Nat}

theorem string_refuses_type (h : j.type ≠ .string) {w : String} :
    Reads parseString .malformed (write j) False w where
  accept hn := absurd hn id
  refuse _ rest _ := by
    obtain ⟨b, text, hj, hspace, htag⟩ := write_first j
    have hb : b ≠ 0x22 := by
      rintro rfl
      cases j with
      | str s => exact h rfl
      | bool b => cases b <;> cases htag
      | null | num | arr | obj => cases htag
    unfold parseString
    rw [hj, List.cons_append, StateT.run_bind, run_skipWs_of_head hspace]
    show ((if b ≠ 0x22 then err else do
      let rest ← get
      stringLoop (rest.length + 1) "") : CodecReader String).run (text ++ rest) = _
    rw [if_pos hb]
    rfl

theorem bool_refuses_type (h : j.type ≠ .bool) {w : Bool} :
    Reads parseBool .malformed (write j) False w where
  accept hn := absurd hn id
  refuse _ rest _ := by
    obtain ⟨b, text, hj, hspace, htag⟩ := write_first j
    have hb : b ≠ 0x74 ∧ b ≠ 0x66 := by
      constructor <;> rintro rfl
      all_goals
        cases j with
        | bool b => exact h rfl
        | null | num | str | arr | obj => cases htag
    have hword : ∀ token c w, token = c :: w → c ≠ b →
        (Manifest.startsWith token).run (b :: (text ++ rest)) = .ok (false, b :: (text ++ rest)) := by
      rintro token c w rfl hc
      have hne : ((b :: (text ++ rest)).take (c :: w).length == c :: w) = false := by
        rw [List.length_cons, List.take_succ_cons, beq_eq_false_iff_ne]
        intro heq
        exact hc (List.cons.inj heq).1.symm
      show Except.ok (_, _) = _
      rw [hne]
    unfold parseBool
    rw [hj, List.cons_append, run_bind_of_ok (run_skipWs_of_head hspace),
      run_bind_of_ok (hword _ 0x74 [0x72, 0x75, 0x65] (by decide) hb.1.symm),
      if_neg Bool.false_ne_true,
      run_bind_of_ok (hword _ 0x66 [0x61, 0x6C, 0x73, 0x65] (by decide) hb.2.symm),
      if_neg Bool.false_ne_true]
    rfl

theorem u32_refuses_type (h : j.type ≠ .number) {w : UInt32} :
    Reads parseU64AsU32 .malformed (write j) False w where
  accept hn := absurd hn id
  refuse _ rest _ := by
    obtain ⟨b, text, hj, hspace, htag⟩ := write_first j
    have hb : isDigit b = false := by
      by_contra hdigit
      rw [Bool.not_eq_false] at hdigit
      rw [tagOfByte_digit hdigit] at htag
      cases j with
      | num n => exact h rfl
      | bool b => cases b <;> cases htag
      | null | str | arr | obj => cases htag
    unfold parseU64AsU32 parseU64
    rw [hj, List.cons_append, StateT.run_bind, StateT.run_bind, run_skipWs_of_head hspace]
    have hrun : digitRun (2 ^ 64 - 1) 0 0 (b :: (text ++ rest)) = .ok ((0, 0), b :: (text ++ rest)) := by
      rw [digitRun, if_neg (by rw [hb]; decide)]
    show ((digitRun (2 ^ 64 - 1) 0 0 (b :: (text ++ rest)) >>= _) >>= _) = _
    rw [hrun]
    rfl

theorem mainMember_refuses_type (m a : MainContextAccounting) (t : MainMember)
    (h : j.type ≠ (t.json m).2.type) {w : MainContextAccounting} :
    Reads (mainMember (t.json m).1 a) .malformed (write j) False w := by
  have hmap : ∀ {α : Type} {p : CodecReader α} (f : α → MainContextAccounting),
      (∀ v, Reads p .malformed (write j) False v) → ∀ v : α,
      Reads (do let v ← p; pure (f v)) .malformed (write j) False w := by
    intro α p f hp v
    exact ⟨fun hn => absurd hn id, ((hp v).map f).refuse⟩
  cases t with
  | high => exact hmap _ (fun _ => u32_refuses_type h) 0
  | top => exact hmap _ (fun _ => bool_refuses_type h) false
  | budget => exact hmap _ (fun _ => u32_refuses_type h) 0
  | verdict => exact hmap _ (fun _ => string_refuses_type h) ""

theorem imageMember_refuses_type (v : ImageVerdicts) (s : ImageParts) (t : ImageMember)
    (h : j.type ≠ (t.json v).2.type) {w : ImageParts} :
    Reads (imageMember (t.json v).1 s) .malformed (write j) False w := by
  have hmap : ∀ {α : Type} {p : CodecReader α} (f : α → ImageParts),
      (∀ v, Reads p .malformed (write j) False v) → ∀ v : α,
      Reads (do let v ← p; pure (f v)) .malformed (write j) False w := by
    intro α p f hp v
    exact ⟨fun hn => absurd hn id, ((hp v).map f).refuse⟩
  cases t with
  | schema | semantics | guards => exact hmap _ (fun _ => string_refuses_type h) ""
  | main ts => exact hmap _ (fun _ => readObject_refuses_type h) s.main

/-! ## Damaged texts -/

/-- The text of a record cut off, or with one member of the record or of its accounting
written twice, left out, or given another type. -/
inductive Damage where
  | cut (n : Nat)
  | outer (e : Edit)
  | inner (e : Edit)

def Damage.text (v : ImageVerdicts) : Damage → Option Bytes
  | .cut n =>
    if n < (writeImageVerdicts v).length then some ((writeImageVerdicts v).take n) else none
  | .outer e => (e.members (imageMembers v)).map fun ms => write (.obj ms)
  | .inner e => (e.members (mainMembers v.main)).map fun ms =>
      write (.obj ((imageMembers v).set 3 ("main", .obj ms)))

/-- The damage that the reader can see: a text that ends early, a value of another type, or a
record without one of the members in front of the accounting. -/
def Damage.Caught : Damage → Prop
  | .cut _ => True
  | .outer (.retype _ _) => True
  | .outer (.leaveOut i) => i < 3
  | .outer (.duplicate _ _) => False
  | .inner (.retype _ _) => True
  | .inner (.leaveOut _) => False
  | .inner (.duplicate _ _) => False

def wholeMain : List MainMember := [.high, .top, .budget, .verdict]

def whole (us : List MainMember) : List ImageMember := [.schema, .semantics, .guards, .main us]

theorem imageMembers_set (v : ImageVerdicts) (us : List MainMember) :
    (imageMembers v).set 3 ("main", .obj (us.map (·.json v.main))) =
      (whole us).map (·.json v) := rfl

theorem imageMembers_eq (v : ImageVerdicts) :
    imageMembers v = (whole wholeMain).map (·.json v) := rfl

theorem mainMembers_eq (m : MainContextAccounting) :
    mainMembers m = wholeMain.map (·.json m) := rfl

theorem readImageVerdicts_of_refuses {t : Bytes} (h : Refuses parseParts t) :
    ∃ e, readImageVerdicts t = .error e := by
  unfold readImageVerdicts
  cases hrun : parseParts.run t with
  | error e => exact ⟨e, rfl⟩
  | ok r => exact absurd hrun (h r.1 r.2)

theorem readImageVerdicts_of_members {s : ImageParts}
    (h : ReadsMembers .malformed parseString imageMember {} ms False s) :
    ∃ e, readImageVerdicts (write (.obj ms)) = .error e := by
  have hrun := h.object.refuse id [] follow_nil
  rw [List.append_nil] at hrun
  obtain ⟨rest, hrest⟩ : ∃ rest, write (.obj ms) = 0x7B :: rest := by
    cases ms with
    | nil => exact ⟨_, rfl⟩
    | cons m ms => exact ⟨_, by rw [write]⟩
  refine readImageVerdicts_of_refuses fun v rest' hok => ?_
  rw [hrest, run_parseParts, ← hrest] at hok
  exact absurd (hok.symm.trans hrun) (fun hn => nomatch hn)

theorem read_cut (v : ImageVerdicts) {n : Nat} (hn : n < (writeImageVerdicts v).length) :
    ∃ e, readImageVerdicts ((writeImageVerdicts v).take n) = .error e := by
  refine readImageVerdicts_of_refuses ?_
  have htext : (writeImageVerdicts v).take n ++ (writeImageVerdicts v).drop n =
      write (.obj ((whole wholeMain).map (·.json v))) := by
    rw [List.take_append_drop, writeImageVerdicts_eq, imageMembers_eq]
  have hne : (writeImageVerdicts v).drop n ≠ [] := by
    rw [Ne, List.drop_eq_nil_iff]
    omega
  have hrefuses := (imageChain v {} (whole wholeMain)).object_refuses reads_key
    definite_parseString refuses_parseString_nil htext hne
  generalize (writeImageVerdicts v).take n = t at hrefuses htext
  cases t with
  | nil =>
    intro w rest hok
    cases hok
  | cons b t =>
    have hb : b = 0x7B := by
      rw [whole, List.map_cons, write] at htext
      exact (List.cons.inj htext).1
    intro w rest hok
    rw [hb, run_parseParts] at hok
    rw [hb] at hrefuses
    exact hrefuses w rest hok

theorem read_retype (v : ImageVerdicts) {value : Json}
    (h : (Edit.retype i value).members (imageMembers v) = some ms) :
    ∃ e, readImageVerdicts (write (.obj ms)) = .error e := by
  rw [imageMembers_eq] at h
  obtain ⟨pre, t, post, -, htype, rfl⟩ := Edit.retype_map _ h
  exact readImageVerdicts_of_members ((imageChain v {} pre).refused reads_key
    (imageMember_refuses_type v _ t htype (w := {})) (imageChain v {} post))

theorem read_retype_main (v : ImageVerdicts) {value : Json}
    (h : (Edit.retype i value).members (mainMembers v.main) = some ms) :
    ∃ e, readImageVerdicts (write (.obj ((imageMembers v).set 3 ("main", .obj ms)))) = .error e := by
  rw [mainMembers_eq] at h
  obtain ⟨pre, t, post, -, htype, rfl⟩ := Edit.retype_map _ h
  have hpre := imageChain v {} [.schema, .semantics, .guards]
  have hmain := ((mainChain v.main ⟨0, false, 0, ""⟩ pre).refused reads_key
    (mainMember_refuses_type v.main _ t htype (w := v.main)) (mainChain v.main v.main post)).object
  exact readImageVerdicts_of_members (hpre.refused reads_key (hmain.map _) (imageChain v _ []))

theorem read_whole (v : ImageVerdicts) (us : List MainMember) :
    ¬ ∃ e, readImageVerdicts (write (.obj ((whole us).map (·.json v)))) = .error e := by
  rw [readImageVerdicts_members, ofParts_fails_iff, not_not]
  exact ⟨by simp [whole], by simp [whole], by simp [whole]⟩

theorem read_leaveOut (v : ImageVerdicts) (h : (Edit.leaveOut i).members (imageMembers v) = some ms)
    :
    (∃ e, readImageVerdicts (write (.obj ms)) = .error e) ↔ i < 3 := by
  rw [imageMembers_eq] at h
  obtain ⟨hi, rfl⟩ := Edit.leaveOut_map _ h
  rw [readImageVerdicts_members, ofParts_fails_iff]
  have hlt : i < 4 := hi
  interval_cases i <;> simp [whole]

theorem read_duplicate (v : ImageVerdicts) {place : Nat}
    (h : (Edit.duplicate i place).members (imageMembers v) = some ms) :
    ¬ ∃ e, readImageVerdicts (write (.obj ms)) = .error e := by
  rw [imageMembers_eq] at h
  obtain ⟨hplace, t, ht, rfl⟩ := Edit.duplicate_map _ h
  rw [readImageVerdicts_members, ofParts_fails_iff, not_not]
  have hmem : ∀ x ∈ whole wholeMain, x ∈ (whole wholeMain).insertIdx place t := fun x hx =>
    (List.mem_insertIdx hplace).mpr (.inr hx)
  exact ⟨hmem _ (by simp [whole]), hmem _ (by simp [whole]), hmem _ (by simp [whole])⟩

theorem readImageVerdicts_write (v : ImageVerdicts) :
    readImageVerdicts (writeImageVerdicts v) = .ok v := by
  rw [writeImageVerdicts_eq, imageMembers_eq, readImageVerdicts_members]
  obtain ⟨elided, main⟩ := v
  cases elided with
  | true => rfl
  | false => rfl

theorem damage_caught_iff (v : ImageVerdicts) (d : Damage) {text : Bytes}
    (h : d.text v = some text) : (∃ e, readImageVerdicts text = .error e) ↔ d.Caught := by
  cases d with
  | cut n =>
    rw [Damage.text] at h
    by_cases hn : n < (writeImageVerdicts v).length
    · rw [if_pos hn] at h
      cases h
      exact iff_of_true (read_cut v hn) trivial
    · rw [if_neg hn] at h
      cases h
  | outer e =>
    obtain ⟨ms, hms, rfl⟩ := Option.map_eq_some_iff.mp h
    cases e with
    | duplicate i place => exact iff_of_false (read_duplicate v hms) id
    | leaveOut i => exact read_leaveOut v hms
    | retype i value => exact iff_of_true (read_retype v hms) trivial
  | inner e =>
    obtain ⟨ms, hms, rfl⟩ := Option.map_eq_some_iff.mp h
    cases e with
    | duplicate i place =>
      rw [mainMembers_eq] at hms
      obtain ⟨-, t, -, rfl⟩ := Edit.duplicate_map _ hms
      rw [imageMembers_set]
      exact iff_of_false (read_whole v _) id
    | leaveOut i =>
      rw [mainMembers_eq] at hms
      obtain ⟨-, rfl⟩ := Edit.leaveOut_map _ hms
      rw [imageMembers_set]
      exact iff_of_false (read_whole v _) id
    | retype i value => exact iff_of_true (read_retype_main v hms) trivial

end ImageVerdicts

/-- What is encoded is read back, and a damaged text is refused exactly when it is cut short,
when a value has another type, or when the schema, the semantics or the decision is missing. -/
theorem image_verdicts_exact (v : ImageVerdicts) (bytes : Json.Bytes)
    (h : ImageVerdicts.encodeImageVerdicts v = .ok bytes) :
    ImageVerdicts.readImageVerdicts bytes = .ok v ∧
      ∀ d text, ImageVerdicts.Damage.text v d = some text →
        ((∃ e, ImageVerdicts.readImageVerdicts text = .error e) ↔ d.Caught) := by
  constructor
  · rw [ImageVerdicts.encodeImageVerdicts_eq_ok h, ← ImageVerdicts.writeImageVerdicts_eq]
    exact ImageVerdicts.readImageVerdicts_write v
  · exact fun d text htext => ImageVerdicts.damage_caught_iff v d htext

namespace ImageVerdicts

def elidedImage : ImageVerdicts := ⟨true, ⟨48, false, 256, "discharged"⟩⟩

theorem encode_elidedImage :
    encodeImageVerdicts elidedImage = .ok (writeImageVerdicts elidedImage) := by
  have hlen : (writeImageVerdicts elidedImage).length ≤ Manifest.OBL_ARTIFACT_MAX_BYTES := by
    decide +kernel
  exact bind_eq_ok.mpr ⟨⟨⟩, require_eq_ok.mpr hlen, rfl⟩

theorem elidedImage_exact :
    readImageVerdicts (writeImageVerdicts elidedImage) = .ok elidedImage ∧
      ∀ d text, Damage.text elidedImage d = some text →
        ((∃ e, readImageVerdicts text = .error e) ↔ d.Caught) :=
  image_verdicts_exact elidedImage _ encode_elidedImage

/-- The record without its accounting is read as one in which nothing is in use. -/
theorem accounting_left_out :
    ¬ ∀ v bytes, encodeImageVerdicts v = .ok bytes →
      readImageVerdicts bytes = .ok v ∧ ∀ d text, Damage.text v d = some text →
        ∃ e, readImageVerdicts text = .error e := by
  intro h
  obtain ⟨e, he⟩ := (h elidedImage _ encode_elidedImage).2 (.outer (.leaveOut 3)) _ rfl
  have hread : readImageVerdicts (write (.obj ((imageMembers elidedImage).eraseIdx 3))) =
      .ok ⟨true, ⟨0, false, 0, ""⟩⟩ :=
    readImageVerdicts_members elidedImage [.schema, .semantics, .guards]
  exact absurd (he.symm.trans hread) (fun hn => nomatch hn)

end ImageVerdicts

end Tyu
