import Tyu.Image.Closure
import Tyu.Verifier.VerdictFileReader

/-! # The verification report of an image -/

namespace Tyu

open Lib Manifest
open Obl (Kind)

namespace Report

abbrev Echo := VerdictFile.Doc

/-- A module of the build, with the artifact and the echo its files hold; either file may be
missing. -/
structure LoadedModule where
  name : String
  set : Option OblSet
  echo : Option Echo

def LoadedModule.obligations (m : LoadedModule) : List Obligation :=
  (m.set.map fun set => set.obligations).getD []

/-! ## The document -/

structure ClassAccounting where
  kind : String
  total : UInt32
  discharged : UInt32
  assumed : UInt32
  opened : UInt32

def ClassAccounting.zero (kind : String) : ClassAccounting := ⟨kind, 0, 0, 0, 0⟩

structure TrustAccounting where
  proof : UInt32 := 0
  checked : UInt32 := 0
  assumed : UInt32 := 0
  opened : UInt32 := 0

structure MethodAccounting where
  certificate : UInt32 := 0
  rederive : UInt32 := 0
  descriptor : UInt32 := 0
  stackExact : UInt32 := 0
  interval : UInt32 := 0

structure SurfaceAccounting where
  source : UInt32 := 0
  ir : UInt32 := 0

structure ModuleAccounting where
  name : String
  target : String
  model : String
  concurrency : String
  classes : List ClassAccounting
  trust : TrustAccounting
  methods : MethodAccounting
  surfaces : SurfaceAccounting

structure MainContextAccounting where
  high : UInt32
  top : Bool
  budget : UInt32
  verdict : String

structure IsrContextAccounting where
  maxHigh : UInt32
  budget : UInt32
  handlers : UInt32
  verdict : String

structure OpenObligation where
  id : String
  kind : String
  module : String
  word : String
  site : String
  line : UInt32
  reason : Option String
  intent : Option String
  subject : Option String

structure AssumedObligation where
  id : String
  kind : String
  module : String
  word : String
  site : String
  line : UInt32
  justification : Option String

structure ProvablyFailing where
  id : String
  kind : String
  module : String
  word : String
  site : String
  line : UInt32
  note : String

structure RetainedObligation where
  id : String
  reason : String

structure VerdictSources where
  file : UInt32 := 0
  inTree : UInt32 := 0

structure EmittedChecks where
  subtypeRange : UInt32 := 0
  contract : UInt32 := 0
  mmioBounds : UInt32 := 0
  dataStackGuards : Bool

structure TrustedAssumption where
  kind : String
  what : String

structure ClosureStatus where
  wellClosed : Bool
  checked : UInt32
  unresolved : UInt32

structure VerifyReport where
  policy : String
  modules : List ModuleAccounting
  main : MainContextAccounting
  isr : IsrContextAccounting
  guards : String
  opened : List OpenObligation
  assumed : List AssumedObligation
  assumptionsTrusted : List TrustedAssumption
  provablyFailing : List ProvablyFailing
  retained : List RetainedObligation
  verdictSources : VerdictSources
  staleVerdicts : UInt32
  emittedChecks : EmittedChecks
  closure : ClosureStatus

def lookup (e : Echo) (o : Obligation) : Option VerdictFile.VerdictRecord :=
  Closure.recordOf e.verdicts.records o

def verdictIsDischarged (o : Obligation) : Bool :=
  match o.formula, o.kind with
  | .offsetLE (some off) width size, .mmioBounds =>
    decide ((if off.toNat + width.toNat < 2 ^ 32 then off + width else 0xFFFFFFFF) ≤ size)
  | _, _ => false

/-- The verdict of an obligation: the echo decides when there is one, and what it does not
mention is open. -/
def resolvedStatus (o : Obligation) (echo : Option Echo) : VerdictStatus :=
  match echo with
  | some e =>
    match lookup e o with
    | some r => r.status
    | none => .opened
  | none => if verdictIsDischarged o then .discharged else .opened

def resolvedRecord (o : Obligation) (echo : Option Echo) : Option VerdictFile.VerdictRecord :=
  echo.bind fun e => lookup e o

def kindIdx : Kind → Nat
  | .subtypeRange => 0
  | .contractPre => 1
  | .contractPost => 2
  | .stackBudget => 3
  | .mmioBounds => 4

def KIND_ORDER : List Kind :=
  [.subtypeRange, .contractPre, .contractPost, .stackBudget, .mmioBounds]

def ClassAccounting.count (c : ClassAccounting) (status : VerdictStatus) : ClassAccounting :=
  let c := { c with total := Closure.saturatingSucc c.total }
  match status with
  | .discharged => { c with discharged := c.discharged + 1 }
  | .assumed => { c with assumed := c.assumed + 1 }
  | .opened => { c with opened := c.opened + 1 }

def TrustAccounting.count (t : TrustAccounting) : Trust → TrustAccounting
  | .proof => { t with proof := t.proof + 1 }
  | .checked => { t with checked := t.checked + 1 }
  | .assumed => { t with assumed := t.assumed + 1 }
  | .opened => { t with opened := t.opened + 1 }

def MethodAccounting.count (m : MethodAccounting) : Option Method → MethodAccounting
  | some .certificate => { m with certificate := Closure.saturatingSucc m.certificate }
  | some .rederive => { m with rederive := Closure.saturatingSucc m.rederive }
  | some .descriptor => { m with descriptor := Closure.saturatingSucc m.descriptor }
  | some .stackExact => { m with stackExact := Closure.saturatingSucc m.stackExact }
  | some .interval => { m with interval := Closure.saturatingSucc m.interval }
  | none => m

def SurfaceAccounting.count (s : SurfaceAccounting) :
    Option VerdictFile.ProofSurface → SurfaceAccounting
  | some .source => { s with source := Closure.saturatingSucc s.source }
  | some .ir => { s with ir := Closure.saturatingSucc s.ir }
  | none => s

structure Accounting where
  classes : List ClassAccounting
  trust : TrustAccounting
  methods : MethodAccounting
  surfaces : SurfaceAccounting

/-- One obligation counted.  Without a record it is open, or the rule for missing echoes has
discharged it by its descriptor. -/
def Accounting.count (echo : Option Echo) (a : Accounting) (o : Obligation) : Accounting :=
  if a.classes.length ≤ kindIdx o.kind then a
  else
    let classes := a.classes.modify (kindIdx o.kind) fun c => c.count (resolvedStatus o echo)
    match resolvedRecord o echo with
    | some rec =>
      ⟨classes, a.trust.count rec.trust, a.methods.count rec.method, a.surfaces.count rec.surface⟩
    | none =>
      if verdictIsDischarged o then
        ⟨classes, { a.trust with checked := a.trust.checked + 1 },
          { a.methods with descriptor := a.methods.descriptor + 1 }, a.surfaces⟩
      else
        ⟨classes, { a.trust with opened := Closure.saturatingSucc a.trust.opened }, a.methods,
          a.surfaces⟩

/-- The accounting of a module over the five kinds; a module without an artifact has zeros. -/
def classesFor (m : LoadedModule) : Accounting :=
  m.obligations.foldl (Accounting.count m.echo)
    ⟨KIND_ORDER.map fun k => .zero k.asStr, {}, {}, {}⟩

def moduleAccounting (m : LoadedModule) : ModuleAccounting :=
  let a := classesFor m
  { name := m.name
    target := (m.set.map fun set => set.target).getD ""
    model := (m.set.map fun set => set.modelSemantics).getD ""
    concurrency := (m.set.map fun set => set.concurrency).getD Manifest.CONCURRENCY_UNMODELED
    classes := a.classes, trust := a.trust, methods := a.methods, surfaces := a.surfaces }

def siteOf (o : Obligation) : String := o.site.word ++ "." ++ toString o.site.occurrence.toNat

def subjectText (o : Obligation) : Option String :=
  if o.intent.subject.isEmpty then none else some o.intent.subject

/-- An open obligation as the report lists it, with the reason the echo gives. -/
def openOf (m : LoadedModule) (o : Obligation) : OpenObligation where
  id := o.id
  kind := o.kind.asStr
  module := m.name
  word := o.site.word
  site := siteOf o
  line := o.site.span.line
  reason := m.echo.bind fun e => (e.openReasons.find? fun r => r.id == o.id).map fun r => r.reason
  intent := some o.intent.label
  subject := subjectText o

def collectOpen (m : LoadedModule) : List OpenObligation :=
  (m.obligations.filter fun o => resolvedStatus o m.echo == .opened).map (openOf m)

def collectAssumed (m : LoadedModule) : List AssumedObligation :=
  m.obligations.filterMap fun o =>
    (resolvedRecord o m.echo).bind fun r =>
      if r.status = .assumed then
        some ⟨o.id, o.kind.asStr, m.name, o.site.word, siteOf o, o.site.span.line, r.justification⟩
      else none

def collectProvablyFailing (m : LoadedModule) : List ProvablyFailing :=
  match m.set, m.echo with
  | some set, some echo => echo.provablyFailing.filterMap fun p =>
    (set.obligations.find? fun o => o.id == p.id).map fun o =>
      ⟨o.id, o.kind.asStr, m.name, o.site.word, siteOf o, o.site.span.line, p.note⟩
  | _, _ => []

def collectMmioSizes (m : LoadedModule) : List TrustedAssumption :=
  m.obligations.filterMap fun o =>
    if o.kind ≠ .mmioBounds || !verdictIsDischarged o then none
    else match o.formula with
      | .offsetLE _ _ size =>
        some ⟨"descriptor", m.name ++ ": mmio aperture size=" ++ toString size.toNat⟩
      | _ => none

/-- The main context: its peak is finite and fits the budget derived from the runtime. -/
def mainContext (modules : List LoadedModule) (rootModule : Option String)
    (nMain : Option UInt32) : MainContextAccounting :=
  match rootModule with
  | none => ⟨0, false, 0, "n/a"⟩
  | some root =>
    let rootSet := (modules.find? fun m => m.name == root).bind fun m => m.set
    match rootSet.bind fun set => set.facts.words.find? fun w => w.name == "main" with
    | none => ⟨0, false, nMain.getD 0, "open"⟩
    | some word =>
      if word.top then ⟨word.high, true, nMain.getD 0, "open"⟩
      else match nMain with
        | none => ⟨word.high, false, 0, "open"⟩
        | some budget =>
          ⟨word.high, false, budget, if word.high ≤ budget then "discharged" else "open"⟩

def isrContext (modules : List LoadedModule) (nIsr : UInt32) : IsrContextAccounting :=
  let words := modules.flatMap fun m => (m.set.map fun set => set.facts.words).getD []
  let handlers := words.filter fun w => w.performs.contains "INTERRUPT"
  if handlers.isEmpty then ⟨0, nIsr, 0, "n/a"⟩
  else ⟨handlers.foldl (fun h w => max h w.high) 0, nIsr, UInt32.ofNat handlers.length,
    "discharged"⟩

/-! ## Composition -/

inductive VerifyPolicy where
  | openOk | noOpen | noOpenNoAssumptions | proven
deriving DecidableEq

def VerifyPolicy.asStr : VerifyPolicy → String
  | .openOk => "open-ok"
  | .noOpen => "no-open"
  | .noOpenNoAssumptions => "no-open-no-assumptions"
  | .proven => "proven"

/-- What the build says of the image beside its modules: the budgets of the contexts, the
bytes of a slot, and the decision on the stack guards. -/
structure BuildSettings where
  rootModule : Option String
  verifyOn : Bool
  policy : VerifyPolicy
  moduleLoading : Bool
  nMain : Option UInt32
  nIsr : UInt32
  slotBytes : UInt64
  guards : String
  dataStackGuardsPresent : Bool

inductive ComposeError where
  | build (text : String)
  | depth

def closureModules (modules : List LoadedModule) : List Closure.ImageModule :=
  modules.map fun m => ⟨m.name, m.set, (m.echo.map fun e => e.verdicts.records).getD []⟩

def unresolvedWitness (dep : String) : String := "assumption-unresolved: " ++ dep

def obligationById (modules : List LoadedModule) (id : String) : Option Obligation :=
  modules.findSome? fun m => m.obligations.find? fun o => o.id == id

def forcedOf (modules : List LoadedModule) (u : Closure.UnresolvedDependent) : OpenObligation where
  id := u.id
  kind := u.kind
  module := u.module
  word := u.word
  site := u.word ++ "." ++ toString u.occurrence.toNat
  line := u.line
  reason := some (unresolvedWitness u.dependency)
  intent := (obligationById modules u.id).map fun o => o.intent.label
  subject := (obligationById modules u.id).bind subjectText

def loopText (path : List (String × String)) : String :=
  String.intercalate " -> " (path.map fun k => k.1 ++ "::" ++ k.2)

def keyLe (a b : String × String) : Bool :=
  decide (a.1 < b.1) || (a.1 == b.1 && !decide (b.2 < a.2))

def emittedOf (s : BuildSettings) (modules : List LoadedModule) : EmittedChecks :=
  modules.foldl (fun (c : EmittedChecks) m => match m.echo with
    | some e => { c with
        subtypeRange := c.subtypeRange + e.emitted.subtypeRange
        contract := c.contract + e.emitted.contract
        mmioBounds := c.mmioBounds + e.emitted.mmioBounds }
    | none => { c with
        subtypeRange := c.subtypeRange +
          UInt32.ofNat (m.obligations.countP fun o => o.kind == .subtypeRange)
        mmioBounds := c.mmioBounds +
          UInt32.ofNat (m.obligations.countP fun o => o.kind == .mmioBounds) })
    { dataStackGuards := s.dataStackGuardsPresent }

def echoesOf (modules : List LoadedModule) : List Echo := modules.filterMap fun m => m.echo

/-- The contract checks kept because dynamic exports are called from outside the image. -/
def retainedOf (s : BuildSettings) (opened : List OpenObligation) : List RetainedObligation :=
  if s.moduleLoading then
    ((opened.filter fun o => o.kind == Kind.contractPre.asStr || o.kind == Kind.contractPost.asStr).map
      fun o => ⟨o.id, "dynamic export (module-loading)"⟩).mergeSort fun a b => !decide (b.id < a.id)
  else []

def trustedOf (s : BuildSettings) (modules : List LoadedModule) (main : MainContextAccounting)
    (isr : IsrContextAccounting) : List TrustedAssumption :=
  let runtime := if main.verdict = "discharged" ∧ 0 < main.budget then
    [⟨"runtime", "derived N_main=" ++ toString main.budget.toNat ++ " (" ++
      toString (main.budget.toUInt64 * s.slotBytes).toNat ++ " bytes / " ++
      toString s.slotBytes.toNat ++ " slot_bytes from __lang_ds_base/__lang_ds_limit)"⟩] else []
  let descriptor := if isr.verdict = "discharged" ∧ 0 < isr.handlers then
    [⟨"descriptor", "isr_stack_slots=" ++ toString isr.budget.toNat⟩] else []
  (runtime ++ descriptor ++ modules.flatMap collectMmioSizes).mergeSort
    fun a b => !decide (b.what < a.what)

/-- The open list before it is sorted: what the modules leave open, then what the closure
forces open. -/
def openList (modules : List LoadedModule) (closure : Closure.ImageClosure) :
    List OpenObligation :=
  modules.flatMap collectOpen ++ closure.unresolved.map (forcedOf modules)

/-- The report of an image.  Modules without their files degrade to what is left of them, and
a cycle of the assumption graph fails the build. -/
def compose (s : BuildSettings) (modules : List LoadedModule) :
    Except ComposeError VerifyReport := do
  let main := mainContext modules s.rootModule s.nMain
  let isr := isrContext modules s.nIsr
  match Closure.checkImageClosureRecords (closureModules modules) with
  | .error (.cycle c) =>
    throw (.build ("E6419: assumption-closure cycle (malformed): " ++ loopText c.path))
  | .error .depth => throw .depth
  | .ok closure =>
    let opened := (openList modules closure).mergeSort fun a b =>
      keyLe (a.module, a.id) (b.module, b.id)
    pure {
      policy := if s.verifyOn then s.policy.asStr else "off"
      modules := modules.map moduleAccounting
      main, isr
      guards := s.guards
      opened
      assumed := (modules.flatMap collectAssumed).mergeSort fun a b =>
        keyLe (a.module, a.id) (b.module, b.id)
      assumptionsTrusted := trustedOf s modules main isr
      provablyFailing := modules.flatMap collectProvablyFailing
      retained := retainedOf s opened
      verdictSources := ⟨((echoesOf modules).map fun e => e.fileVerdicts).sum,
        ((echoesOf modules).map fun e => e.inTreeVerdicts).sum⟩
      staleVerdicts := ((echoesOf modules).map fun e => e.staleVerdicts).sum
      emittedChecks := emittedOf s modules
      closure := ⟨closure.wellClosed, closure.checked, UInt32.ofNat closure.unresolved.length⟩ }

def enforcePolicy (r : VerifyReport) (policy : VerifyPolicy) : Except String Unit :=
  if policy = .openOk then .ok ()
  else
    let unmodeled := if policy = .proven then
      r.modules.filter fun m => m.model == MODEL_UNMODELED || m.model.isEmpty else []
    let failsAssumed := (policy = .noOpenNoAssumptions || policy = .proven) && !r.assumed.isEmpty
    if r.opened.isEmpty && !failsAssumed && unmodeled.isEmpty then .ok ()
    else
      let base := "E6410: " ++ toString r.opened.length ++ " open obligations and " ++
        toString (if failsAssumed then r.assumed.length else 0) ++
        " assumed under --verify-policy=" ++ policy.asStr
      .error (if unmodeled.isEmpty then base else
        base ++ "; E6510: " ++ toString unmodeled.length ++
          " unmodeled module(s) in a proven image (E_MODEL_UNMODELED)")

end Report

end Tyu
