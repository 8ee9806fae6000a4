import Tyu.Loader.Device
import Tyu.Pack.Immediates
import Tyu.Lower.Ambient
import Tyu.Verifier.IntervalDomain
import Tyu.Backend.Wasm.Encoder
import Tyu.Ir.Verify
import Tyu.Ir.MmioBounds
import Tyu.Verifier.Discharge
import Tyu.Verifier.Canonical
import Tyu.Verifier.ManifestRoundTrip
import Tyu.Verifier.VerdictFileRoundTrip
import Tyu.Lower.ResolveSite
import Tyu.Lower.Build
import Tyu.Loader.ContainerRoundTrip
import Tyu.Loader.InitOrder
import Tyu.Loader.SymbolRuns
import Tyu.Loader.RelocExact
import Tyu.Loader.VerifyGate
import Tyu.Pack.Loaded
import Tyu.Seal.RoundTrip
import Tyu.Repl.SessionSlices
import Tyu.Repl.SlotNames
import Tyu.Image.PolicyGate
import Tyu.Cert.IndexParsed
import Tyu.Cert.PackageCover
import Tyu.Cert.VmSummary
import Tyu.Cache.CacheExact
import Tyu.Tasks.Delivery
import Tyu.Proof.MutualExclusion
import Tyu.Proof.TamperGate
import Tyu.Image.GuardElision
import Tyu.Lower.Separate
import Tyu.Lower.Inside
import Tyu.Backend.X86.Preserved
import Tyu.Verifier.StepExact
import Tyu.Verifier.Cycles
import Tyu.Ir.StackAlgebra
import Tyu.Verifier.ApertureMem
import Tyu.Lower.Destruct
import Tyu.Lower.QuoteNames
import Tyu.Lower.LinearUse
import Tyu.Lower.Literals
import Tyu.Verifier.SrcInterp
import Tyu.Loader.Releases
import Tyu.Pack.VerifyRecord
import Tyu.Loader.ModInfoRoundTrip
import Tyu.Verifier.ImageVerdicts
import Tyu.Verifier.Refinements
import Tyu.Lower.Extraction
import Tyu.Pack.SummaryAccepts
import Tyu.Repl.Confined
import Tyu.Rsp.Reassembly
import Tyu.Backend.Wasm.SpanTable
import Tyu.Backend.Wasm.FieldStore
import Tyu.Backend.Casts
import Tyu.Build.BuildOrder
import Tyu.Backend.X86.MmioCheck
import Tyu.Proof.VerdictSlots
import Tyu.Frontend.Layout
import Tyu.Frontend.Captures
import Tyu.Frontend.PlacePath
import Tyu.Frontend.Kept
import Tyu.Frontend.Iface
import Tyu.Lower.EnumConstants
import Tyu.Loader.Device
import Tyu.Tasks.Turns
import Tyu.Loader.Boot
