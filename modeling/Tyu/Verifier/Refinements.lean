import Tyu.Lib.Delimit
import Tyu.Verifier.ManifestTree

/-!
# The refinement manifest

The devices of a model artifact are handed to the renderer of a port as a small JSON document.
-/

namespace Tyu

open Lib Lib.Json Manifest

namespace Refinements

def REFINEMENTS_SCHEMA : String := "tyu.refinements/1"

structure DeviceRefinement extends Refinement where
  width : UInt16
  mask : UInt32
  mode : String

def renderDevice (d : DeviceRefinement) : Bytes :=
  utf8 "\x7b\"mask\":" ++ pushI64Json d.mask.toNat ++
    utf8 ",\"mode\":" ++ pushStrJson d.mode ++
    utf8 ",\"refinement\":" ++ pushStrJson d.refinement ++
    utf8 ",\"register\":" ++ pushStrJson d.register ++
    utf8 ",\"width\":" ++ pushI64Json d.width.toNat ++ utf8 "\x7d"

def renderManifest (model : String) (decls : List DeviceRefinement) : Bytes :=
  utf8 "\x7b\"schema\":" ++ pushStrJson REFINEMENTS_SCHEMA ++
    utf8 ",\"model\":" ++ pushStrJson model ++
    utf8 ",\"devices\":[" ++ commaSep renderDevice decls ++ utf8 "]\x7d"

def skipComma (text : Bytes) : Bytes := (stripPrefix [0x2C] text).getD text

def toStr (bytes : Bytes) : Option String := String.fromUTF8? bytes.toByteArray

def takeStringLiteral (text : Bytes) (key : String) : Option (String × Bytes) := do
  let text ← stripPrefix (utf8 "\"" ++ utf8 key ++ utf8 "\":\"") (skipComma text)
  let (value, text) ← upTo 0x22 text
  let value ← toStr value
  pure (value, text)

def isIntByte (b : UInt8) : Bool := b == 0x2D || isDigit b

/-- The number that a text is, if it is one of 64 bits; no plus sign gets here. -/
def i64OfStr (text : Bytes) : Option Int :=
  let (neg, digits) := match text with
    | 0x2D :: digits => (true, digits)
    | digits => (false, digits)
  let v : Int := if neg then -digitsFrom 0 digits else digitsFrom 0 digits
  if digits ≠ [] ∧ digits.all isDigit ∧ -2 ^ 63 ≤ v ∧ v < 2 ^ 63 then some v else none

def takeIntLiteral (text : Bytes) (key : String) : Option (Int × Bytes) := do
  let text ← stripPrefix (utf8 "\"" ++ utf8 key ++ utf8 "\":") (skipComma text)
  let v ← i64OfStr (text.takeWhile isIntByte)
  pure (v, text.dropWhile isIntByte)

/-- The bodies of the devices up to the closing bracket, each up to its first brace. -/
def deviceLoop : Nat → Bytes → Option (List Bytes × Bytes)
  | 0, _ => none
  | fuel + 1, text =>
    match stripPrefix [0x5D] text with
    | some tail => some ([], tail)
    | none => do
      let text ← stripPrefix [0x7B] (skipComma text)
      let (body, text) ← upTo 0x7D text
      let (bodies, tail) ← deviceLoop fuel text
      pure (body :: bodies, tail)

def takeDeviceArray (text : Bytes) : Option (List Bytes × Bytes) := do
  let text ← stripPrefix (utf8 ",\"devices\":[") text
  deviceLoop (text.length + 1) text

def parseDevice (body : Bytes) : Option DeviceRefinement := do
  let (mask, text) ← takeIntLiteral body "mask"
  let (mode, text) ← takeStringLiteral text "mode"
  let (refinement, text) ← takeStringLiteral text "refinement"
  let (register, text) ← takeStringLiteral text "register"
  let (width, _) ← takeIntLiteral text "width"
  pure { register, refinement, width := UInt16.ofInt width, mask := UInt32.ofInt mask, mode }

def parseManifest (text : Bytes) : Option (List DeviceRefinement) := do
  let text ← stripPrefix (utf8 "\x7b\"schema\":") text
  let text ← stripPrefix [0x22] text
  let (schema, text) ← upTo 0x22 text
  if schema ≠ utf8 REFINEMENTS_SCHEMA then none
  else
    let (_, text) ← takeStringLiteral text "model"
    let (devices, _) ← takeDeviceArray text
    devices.mapM parseDevice

/-! ## What the reader takes for a manifest -/

def lead (comma : Bool) : Bytes := if comma then [0x2C] else []

theorem skipComma_eq {text rest : Bytes} (h : ∀ b ∈ rest.head?, b ≠ 0x2C) :
    skipComma text = rest ↔ ∃ comma, text = lead comma ++ rest := by
  unfold skipComma
  cases hstrip : stripPrefix [0x2C] text with
  | some t =>
    rw [stripPrefix_eq_some] at hstrip
    rw [hstrip, Option.getD_some]
    constructor
    · rintro rfl
      exact ⟨true, rfl⟩
    · rintro ⟨comma, hlead⟩
      cases comma with
      | true => exact (List.cons.inj hlead).2
      | false =>
        change 0x2C :: t = rest at hlead
        rw [← hlead] at h
        exact absurd rfl (h 0x2C rfl)
  | none =>
    have hno : ∀ t, text ≠ 0x2C :: t := by
      intro t ht
      have hsome : stripPrefix [0x2C] text = some t := stripPrefix_eq_some.mpr ht
      rw [hstrip] at hsome
      cases hsome
    rw [Option.getD_none]
    constructor
    · rintro rfl
      exact ⟨false, rfl⟩
    · rintro ⟨comma, hlead⟩
      cases comma with
      | true => exact absurd hlead (hno rest)
      | false => exact hlead

theorem stripKey_eq_some {word rest text : Bytes} :
    stripPrefix (utf8 "\"" ++ word) (skipComma text) = some rest ↔
      ∃ comma, text = lead comma ++ (0x22 :: (word ++ rest)) := by
  rw [stripPrefix_eq_some]
  show skipComma text = 0x22 :: (word ++ rest) ↔ _
  refine skipComma_eq fun b hb => ?_
  rw [← Option.some.inj hb]
  decide

variable {s : String} {comma comma' : Bool} {d : DeviceRefinement} {b : UInt8} {rest' : Bytes}

theorem toStr_eq_some {bytes : Bytes} : toStr bytes = some s ↔ bytes = utf8 s := by
  constructor
  · exact fun h => (utf8_of_fromUTF8 h).symm
  · rintro rfl
    exact fromUTF8_utf8 s

theorem takeStringLiteral_eq_some {text rest : Bytes} {key : String} :
    takeStringLiteral text key = some (s, rest) ↔
      ∃ comma,
        text = lead comma ++ (0x22 :: (utf8 key ++ utf8 "\":\"" ++ (utf8 s ++ 0x22 :: rest))) ∧
          0x22 ∉ utf8 s := by
  unfold takeStringLiteral
  rw [List.append_assoc]
  constructor
  · intro h
    obtain ⟨t, hkey, hvalue⟩ := Option.bind_eq_some_iff.mp h
    obtain ⟨comma, htext⟩ := stripKey_eq_some.mp hkey
    obtain ⟨⟨value, t'⟩, hup, hstr⟩ := Option.bind_eq_some_iff.mp hvalue
    obtain ⟨ht, hquote⟩ := upTo_eq_some.mp hup
    obtain ⟨v, hv, hrest⟩ := Option.bind_eq_some_iff.mp hstr
    cases hrest
    rw [toStr_eq_some.mp hv] at hquote ht
    exact ⟨comma, by rw [htext, ht], hquote⟩
  · rintro ⟨comma, htext, hquote⟩
    refine Option.bind_eq_some_iff.mpr ⟨_, stripKey_eq_some.mpr ⟨comma, htext⟩, ?_⟩
    refine Option.bind_eq_some_iff.mpr ⟨_, upTo_eq_some.mpr ⟨rfl, hquote⟩, ?_⟩
    exact Option.bind_eq_some_iff.mpr ⟨s, toStr_eq_some.mpr rfl, rfl⟩

def EndsInt (text : Bytes) : Prop := ∀ b ∈ text.head?, isIntByte b = false

theorem takeIntLiteral_eq_some {text rest : Bytes} {key : String} {v : Int} :
    takeIntLiteral text key = some (v, rest) ↔
      ∃ comma digits, text = lead comma ++ (0x22 :: (utf8 key ++ utf8 "\":" ++ (digits ++ rest))) ∧
        (∀ b ∈ digits, isIntByte b = true) ∧ EndsInt rest ∧ i64OfStr digits = some v := by
  unfold takeIntLiteral
  rw [List.append_assoc]
  constructor
  · intro h
    obtain ⟨t, hkey, hvalue⟩ := Option.bind_eq_some_iff.mp h
    obtain ⟨comma, htext⟩ := stripKey_eq_some.mp hkey
    obtain ⟨w, hv, hrest⟩ := Option.bind_eq_some_iff.mp hvalue
    cases hrest
    refine ⟨comma, t.takeWhile isIntByte, by rw [htext, List.takeWhile_append_dropWhile], ?_, ?_, hv⟩
    · exact fun b hb => (List.all_takeWhile |> List.all_eq_true.mp) b hb
    · intro b hb
      have hhead := List.head?_dropWhile_not isIntByte t
      rw [Option.mem_def.mp hb] at hhead
      simpa using hhead
  · rintro ⟨comma, digits, htext, hdigits, hends, hv⟩
    refine Option.bind_eq_some_iff.mpr ⟨_, stripKey_eq_some.mpr ⟨comma, htext⟩, ?_⟩
    have hsplit : (digits ++ rest).takeWhile isIntByte = digits ∧
        (digits ++ rest).dropWhile isIntByte = rest := by
      refine run_unique (p := isIntByte)
        (fun b hb => (List.all_takeWhile |> List.all_eq_true.mp) b hb) hdigits ?_ hends
        List.takeWhile_append_dropWhile
      intro b hb
      have hhead := List.head?_dropWhile_not isIntByte (digits ++ rest)
      rw [Option.mem_def.mp hb] at hhead
      simpa using hhead
    rw [hsplit.1, hsplit.2]
    exact Option.bind_eq_some_iff.mpr ⟨v, hv, rfl⟩

def stringText (comma : Bool) (key s : String) : Bytes :=
  lead comma ++ (0x22 :: (utf8 key ++ utf8 "\":\"" ++ (utf8 s ++ [0x22])))

def intText (comma : Bool) (key : String) (digits : Bytes) : Bytes :=
  lead comma ++ (0x22 :: (utf8 key ++ utf8 "\":" ++ digits))

/-- The parts of a device as the reader takes them: the keys in their order, each behind a comma
or not, strings without a quote, numbers of 64 bits, and then anything. -/
structure LooseDevice where
  commas : Bool × Bool × Bool × Bool × Bool
  mask : Bytes
  mode : String
  refinement : String
  register : String
  width : Bytes
  rest : Bytes

namespace LooseDevice

def text (l : LooseDevice) : Bytes :=
  intText l.commas.1 "mask" l.mask ++ (stringText l.commas.2.1 "mode" l.mode ++
    (stringText l.commas.2.2.1 "refinement" l.refinement ++
      (stringText l.commas.2.2.2.1 "register" l.register ++
        (intText l.commas.2.2.2.2 "width" l.width ++ l.rest))))

/-- The parts are what they are taken for, and mean `d`. -/
structure Means (l : LooseDevice) (d : DeviceRefinement) : Prop where
  mode : 0x22 ∉ utf8 l.mode
  refinement : 0x22 ∉ utf8 l.refinement
  register : 0x22 ∉ utf8 l.register
  maskInt : ∀ b ∈ l.mask, isIntByte b = true
  widthInt : ∀ b ∈ l.width, isIntByte b = true
  ends : EndsInt l.rest
  brace : 0x7D ∉ l.text
  value : ∃ mask width, i64OfStr l.mask = some mask ∧ i64OfStr l.width = some width ∧
    d = ⟨⟨l.register, l.refinement⟩, UInt16.ofInt width, UInt32.ofInt mask, l.mode⟩

end LooseDevice

theorem endsInt_string (comma : Bool) (key s : String) (rest : Bytes) :
    EndsInt (stringText comma key s ++ rest) := by
  intro b hb
  cases comma with
  | true =>
    rw [← Option.some.inj hb]
    decide
  | false =>
    rw [← Option.some.inj hb]
    decide

theorem takeStringLiteral_stringText {key : String} {rest : Bytes} (h : 0x22 ∉ utf8 s) :
    takeStringLiteral (stringText comma key s ++ rest) key = some (s, rest) := by
  refine takeStringLiteral_eq_some.mpr ⟨comma, ?_, h⟩
  simp only [stringText, List.append_assoc, List.cons_append, List.nil_append]

theorem takeIntLiteral_intText {key : String} {digits rest : Bytes} {v : Int}
    (hdigits : ∀ b ∈ digits, isIntByte b = true) (hends : EndsInt rest)
    (hv : i64OfStr digits = some v) :
    takeIntLiteral (intText comma key digits ++ rest) key = some (v, rest) := by
  refine takeIntLiteral_eq_some.mpr ⟨comma, digits, ?_, hdigits, hends, hv⟩
  simp only [intText, List.append_assoc, List.cons_append]

theorem parseDevice_eq_some {body : Bytes} (hbrace : 0x7D ∉ body) :
    parseDevice body = some d ↔ ∃ l : LooseDevice, body = l.text ∧ l.Means d := by
  unfold parseDevice
  constructor
  · intro h
    obtain ⟨⟨mask, t₁⟩, hmask, h₁⟩ := Option.bind_eq_some_iff.mp h
    obtain ⟨⟨mode, t₂⟩, hmode, h₂⟩ := Option.bind_eq_some_iff.mp h₁
    obtain ⟨⟨refinement, t₃⟩, hrefinement, h₃⟩ := Option.bind_eq_some_iff.mp h₂
    obtain ⟨⟨register, t₄⟩, hregister, h₄⟩ := Option.bind_eq_some_iff.mp h₃
    obtain ⟨⟨width, t₅⟩, hwidth, h₅⟩ := Option.bind_eq_some_iff.mp h₄
    obtain ⟨c₁, maskText, e₁, hmaskInt, -, hmaskValue⟩ := takeIntLiteral_eq_some.mp hmask
    obtain ⟨c₂, e₂, hmodeQuote⟩ := takeStringLiteral_eq_some.mp hmode
    obtain ⟨c₃, e₃, hrefinementQuote⟩ := takeStringLiteral_eq_some.mp hrefinement
    obtain ⟨c₄, e₄, hregisterQuote⟩ := takeStringLiteral_eq_some.mp hregister
    obtain ⟨c₅, widthText, e₅, hwidthInt, hends, hwidthValue⟩ := takeIntLiteral_eq_some.mp hwidth
    have htext : body = LooseDevice.text
        ⟨(c₁, c₂, c₃, c₄, c₅), maskText, mode, refinement, register, widthText, t₅⟩ := by
      rw [e₁, e₂, e₃, e₄, e₅]
      simp only [LooseDevice.text, intText, stringText, List.append_assoc, List.cons_append,
        List.nil_append]
    refine ⟨_, htext, hmodeQuote, hrefinementQuote, hregisterQuote, hmaskInt, hwidthInt, hends, ?_,
      mask, width, hmaskValue, hwidthValue, (Option.some.inj h₅).symm⟩
    rw [← htext]
    exact hbrace
  · rintro ⟨l, htext, h⟩
    obtain ⟨mask, width, hmask, hwidth, hd⟩ := h.value
    rw [hd, htext, LooseDevice.text]
    refine Option.bind_eq_some_iff.mpr
      ⟨_, takeIntLiteral_intText h.maskInt (endsInt_string _ _ _ _) hmask, ?_⟩
    refine Option.bind_eq_some_iff.mpr ⟨_, takeStringLiteral_stringText h.mode, ?_⟩
    refine Option.bind_eq_some_iff.mpr ⟨_, takeStringLiteral_stringText h.refinement, ?_⟩
    refine Option.bind_eq_some_iff.mpr ⟨_, takeStringLiteral_stringText h.register, ?_⟩
    exact Option.bind_eq_some_iff.mpr ⟨_, takeIntLiteral_intText h.widthInt h.ends hwidth, rfl⟩

/-- Devices up to a bracket, each behind a comma or not, and then anything. -/
inductive LooseDevices : Bytes → List DeviceRefinement → Prop where
  | close (tail : Bytes) : LooseDevices (0x5D :: tail) []
  | device {l : LooseDevice} {d : DeviceRefinement} {rest : Bytes} {ds : List DeviceRefinement}
      (comma : Bool) (means : l.Means d) (more : LooseDevices rest ds) :
      LooseDevices (lead comma ++ (0x7B :: (l.text ++ 0x7D :: rest))) (d :: ds)

theorem deviceLoop_eq_some {fuel : Nat} {text : Bytes} {ds : List DeviceRefinement}
    (hfuel : text.length < fuel) :
    (∃ bodies tail, deviceLoop fuel text = some (bodies, tail) ∧
      bodies.mapM parseDevice = some ds) ↔ LooseDevices text ds := by
  induction fuel generalizing text ds with
  | zero => omega
  | succ fuel ih =>
    unfold deviceLoop
    cases hclose : stripPrefix [0x5D] text with
    | some tail =>
      rw [stripPrefix_eq_some] at hclose
      subst hclose
      constructor
      · rintro ⟨bodies, tail', hloop, hparse⟩
        cases hloop
        cases hparse
        exact .close tail
      · intro h
        generalize hhead : [0x5D] ++ tail = text at h
        cases h with
        | close tail' => exact ⟨[], tail, rfl, rfl⟩
        | device comma means more =>
          cases comma with
          | true => exact absurd (List.cons.inj hhead).1 (by decide)
          | false => exact absurd (List.cons.inj hhead).1 (by decide)
    | none =>
      constructor
      · rintro ⟨bodies, tail, hloop, hparse⟩
        obtain ⟨t, hopen, hbody⟩ := Option.bind_eq_some_iff.mp hloop
        rw [stripPrefix_eq_some, skipComma_eq (fun b hb => by
          rw [← Option.some.inj hb]
          decide)] at hopen
        obtain ⟨comma, htext⟩ := hopen
        obtain ⟨⟨body, rest⟩, hup, hmore⟩ := Option.bind_eq_some_iff.mp hbody
        obtain ⟨ht, hbrace⟩ := upTo_eq_some.mp hup
        obtain ⟨⟨bodies', tail'⟩, hloop', hparts⟩ := Option.bind_eq_some_iff.mp hmore
        cases hparts
        rw [List.mapM_cons] at hparse
        obtain ⟨d, hd, hrest⟩ := Option.bind_eq_some_iff.mp hparse
        obtain ⟨ds', hds, hcons⟩ := Option.bind_eq_some_iff.mp hrest
        cases hcons
        obtain ⟨l, rfl, hmeans⟩ := (parseDevice_eq_some hbrace).mp hd
        rw [htext, ht]
        refine .device comma hmeans ((ih ?_).mp ⟨bodies', _, hloop', hds⟩)
        rw [htext, ht] at hfuel
        simp only [List.length_append, List.length_cons] at hfuel
        omega
      · intro h
        cases h with
        | close tail => exact absurd (hclose.symm.trans (stripPrefix_eq_some.mpr rfl)) (by simp)
        | @device l d rest ds comma means more =>
          obtain ⟨bodies, tail, hloop, hparse⟩ := (ih (by
            simp only [List.length_append, List.length_cons] at hfuel
            omega)).mpr more
          refine ⟨l.text :: bodies, tail, ?_, ?_⟩
          · refine Option.bind_eq_some_iff.mpr ⟨l.text ++ 0x7D :: rest, ?_, ?_⟩
            · rw [stripPrefix_eq_some, skipComma_eq (fun b hb => by
                rw [← Option.some.inj hb]
                decide)]
              exact ⟨comma, rfl⟩
            refine Option.bind_eq_some_iff.mpr ⟨_, upTo_eq_some.mpr ⟨rfl, means.brace⟩, ?_⟩
            exact Option.bind_eq_some_iff.mpr ⟨_, hloop, rfl⟩
          · rw [List.mapM_cons]
            refine Option.bind_eq_some_iff.mpr
              ⟨d, (parseDevice_eq_some means.brace).mpr ⟨l, rfl, means⟩, ?_⟩
            exact Option.bind_eq_some_iff.mpr ⟨_, hparse, rfl⟩

/-- The head of a manifest up to its devices, with a comma in front of the model or not. -/
def headText (comma : Bool) (model : String) : Bytes :=
  utf8 "\x7b\"schema\":" ++ (0x22 :: (utf8 REFINEMENTS_SCHEMA ++ (0x22 ::
    (stringText comma "model" model ++ utf8 ",\"devices\":["))))

/-- The texts that are taken for a manifest of the devices `ds`. -/
def LooseManifest (text : Bytes) (ds : List DeviceRefinement) : Prop :=
  ∃ comma model rest, text = headText comma model ++ rest ∧ 0x22 ∉ utf8 model ∧
    LooseDevices rest ds

theorem parseManifest_eq_some {text : Bytes} {ds : List DeviceRefinement} :
    parseManifest text = some ds ↔ LooseManifest text ds := by
  have hschema : (0x22 : UInt8) ∉ utf8 REFINEMENTS_SCHEMA := by decide
  unfold parseManifest
  constructor
  · intro h
    obtain ⟨t₁, h₁, h⟩ := Option.bind_eq_some_iff.mp h
    obtain ⟨t₂, h₂, h⟩ := Option.bind_eq_some_iff.mp h
    obtain ⟨⟨schema, t₃⟩, h₃, h⟩ := Option.bind_eq_some_iff.mp h
    dsimp only at h
    by_cases hname : schema ≠ utf8 REFINEMENTS_SCHEMA
    · rw [if_pos hname] at h
      cases h
    rw [if_neg hname] at h
    obtain ⟨⟨model, t₄⟩, h₄, h⟩ := Option.bind_eq_some_iff.mp h
    obtain ⟨⟨bodies, tail⟩, h₅, hparse⟩ := Option.bind_eq_some_iff.mp h
    unfold takeDeviceArray at h₅
    obtain ⟨t₅, hopen, hloop⟩ := Option.bind_eq_some_iff.mp h₅
    obtain ⟨comma, hmodel, hquote⟩ := takeStringLiteral_eq_some.mp h₄
    have hdevices := (deviceLoop_eq_some (Nat.lt_succ_self _)).mp ⟨bodies, tail, hloop, hparse⟩
    refine ⟨comma, model, t₅, ?_, hquote, hdevices⟩
    have hdevicesText : t₄ = utf8 ",\"devices\":[" ++ t₅ := stripPrefix_eq_some.mp hopen
    rw [stripPrefix_eq_some.mp h₁, stripPrefix_eq_some.mp h₂, (upTo_eq_some.mp h₃).1, hmodel,
      hdevicesText, not_not.mp hname]
    simp only [headText, stringText, List.append_assoc, List.cons_append, List.nil_append]
  · rintro ⟨comma, model, rest, rfl, hquote, hdevices⟩
    obtain ⟨bodies, tail, hloop, hparse⟩ :=
      (deviceLoop_eq_some (Nat.lt_succ_self rest.length)).mpr hdevices
    rw [headText, List.append_assoc, List.cons_append, List.append_assoc, List.cons_append,
      List.append_assoc]
    refine Option.bind_eq_some_iff.mpr ⟨_, stripPrefix_eq_some.mpr rfl, ?_⟩
    refine Option.bind_eq_some_iff.mpr ⟨_, stripPrefix_eq_some.mpr rfl, ?_⟩
    refine Option.bind_eq_some_iff.mpr ⟨_, upTo_eq_some.mpr ⟨rfl, hschema⟩, ?_⟩
    dsimp only
    rw [if_neg (not_not_intro rfl)]
    refine Option.bind_eq_some_iff.mpr ⟨_, takeStringLiteral_stringText hquote, ?_⟩
    refine Option.bind_eq_some_iff.mpr ⟨(bodies, tail), ?_, hparse⟩
    exact Option.bind_eq_some_iff.mpr ⟨_, stripPrefix_eq_some.mpr rfl, hloop⟩

/-! ## What survives the round trip -/

def Plain (s : String) : Prop :=
  ∀ b ∈ utf8 s, b ≠ 0x22 ∧ b ≠ 0x5C ∧ 0x20 ≤ b ∧ b ≠ 0x7D

structure PlainDevice (d : DeviceRefinement) : Prop where
  mode : Plain d.mode
  refinement : Plain d.refinement
  register : Plain d.register

def escapedText (key s : String) : Bytes :=
  0x2C :: 0x22 :: (utf8 key ++ utf8 "\":\"" ++ ((utf8 s).flatMap escape ++ [0x22]))

theorem escape_eq_self_iff (b : UInt8) : escape b = [b] ↔ b ≠ 0x22 ∧ b ≠ 0x5C ∧ 0x20 ≤ b := by
  unfold escape
  split_ifs <;> simp_all

theorem quote_mem_escape (h : 0x22 ∈ escape b) : b = 0x22 := by
  have hall : ∀ n : Fin 256, 0x22 ∈ escape (UInt8.ofNat n) → UInt8.ofNat n = 0x22 := by
    decide +kernel
  have hb := hall ⟨b.toNat, b.toNat_lt⟩
  rw [UInt8.ofNat_toNat] at hb
  exact hb h

theorem quote_not_mem_escaped {bs : Bytes} (h : 0x22 ∉ bs) : 0x22 ∉ bs.flatMap escape := by
  intro hmem
  obtain ⟨b, hb, hquote⟩ := List.mem_flatMap.mp hmem
  rw [quote_mem_escape hquote] at hb
  exact h hb

theorem escape_ne_nil (b : UInt8) : escape b ≠ [] := by
  unfold escape
  split_ifs <;> simp

theorem escaped_eq_self_iff (bs : Bytes) :
    bs.flatMap escape = bs ↔ ∀ b ∈ bs, escape b = [b] := by
  have hlong : ∀ bs : Bytes, bs.length ≤ (bs.flatMap escape).length := by
    intro bs
    induction bs with
    | nil => exact Nat.le_refl _
    | cons b bs ih =>
      have hpos := List.length_pos_of_ne_nil (escape_ne_nil b)
      rw [List.flatMap_cons, List.length_append, List.length_cons]
      omega
  induction bs with
  | nil => exact iff_of_true rfl fun b hb => absurd hb List.not_mem_nil
  | cons b bs ih =>
    rw [List.flatMap_cons, List.forall_mem_cons]
    constructor
    · intro h
      have hlen := congrArg List.length h
      have hpos := List.length_pos_of_ne_nil (escape_ne_nil b)
      have hle := hlong bs
      rw [List.length_append, List.length_cons] at hlen
      have hone : (escape b).length = 1 := by omega
      obtain ⟨c, hc⟩ := List.length_eq_one_iff.mp hone
      rw [hc, List.singleton_append, List.cons.injEq] at h
      rw [hc, h.1]
      exact ⟨rfl, ih.mp h.2⟩
    · rintro ⟨hb, hbs⟩
      rw [hb, ih.mpr hbs, List.singleton_append]

theorem string_read_as_written {key : String} {rest : Bytes} (hquote : 0x22 ∉ utf8 s)
    (h : stringText comma key s ++ rest = escapedText key s ++ rest') :
    stringText comma key s = escapedText key s ∧ (∀ b ∈ utf8 s, escape b = [b]) ∧ rest = rest' := by
  unfold stringText escapedText at h ⊢
  cases comma with
  | false => exact absurd (List.cons.inj h).1 (by decide)
  | true =>
    have htail : utf8 s ++ 0x22 :: rest = (utf8 s).flatMap escape ++ 0x22 :: rest' := by
      simp only [lead, if_true, List.append_assoc, List.cons_append, List.nil_append,
        List.cons.injEq, true_and, List.append_cancel_left_eq] at h
      exact h
    obtain ⟨hsame, hrest⟩ := upTo_unique hquote (quote_not_mem_escaped hquote) htail
    refine ⟨?_, (escaped_eq_self_iff _).mp hsame.symm, hrest⟩
    rw [← hsame]
    rfl

theorem int_read_as_written {key : String} {digits digits' rest : Bytes}
    (hdigits : ∀ b ∈ digits, isIntByte b = true) (hdigits' : ∀ b ∈ digits', isIntByte b = true)
    (hends : EndsInt rest) (hends' : EndsInt rest')
    (h : intText comma key digits ++ rest = intText comma' key digits' ++ rest') :
    intText comma key digits = intText comma' key digits' ∧ rest = rest' := by
  unfold intText at h ⊢
  have hcomma : comma = comma' := by
    cases comma with
    | false =>
      cases comma' with
      | false => rfl
      | true => exact absurd (List.cons.inj h).1 (by decide)
    | true =>
      cases comma' with
      | false => exact absurd (List.cons.inj h).1 (by decide)
      | true => rfl
  subst hcomma
  simp only [List.append_assoc, List.cons_append, List.append_cancel_left_eq, List.cons.injEq,
    true_and] at h
  obtain ⟨rfl, hrest⟩ := run_unique hdigits hdigits' hends hends' h
  exact ⟨rfl, hrest⟩

theorem isIntByte_of_mem_decimal {n : Nat} (h : b ∈ decimal n) : isIntByte b = true := by
  unfold isIntByte
  rw [isDigit_of_mem_decimal h, Bool.or_true]

theorem i64OfStr_decimal {n : Nat} (h : n < 2 ^ 63) : i64OfStr (decimal n) = some (n : Int) := by
  obtain ⟨d, ds, hd, hdigit⟩ := decimal_head n
  have hminus : d ≠ 0x2D := ne_of_isDigit hdigit (by decide)
  have hsplit : (match decimal n with
      | 0x2D :: digits => (true, digits)
      | digits => (false, digits)) = (false, decimal n) := by
    rw [hd]
    split
    · rename_i heq
      exact absurd (List.cons.inj heq).1 hminus
    · rfl
  have hall : (decimal n).all isDigit = true :=
    List.all_eq_true.mpr fun b hb => isDigit_of_mem_decimal hb
  unfold i64OfStr
  rw [hsplit]
  dsimp only
  rw [digitsFrom_decimal, if_neg Bool.false_ne_true,
    if_pos ⟨decimal_ne_nil n, hall, by omega, by omega⟩]

def bodyText (d : DeviceRefinement) : Bytes :=
  intText false "mask" (decimal d.mask.toNat) ++ (escapedText "mode" d.mode ++
    (escapedText "refinement" d.refinement ++ (escapedText "register" d.register ++
      intText true "width" (decimal d.width.toNat))))

theorem renderDevice_eq (d : DeviceRefinement) :
    renderDevice d = 0x7B :: (bodyText d ++ [0x7D]) := by
  have hmask : pushI64Json d.mask.toNat = decimal d.mask.toNat := by
    rw [pushI64Json_uint32, number, if_neg (by omega)]
    rfl
  have hwidth : pushI64Json d.width.toNat = decimal d.width.toNat := by
    have hlt := d.width.toNat_lt
    rw [pushI64Json_eq (by omega) (by omega), number, if_neg (by omega)]
    rfl
  simp only [renderDevice, hmask, hwidth, pushStrJson_eq, quote, bodyText, intText, escapedText,
    List.append_assoc, List.cons_append]
  rfl

theorem loose_of_plain (h : PlainDevice d) :
    ∃ l : LooseDevice, l.text = bodyText d ∧ l.Means d := by
  have hstring : ∀ {s : String} (key : String), Plain s →
      stringText true key s = escapedText key s ∧ 0x22 ∉ utf8 s ∧ 0x7D ∉ utf8 s := by
    intro s key hs
    have hescape : (utf8 s).flatMap escape = utf8 s := (escaped_eq_self_iff _).mpr fun b hb =>
      (escape_eq_self_iff b).mpr ⟨(hs b hb).1, (hs b hb).2.1, (hs b hb).2.2.1⟩
    refine ⟨?_, fun hmem => (hs _ hmem).1 rfl, fun hmem => (hs _ hmem).2.2.2 rfl⟩
    rw [escapedText, hescape]
    rfl
  have hdecimal : ∀ n, (0x7D : UInt8) ∉ decimal n := by
    intro n hmem
    exact absurd (isDigit_of_mem_decimal hmem) (by decide)
  obtain ⟨hmode, hmodeQuote, hmodeBrace⟩ := hstring "mode" h.mode
  obtain ⟨href, hrefQuote, hrefBrace⟩ := hstring "refinement" h.refinement
  obtain ⟨hreg, hregQuote, hregBrace⟩ := hstring "register" h.register
  have hmask := d.mask.toNat_lt
  have hwidth := d.width.toNat_lt
  refine ⟨⟨(false, true, true, true, true), decimal d.mask.toNat, d.mode, d.refinement, d.register,
    decimal d.width.toNat, []⟩, ?_, hmodeQuote, hrefQuote, hregQuote,
    fun b => isIntByte_of_mem_decimal, fun b => isIntByte_of_mem_decimal,
    fun b hb => (by cases hb), ?_, d.mask.toNat, d.width.toNat, i64OfStr_decimal (by omega),
    i64OfStr_decimal (by omega), ?_⟩
  · rw [LooseDevice.text, bodyText, hmode, href, hreg, List.append_nil]
  · have hlead : ∀ comma, (0x7D : UInt8) ∉ lead comma := by decide
    have hkey : ∀ key ∈ ["mask", "mode", "refinement", "register", "width", "\":", "\":\""],
        (0x7D : UInt8) ∉ utf8 key := by
      decide
    simp [LooseDevice.text, intText, stringText, hmodeBrace, hrefBrace, hregBrace, hdecimal, hlead,
      hkey]
  · have hm : UInt32.ofInt (d.mask.toNat : Int) = d.mask := by
      have hmod : ((d.mask.toNat : Int) % 2 ^ 32).toNat = d.mask.toNat := by omega
      rw [UInt32.ofInt, hmod, UInt32.ofNat_toNat]
    have hw : UInt16.ofInt (d.width.toNat : Int) = d.width := by
      have hmod : ((d.width.toNat : Int) % 2 ^ 16).toNat = d.width.toNat := by omega
      rw [UInt16.ofInt, hmod, UInt16.ofNat_toNat]
    rw [hm, hw]

theorem lead_inj {rest : Bytes} (hb : b ≠ 0x2C)
    (h : lead comma ++ b :: rest = lead comma' ++ b :: rest') : comma = comma' ∧ rest = rest' := by
  cases comma with
  | false =>
    cases comma' with
    | false => exact ⟨rfl, (List.cons.inj h).2⟩
    | true => exact absurd (List.cons.inj h).1 hb
  | true =>
    cases comma' with
    | false => exact absurd (List.cons.inj h).1.symm hb
    | true => exact ⟨rfl, (List.cons.inj (List.cons.inj h).2).2⟩

theorem plain_of_loose {l : LooseDevice} {rest : Bytes} (hl : l.Means d)
    (h : lead comma ++ (0x7B :: (l.text ++ 0x7D :: rest)) =
      lead comma' ++ (renderDevice d ++ rest')) : PlainDevice d ∧ rest = rest' := by
  obtain ⟨mask, width, -, -, hd⟩ := hl.value
  rw [renderDevice_eq, List.cons_append] at h
  obtain ⟨-, h⟩ := lead_inj (by decide) h
  have hmodeName : d.mode = l.mode := by rw [hd]
  have hrefName : d.refinement = l.refinement := by rw [hd]
  have hregName : d.register = l.register := by rw [hd]
  rw [LooseDevice.text, bodyText, hmodeName, hrefName, hregName] at h
  simp only [List.append_assoc, List.singleton_append] at h
  have hescaped : ∀ key s (rest : Bytes), EndsInt (escapedText key s ++ rest) := by
    intro key s rest b hb
    rw [← Option.some.inj hb]
    decide
  obtain ⟨-, h⟩ := int_read_as_written hl.maskInt (fun b => isIntByte_of_mem_decimal)
    (endsInt_string _ _ _ _) (hescaped _ _ _) h
  obtain ⟨-, hmode, h⟩ := string_read_as_written hl.mode h
  obtain ⟨-, href, h⟩ := string_read_as_written hl.refinement h
  obtain ⟨-, hreg, h⟩ := string_read_as_written hl.register h
  have hends : EndsInt (l.rest ++ 0x7D :: rest) := by
    intro b hb
    have hrest := hl.ends
    cases htext : l.rest with
    | nil =>
      rw [htext] at hb
      rw [← Option.some.inj hb]
      decide
    | cons c t =>
      rw [htext] at hb hrest
      exact hrest b hb
  have hends' : EndsInt (0x7D :: rest') := by
    intro b hb
    rw [← Option.some.inj hb]
    decide
  obtain ⟨-, h⟩ := int_read_as_written hl.widthInt (fun b => isIntByte_of_mem_decimal) hends hends' h
  have hbrace := hl.brace
  simp only [LooseDevice.text, stringText, List.mem_append, List.mem_cons, not_or] at hbrace
  have hrest : (0x7D : UInt8) ∉ l.rest := hbrace.2.2.2.2.2
  have hclose : l.rest ++ 0x7D :: rest = [] ++ 0x7D :: rest' := h
  refine ⟨?_, (upTo_unique hrest List.not_mem_nil hclose).2⟩
  have hplain : ∀ {s : String}, (∀ b ∈ utf8 s, escape b = [b]) → 0x7D ∉ utf8 s → Plain s := by
    intro s hescape hnot b hb
    obtain ⟨hquote, hslash, hcontrol⟩ := (escape_eq_self_iff b).mp (hescape b hb)
    refine ⟨hquote, hslash, hcontrol, ?_⟩
    rintro rfl
    exact hnot hb
  constructor
  · rw [hmodeName]
    exact hplain hmode hbrace.2.1.2.2.2.1
  · rw [hrefName]
    exact hplain href hbrace.2.2.1.2.2.2.1
  · rw [hregName]
    exact hplain hreg hbrace.2.2.2.1.2.2.2.1

def devicesText (comma : Bool) : List DeviceRefinement → Bytes
  | [] => [0x5D, 0x7D]
  | d :: ds => lead comma ++ (renderDevice d ++ devicesText true ds)

theorem looseDevices_iff (comma : Bool) (ds : List DeviceRefinement) :
    LooseDevices (devicesText comma ds) ds ↔ ∀ d ∈ ds, PlainDevice d := by
  induction ds generalizing comma with
  | nil => exact iff_of_true (.close [0x7D]) fun d hd => absurd hd List.not_mem_nil
  | cons d ds ih =>
    rw [List.forall_mem_cons]
    constructor
    · intro h
      generalize htext : devicesText comma (d :: ds) = text at h
      cases h with
      | device comma' means more =>
        obtain ⟨hplain, rfl⟩ := plain_of_loose means htext.symm
        exact ⟨hplain, (ih true).mp more⟩
    · rintro ⟨hd, hds⟩
      obtain ⟨l, hl, hmeans⟩ := loose_of_plain hd
      have hdevice := LooseDevices.device comma hmeans ((ih true).mpr hds)
      rw [hl] at hdevice
      rw [devicesText, renderDevice_eq]
      simp only [List.cons_append, List.append_assoc, List.nil_append]
      exact hdevice

theorem renderManifest_eq (model : String) (ds : List DeviceRefinement) :
    renderManifest model ds = utf8 "\x7b\"schema\":" ++ (0x22 :: (utf8 REFINEMENTS_SCHEMA ++ (0x22 ::
      (escapedText "model" model ++ (utf8 ",\"devices\":[" ++ devicesText false ds))))) := by
  have hschema : pushStrJson REFINEMENTS_SCHEMA =
      0x22 :: (utf8 REFINEMENTS_SCHEMA ++ [0x22]) := by
    decide
  have hmore : ∀ ds : List DeviceRefinement,
      (ds.flatMap fun d => 0x2C :: renderDevice d) ++ utf8 "]\x7d" = devicesText true ds := by
    intro ds
    induction ds with
    | nil => rfl
    | cons d ds ih =>
      rw [List.flatMap_cons, List.append_assoc, ih]
      rfl
  have hdevices : commaSep renderDevice ds ++ utf8 "]\x7d" = devicesText false ds := by
    cases ds with
    | nil => rfl
    | cons d ds =>
      rw [commaSep, List.append_assoc, hmore]
      rfl
  rw [renderManifest, List.append_assoc, hdevices, hschema, pushStrJson_eq]
  simp only [quote, escapedText, List.append_assoc, List.cons_append, List.nil_append]
  rfl

theorem devices_not_escaped {b rest rest' : Bytes} (h : utf8 ",\"devices\":[" ++ rest =
    b.flatMap escape ++ 0x22 :: (utf8 ",\"devices\":[" ++ rest')) : False := by
  have hcomma : ∀ x t u, escape x ++ t = 0x2C :: u → t = u := by
    have hall : ∀ n : Fin 256, (escape (UInt8.ofNat n)).head? = some 0x2C →
        escape (UInt8.ofNat n) = [0x2C] := by
      decide +kernel
    intro x t u hx
    have hescape := hall ⟨x.toNat, x.toNat_lt⟩
    rw [UInt8.ofNat_toNat] at hescape
    have hhead : (escape x).head? = some 0x2C := by
      cases htext : escape x with
      | nil => exact absurd htext (escape_ne_nil x)
      | cons c cs =>
        rw [htext] at hx
        rw [List.head?_cons, (List.cons.inj hx).1]
    rw [hescape hhead] at hx
    exact (List.cons.inj hx).2
  cases b with
  | nil => exact absurd (List.cons.inj h).1 (by decide)
  | cons x b =>
    rw [List.flatMap_cons, List.append_assoc] at h
    have h' := hcomma x _ _ h.symm
    cases b with
    | nil => exact absurd (List.cons.inj (List.cons.inj h').2).1 (by decide)
    | cons y b =>
      rw [List.flatMap_cons, List.append_assoc] at h'
      exact escape_ne_quote y _ _ h'

theorem quote_free_of_loose {model m : String} {comma : Bool} {rest rest' : Bytes}
    (hm : 0x22 ∉ utf8 m)
    (h : stringText comma "model" m ++ (utf8 ",\"devices\":[" ++ rest) =
      escapedText "model" model ++ (utf8 ",\"devices\":[" ++ rest')) :
    0x22 ∉ utf8 model ∧ rest = rest' := by
  have hcomma : comma = true := by
    cases comma with
    | false => exact absurd (List.cons.inj h).1 (by decide)
    | true => rfl
  subst hcomma
  have htail : utf8 m ++ 0x22 :: (utf8 ",\"devices\":[" ++ rest) =
      (utf8 model).flatMap escape ++ 0x22 :: (utf8 ",\"devices\":[" ++ rest') := by
    simp only [stringText, escapedText, lead, if_true, List.append_assoc, List.cons_append,
      List.nil_append, List.cons.injEq, true_and, List.append_cancel_left_eq] at h
    exact h
  by_cases hquote : 0x22 ∈ utf8 model
  · exfalso
    obtain ⟨a, b, hsplit, ha⟩ := List.eq_append_cons_of_mem hquote
    have hfront : 0x22 ∉ a.flatMap escape ++ [0x5C] := by
      rw [List.mem_append, not_or]
      exact ⟨quote_not_mem_escaped ha, by decide⟩
    have hescaped : (utf8 model).flatMap escape ++ 0x22 :: (utf8 ",\"devices\":[" ++ rest') =
        (a.flatMap escape ++ [0x5C]) ++
          0x22 :: (b.flatMap escape ++ 0x22 :: (utf8 ",\"devices\":[" ++ rest')) := by
      rw [hsplit, List.flatMap_append, List.flatMap_cons]
      simp only [List.append_assoc]
      rfl
    obtain ⟨-, h⟩ := upTo_unique hm hfront (htail.trans hescaped)
    exact devices_not_escaped h
  · refine ⟨hquote, ?_⟩
    obtain ⟨-, hrest⟩ := upTo_unique hm (quote_not_mem_escaped hquote) htail
    exact List.append_cancel_left hrest

theorem isText_escaped (s : String) : IsText ((utf8 s).flatMap escape) := by
  obtain ⟨cs, rfl⟩ := s.exists_eq_ofList
  induction cs with
  | nil => exact ⟨"", rfl⟩
  | cons c cs ih =>
    have hcons : (utf8 (String.ofList (c :: cs))).flatMap escape =
        (String.utf8EncodeChar c).flatMap escape ++ (utf8 (String.ofList cs)).flatMap escape := by
      rw [utf8_eq, utf8_eq, String.toList_ofList, String.toList_ofList, List.flatMap_cons,
        List.flatMap_append]
    rw [hcons]
    refine isText_append ?_ ih
    by_cases hc : c.toNat < 0x80
    · refine isText_ascii fun b hb => ?_
      have hall : ∀ n : Fin 128,
          (escape (UInt8.ofNat n)).all (fun b => decide (b.toNat < 0x80)) = true := by
        decide
      rw [utf8EncodeChar_ascii hc, List.flatMap_singleton] at hb
      exact of_decide_eq_true (List.all_eq_true.mp (hall ⟨c.toNat, hc⟩) b hb)
    · refine ⟨String.singleton c, ?_⟩
      rw [utf8_eq, String.toList_singleton, List.flatMap_singleton,
        flatMap_escape_high fun b hb => utf8EncodeChar_high (by omega) hb]

/-- The reader gets back exactly the devices whose strings JSON writes as they are and that hold
no closing brace, of a model without a quote. -/
theorem parse_render_iff (model : String) (ds : List DeviceRefinement) :
    parseManifest (renderManifest model ds) = some ds ↔
      0x22 ∉ utf8 model ∧ ∀ d ∈ ds, PlainDevice d := by
  rw [parseManifest_eq_some, renderManifest_eq]
  constructor
  · rintro ⟨comma, m, rest, htext, hm, hdevices⟩
    simp only [headText, List.append_assoc, List.cons_append, List.append_cancel_left_eq,
      List.cons.injEq, true_and] at htext
    obtain ⟨hquote, hrest⟩ := quote_free_of_loose hm htext.symm
    rw [hrest] at hdevices
    exact ⟨hquote, (looseDevices_iff false ds).mp hdevices⟩
  · rintro ⟨hquote, hplain⟩
    obtain ⟨m, hm⟩ := isText_escaped model
    refine ⟨true, m, devicesText false ds, ?_, ?_, (looseDevices_iff false ds).mpr hplain⟩
    · simp only [headText, stringText, escapedText, ← hm, List.append_assoc, List.cons_append,
        List.nil_append]
      rfl
    · rw [← hm]
      exact quote_not_mem_escaped hquote

def Written (text : Bytes) : Prop := ∃ model ds, renderManifest model ds = text

def Loose (text : Bytes) : Prop := ∃ ds, LooseManifest text ds

theorem parseManifest_eq_none {text : Bytes} : parseManifest text = none ↔ ¬ Loose text := by
  constructor
  · rintro hnone ⟨ds, hds⟩
    rw [← parseManifest_eq_some, hnone] at hds
    cases hds
  · intro hloose
    by_contra hsome
    obtain ⟨ds, hds⟩ := Option.ne_none_iff_exists'.mp hsome
    exact hloose ⟨ds, parseManifest_eq_some.mp hds⟩

end Refinements

open Refinements in
/-- A manifest is read back exactly when its model has no quote and the strings of its devices
need no escape and hold no closing brace; of the texts that are not written, those of the looser
shape are accepted and all others are rejected. -/
theorem refinement_manifest_exact (model : String) (decls : List DeviceRefinement)
    (text : Bytes) :
    (parseManifest (renderManifest model decls) = some decls ↔
      0x22 ∉ utf8 model ∧ ∀ d ∈ decls, PlainDevice d) ∧
      ((¬ Written text → parseManifest text = none) ↔ (Written text ∨ ¬ Loose text)) := by
  refine ⟨parse_render_iff model decls, ?_⟩
  rw [parseManifest_eq_none]
  constructor
  · intro h
    by_cases hwritten : Written text
    · exact .inl hwritten
    · exact .inr (h hwritten)
  · rintro (hwritten | hloose) hnot
    · exact absurd hwritten hnot
    · exact hloose

namespace Refinements

def slashDevice : DeviceRefinement := ⟨⟨"A\\B", "band"⟩, 32, 0xF9, "ro"⟩

theorem slash_read_twice :
    ¬ ((∀ model decls, parseManifest (renderManifest model decls) = some decls) ∧
      ∀ text, ¬ Written text → parseManifest text = none) := by
  rintro ⟨hround, -⟩
  have hplain := ((parse_render_iff "m" [slashDevice]).mp (hround "m" [slashDevice])).2
  have hslash := (hplain slashDevice List.mem_cons_self).register 0x5C (by decide)
  exact hslash.2.1 rfl

end Refinements

end Tyu
