import Mathlib.Data.List.Basic
import Mathlib.Tactic.Common

/-! # The lexer -/

namespace Tyu.Frontend

abbrev Bytes := List UInt8

inductive TokenKind where
  | eof
  | ident | number | string | kwPerforms
  | kwModule | kwImport | kwExport | kwEnd
  | kwType | kwSubtype | kwStruct | kwEnum | kwConst | kwResource | kwRegisterMap | kwOwned | kwIso
  | kwRequires | kwEnsures | kwNeeds | kwBoard
  | colon | semi | lParen | rParen | lBracket | rBracket | lBrace | rBrace | comma | dot
  | eq | ge | le | eqEq | ne
  | arrow | arrowBind | dblDot | dashDash | lessPipe | pipeGreater | pipe | apostrophe
  | amp | ampBang | ampLBracket | slash | ampBangLBracket
deriving DecidableEq

structure Token where
  kind : TokenKind
  text : Bytes
deriving DecidableEq

def Token.eof : Token := ⟨.eof, []⟩

def ascii (s : String) : Bytes := s.toList.map fun c => UInt8.ofNat c.toNat

def isSpace (b : UInt8) : Bool := b == 0x20 || b == 0x0A || b == 0x0D || b == 0x09

def isDigit (b : UInt8) : Bool := 0x30 ≤ b && b ≤ 0x39

def isAlphabetic (b : UInt8) : Bool := (0x41 ≤ b && b ≤ 0x5A) || (0x61 ≤ b && b ≤ 0x7A)

/-- Letters, `_`, `@` and `!`. -/
def isIdentStart (b : UInt8) : Bool := isAlphabetic b || b == 0x5F || b == 0x40 || b == 0x21

/-- Also digits, `-` and `?`. -/
def isIdentContinue (b : UInt8) : Bool := isIdentStart b || isDigit b || b == 0x2D || b == 0x3F

/-- Digits, the letters of a hexadecimal number or its prefix, and `_`. -/
def isNumberContinue (b : UInt8) : Bool :=
  isDigit b || b == 0x78 || b == 0x58 || (0x61 ≤ b && b ≤ 0x66) || (0x41 ≤ b && b ≤ 0x46) ||
    b == 0x5F

def skipWsAndComments : Bool → Bytes → Bytes
  | _, [] => []
  | false, b :: bs =>
    if isSpace b then skipWsAndComments false bs
    else if b == 0x23 then skipWsAndComments true bs
    else b :: bs
  | true, b :: bs => skipWsAndComments (b != 0x0A) bs

def keyword (text : Bytes) : TokenKind :=
  if text = ascii "module" then .kwModule
  else if text = ascii "import" then .kwImport
  else if text = ascii "export" then .kwExport
  else if text = ascii "end" then .kwEnd
  else if text = ascii "type" then .kwType
  else if text = ascii "subtype" then .kwSubtype
  else if text = ascii "struct" then .kwStruct
  else if text = ascii "enum" then .kwEnum
  else if text = ascii "const" then .kwConst
  else if text = ascii "resource" then .kwResource
  else if text = ascii "register-map" then .kwRegisterMap
  else if text = ascii "owned" then .kwOwned
  else if text = ascii "iso" then .kwIso
  else if text = ascii "requires" then .kwRequires
  else if text = ascii "ensures" then .kwEnsures
  else if text = ascii "needs" then .kwNeeds
  else if text = ascii "performs" then .kwPerforms
  else if text = ascii "board" then .kwBoard
  else .ident

/-- How many bytes of a string stand behind its first quote; the last quote may be missing. -/
def stringLength : Bytes → Nat
  | [] => 0
  | 0x5C :: _ :: bs => 2 + stringLength bs
  | 0x5C :: [] => 1
  | b :: bs => if b == 0x22 then 1 else 1 + stringLength bs

def lexIdent (first : UInt8) (rest : Bytes) : Token :=
  let text := first :: rest.takeWhile isIdentContinue
  ⟨keyword text, text⟩

def lexNumber (first : UInt8) (rest : Bytes) : Token :=
  ⟨.number, first :: rest.takeWhile isNumberContinue⟩

def lexToken (first : UInt8) (rest : Bytes) : Token :=
  let one (kind : TokenKind) : Token := ⟨kind, [first]⟩
  let two (kind : TokenKind) : Token := ⟨kind, first :: rest.take 1⟩
  match first with
  | 0x3A => one .colon
  | 0x3B => one .semi
  | 0x28 => one .lParen
  | 0x29 => one .rParen
  | 0x5B => one .lBracket
  | 0x5D => one .rBracket
  | 0x7B => one .lBrace
  | 0x7D => one .rBrace
  | 0x2C => one .comma
  | 0x2E => if rest.head? = some 0x2E then two .dblDot else one .dot
  | 0x3D =>
    if rest.head? = some 0x3E then two .arrowBind
    else if rest.head? = some 0x3D then two .eqEq
    else one .eq
  | 0x2D =>
    if rest.head? = some 0x2D then two .dashDash
    else if rest.head? = some 0x3E then two .arrow
    else if rest.head?.any isDigit then lexNumber first rest
    else lexIdent first rest
  | 0x3C =>
    if rest.head? = some 0x7C then two .lessPipe
    else if rest.head? = some 0x3D then two .le
    else lexIdent first rest
  | 0x7C => if rest.head? = some 0x3E then two .pipeGreater else one .pipe
  | 0x27 => one .apostrophe
  | 0x2F => one .slash
  | 0x3E => if rest.head? = some 0x3D then two .ge else lexIdent first rest
  | 0x26 =>
    if rest.head? = some 0x21 then
      if rest.tail.head? = some 0x5B then ⟨.ampBangLBracket, first :: rest.take 2⟩
      else two .ampBang
    else if rest.head? = some 0x5B then two .ampLBracket
    else one .amp
  | 0x21 => if rest.head? = some 0x3D then two .ne else lexIdent first rest
  | 0x22 => ⟨.string, first :: rest.take (stringLength rest)⟩
  | _ =>
    if isIdentStart first then lexIdent first rest
    else if isDigit first then lexNumber first rest
    -- other bytes are tokens like identifiers, one byte each
    else one .ident

structure Placed where
  token : Token
  start : Nat
deriving DecidableEq

def Placed.stop (p : Placed) : Nat := p.start + p.token.text.length

/-- The tokens of the text from an offset on.  Each takes a byte at least, so that there is fuel
enough in the number of bytes. -/
def lexFrom (src : Bytes) : Nat → Nat → List Placed
  | 0, _ => []
  | fuel + 1, offset =>
    let rest := skipWsAndComments false (src.drop offset)
    match rest with
    | [] => []
    | first :: more =>
      let placed : Placed := ⟨lexToken first more, src.length - rest.length⟩
      placed :: lexFrom src fuel placed.stop

def lex (src : Bytes) : List Placed := lexFrom src src.length 0

/-- The tokens without their places: what is left of a text when its layout is taken away. -/
def tokens (src : Bytes) : List Token := (lex src).map Placed.token

def slice (src : Bytes) (start stop : Nat) : Bytes := (src.take stop).drop start

theorem skip_suffix (inComment : Bool) (bs : Bytes) :
    skipWsAndComments inComment bs <:+ bs := by
  induction bs generalizing inComment with
  | nil =>
    cases inComment <;> exact List.suffix_refl []
  | cons b bs ih =>
    cases inComment with
    | true => exact (ih (b != 0x0A)).trans (List.suffix_cons b bs)
    | false =>
      rw [skipWsAndComments]
      split
      · exact (ih false).trans (List.suffix_cons b bs)
      · split
        · exact (ih true).trans (List.suffix_cons b bs)
        · exact List.suffix_refl _

theorem lexToken_front (first : UInt8) (rest : Bytes) :
    (lexToken first rest).text <+: first :: rest ∧ (lexToken first rest).text ≠ [] := by
  have hcons : ∀ l : Bytes, l <+: rest → first :: l <+: first :: rest ∧ first :: l ≠ [] :=
    fun l h => ⟨List.cons_prefix_cons.mpr ⟨rfl, h⟩, List.cons_ne_nil _ _⟩
  have hone := hcons [] (List.nil_prefix)
  have htake : ∀ n, first :: rest.take n <+: first :: rest ∧ first :: rest.take n ≠ [] :=
    fun n => hcons _ (List.take_prefix n rest)
  have hident := hcons _ (List.takeWhile_prefix (l := rest) isIdentContinue)
  have hnumber := hcons _ (List.takeWhile_prefix (l := rest) isNumberContinue)
  unfold lexToken
  split
  all_goals repeat' split
  all_goals first
    | exact hone
    | exact htake _
    | exact hident
    | exact hnumber

theorem slice_placed {src : Bytes} {fuel offset : Nat} {p : Placed}
    (h : p ∈ lexFrom src fuel offset) : slice src p.start p.stop = p.token.text := by
  induction fuel generalizing offset with
  | zero => cases h
  | succ fuel ih =>
    rw [lexFrom] at h
    have hsuffix := (skip_suffix false (src.drop offset)).trans (List.drop_suffix offset src)
    revert h hsuffix
    cases hrest : skipWsAndComments false (src.drop offset) with
    | nil => exact fun h => absurd h List.not_mem_nil
    | cons first more =>
      intro h hsuffix
      rcases List.mem_cons.mp h with h | h
      · subst h
        obtain ⟨front, hfront⟩ := hsuffix
        have hlen : src.length - (first :: more).length = front.length := by
          rw [← hfront, List.length_append]
          omega
        show slice src (src.length - (first :: more).length)
          (src.length - (first :: more).length + (lexToken first more).text.length) = _
        rw [hlen, slice, ← hfront, List.take_length_add_append, List.drop_left]
        exact List.prefix_iff_eq_take.mp (lexToken_front first more).1 |>.symm
      · exact ih h

theorem slice_lex {src : Bytes} {p : Placed} (h : p ∈ lex src) :
    slice src p.start p.stop = p.token.text := slice_placed h

end Tyu.Frontend
