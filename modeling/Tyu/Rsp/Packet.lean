import Mathlib.Data.List.Basic
import Tyu.Lib.Wire

/-! # Packets of the debugger's serial protocol -/

namespace Tyu.Rsp

open Lib.Wire

def DOLLAR : UInt8 := 0x24

def HASH : UInt8 := 0x23

def PLUS : UInt8 := 0x2B

def MINUS : UInt8 := 0x2D

def rspChecksum (data : Bytes) : UInt8 := data.foldl (fun sum b => sum + b) 0

def hexNibble (v : UInt8) : UInt8 := if v < 10 then 0x30 + v else 0x61 + v - 10

def hexVal (b : UInt8) : Option UInt8 :=
  if 0x30 ≤ b ∧ b ≤ 0x39 then some (b - 0x30)
  else if 0x61 ≤ b ∧ b ≤ 0x66 then some (b - 0x61 + 10)
  else if 0x41 ≤ b ∧ b ≤ 0x46 then some (b - 0x41 + 10)
  else none

def encodePacket (data : Bytes) : Bytes :=
  let csum := rspChecksum data
  DOLLAR :: (data ++ [HASH, hexNibble (csum >>> 4), hexNibble (csum &&& 0xF)])

/-! ## Parsing -/

/-- The payload of the first packet and how far it goes from its dollar sign on. -/
def parsePacket (buf : Bytes) : Option (Bytes × Nat) := do
  let start ← buf.findIdx? (· == DOLLAR)
  let stop ← (buf.drop start).findIdx? (· == HASH)
  let csumStart := start + stop + 1
  if buf.length < csumStart + 2 then none
  else
    let data := (buf.take (start + stop)).drop (start + 1)
    let csumHi ← buf[csumStart]?.bind hexVal
    let csumLo ← buf[csumStart + 1]?.bind hexVal
    if csumHi <<< 4 ||| csumLo ≠ rspChecksum data then none
    else some (data, csumStart + 2 - start)

def agrees (hi lo : UInt8) (data : Bytes) : Bool :=
  match hexVal hi, hexVal lo with
  | some h, some l => h <<< 4 ||| l == rspChecksum data
  | _, _ => false

def closing (data : Bytes) : Bytes → Option (Bytes × Nat)
  | hi :: lo :: _ => if agrees hi lo data then some (data, data.length + 4) else none
  | _ => none

theorem findIdx?_behind {c : UInt8} {skip : Bytes} (h : c ∉ skip) (rest : Bytes) :
    (skip ++ c :: rest).findIdx? (· == c) = some skip.length := by
  have hnone : skip.findIdx? (· == c) = none := by
    rw [List.findIdx?_eq_none_iff]
    intro x hx
    rw [beq_eq_false_iff_ne]
    rintro rfl
    exact h hx
  rw [List.findIdx?_append, hnone, List.findIdx?_cons, beq_self_eq_true, if_pos rfl]
  simp

theorem first_split {c : UInt8} {xs xs' ys ys' : Bytes} (hx : c ∉ xs) (hx' : c ∉ xs')
    (h : xs ++ c :: ys = xs' ++ c :: ys') : xs = xs' ∧ ys = ys' := by
  have hlen : some xs.length = some xs'.length := by
    rw [← findIdx?_behind hx ys, h, findIdx?_behind hx' ys']
  obtain ⟨rfl, htail⟩ := List.append_inj h (Option.some.inj hlen)
  exact ⟨rfl, (List.cons.inj htail).2⟩

theorem parsePacket_no_dollar {buf : Bytes} (h : DOLLAR ∉ buf) : parsePacket buf = none := by
  have hnone : buf.findIdx? (· == DOLLAR) = none := by
    rw [List.findIdx?_eq_none_iff]
    intro x hx
    rw [beq_eq_false_iff_ne]
    rintro rfl
    exact h hx
  unfold parsePacket
  rw [hnone]
  rfl

theorem parsePacket_open {skip data : Bytes} (hskip : DOLLAR ∉ skip) (hdata : HASH ∉ data) :
    parsePacket (skip ++ DOLLAR :: data) = none := by
  have hnone : (DOLLAR :: data).findIdx? (· == HASH) = none := by
    rw [List.findIdx?_eq_none_iff]
    intro x hx
    rw [beq_eq_false_iff_ne]
    rintro rfl
    rcases List.mem_cons.mp hx with hx | hx
    · exact absurd hx (by decide)
    · exact hdata hx
  unfold parsePacket
  rw [findIdx?_behind hskip]
  show ((skip ++ DOLLAR :: data).drop skip.length).findIdx? (· == HASH) >>= _ = none
  rw [List.drop_left, hnone]
  rfl

theorem parsePacket_closed {skip data : Bytes} (hskip : DOLLAR ∉ skip) (hdata : HASH ∉ data)
    (tail : Bytes) :
    parsePacket (skip ++ DOLLAR :: (data ++ HASH :: tail)) = closing data tail := by
  have hhash : (DOLLAR :: (data ++ HASH :: tail)).findIdx? (· == HASH) = some (data.length + 1) := by
    have hm : HASH ∉ DOLLAR :: data := by
      intro hm
      rcases List.mem_cons.mp hm with hm | hm
      · exact absurd hm (by decide)
      · exact hdata hm
    exact findIdx?_behind hm tail
  have hbuf : skip ++ DOLLAR :: (data ++ HASH :: tail) =
      (skip ++ DOLLAR :: (data ++ [HASH])) ++ tail := by simp
  have hlen : (skip ++ DOLLAR :: (data ++ [HASH])).length =
      skip.length + (data.length + 1) + 1 := by simp; omega
  have hpayload : ((skip ++ DOLLAR :: (data ++ HASH :: tail)).take
      (skip.length + (data.length + 1))).drop (skip.length + 1) = data := by
    have hfront : skip ++ DOLLAR :: (data ++ HASH :: tail) =
        (skip ++ DOLLAR :: data) ++ HASH :: tail := by simp
    have htake : ((skip ++ DOLLAR :: data) ++ HASH :: tail).take
        (skip.length + (data.length + 1)) = skip ++ DOLLAR :: data := List.take_left' (by simp)
    have hdrop : ((skip ++ [DOLLAR]) ++ data).drop (skip.length + 1) = data :=
      List.drop_left' (by simp)
    rw [hfront, htake, show skip ++ DOLLAR :: data = (skip ++ [DOLLAR]) ++ data by simp, hdrop]
  have hget : ∀ i, (skip ++ DOLLAR :: (data ++ HASH :: tail))[skip.length + (data.length + 1) + 1
      + i]? = tail[i]? := by
    intro i
    rw [hbuf, List.getElem?_append_right (by omega), hlen]
    congr 1
    omega
  unfold parsePacket
  rw [findIdx?_behind hskip]
  show ((skip ++ DOLLAR :: (data ++ HASH :: tail)).drop skip.length).findIdx? (· == HASH) >>= _ = _
  rw [List.drop_left, hhash]
  show (if (skip ++ DOLLAR :: (data ++ HASH :: tail)).length <
      skip.length + (data.length + 1) + 1 + 2 then none else _) = _
  have hzero := hget 0
  have hone := hget 1
  rw [Nat.add_zero] at hzero
  rw [hpayload, hzero, hone]
  have htotal : (skip ++ DOLLAR :: (data ++ HASH :: tail)).length =
      skip.length + (data.length + 1) + 1 + tail.length := by simp; omega
  rw [htotal]
  match tail with
  | [] => exact if_pos (by simp)
  | [_] => exact if_pos (by simp)
  | hi :: lo :: rest =>
    rw [if_neg (by simp)]
    show ((some hi).bind hexVal >>= fun h => (some lo).bind hexVal >>= fun l =>
      if h <<< 4 ||| l ≠ rspChecksum data then none
      else some (data, skip.length + (data.length + 1) + 1 + 2 - skip.length)) =
        if agrees hi lo data then some (data, data.length + 4) else none
    unfold agrees
    rw [Option.bind_some, Option.bind_some]
    cases hexVal hi with
    | none => rfl
    | some h =>
      cases hexVal lo with
      | none => rfl
      | some l =>
        have hcount : skip.length + (data.length + 1) + 1 + 2 - skip.length = data.length + 4 := by
          omega
        show (if h <<< 4 ||| l ≠ rspChecksum data then none else _) = _
        rw [hcount]
        by_cases hsum : h <<< 4 ||| l = rspChecksum data
        · rw [if_neg (not_not_intro hsum), if_pos (beq_iff_eq.mpr hsum)]
        · rw [if_pos hsum, if_neg (mt beq_iff_eq.mp hsum)]

theorem parsePacket_cons {b : UInt8} (hb : b ≠ DOLLAR) {buf : Bytes} (h : parsePacket buf = none) :
    parsePacket (b :: buf) = none := by
  by_cases hdollar : DOLLAR ∈ buf
  · obtain ⟨skip, rest, rfl, hskip⟩ := List.eq_append_cons_of_mem hdollar
    have hskip' : DOLLAR ∉ b :: skip := by
      rw [List.mem_cons]
      rintro (he | hm)
      · exact hb he.symm
      · exact hskip hm
    rw [← List.cons_append]
    by_cases hhash : HASH ∈ rest
    · obtain ⟨data, tail, rfl, hdata⟩ := List.eq_append_cons_of_mem hhash
      rw [parsePacket_closed hskip hdata] at h
      rw [parsePacket_closed hskip' hdata, h]
    · exact parsePacket_open hskip' hhash
  · refine parsePacket_no_dollar ?_
    rw [List.mem_cons]
    rintro (he | hm)
    · exact hb he.symm
    · exact hdollar hm

/-! ## Frames -/

/-- A packet as it is sent: the payload has no dollar and no hash sign, and the checksum is
two hex digits, the right ones or not. -/
structure Frame where
  data : Bytes
  hi : UInt8
  lo : UInt8
  plain : DOLLAR ∉ data ∧ HASH ∉ data
  digits : (hexVal hi).isSome = true ∧ (hexVal lo).isSome = true

namespace Frame

def bytes (f : Frame) : Bytes := DOLLAR :: (f.data ++ [HASH, f.hi, f.lo])

def good (f : Frame) : Bool := agrees f.hi f.lo f.data

theorem length_bytes (f : Frame) : f.bytes.length = f.data.length + 4 := by
  unfold bytes
  simp

theorem not_mem_tail (f : Frame) : DOLLAR ∉ f.data ++ [HASH, f.hi, f.lo] := by
  have hdigit : ∀ b, (hexVal b).isSome = true → DOLLAR ≠ b := by
    rintro b hb rfl
    exact absurd hb (by decide)
  intro hm
  rcases List.mem_append.mp hm with hm | hm
  · exact f.plain.1 hm
  · rcases List.mem_cons.mp hm with he | hm
    · exact absurd he (by decide)
    rcases List.mem_cons.mp hm with he | hm
    · exact hdigit _ f.digits.1 he
    · exact hdigit _ f.digits.2 (List.mem_singleton.mp hm)

/-- The parser on what has arrived of a packet and the bytes behind it: the packet once it is
complete, if its checksum is right. -/
theorem parse_arrived (f : Frame) {p q s : Bytes} (h : p ++ q = f.bytes ++ s) :
    parsePacket p = if f.good = true ∧ f.bytes.length ≤ p.length then
      some (f.data, f.bytes.length) else none := by
  have hlen := f.length_bytes
  cases p with
  | nil =>
    rw [if_neg]
    · rfl
    · rintro ⟨-, hle⟩
      rw [hlen, List.length_nil] at hle
      omega
  | cons b p =>
    have h' : b :: (p ++ q) = DOLLAR :: (f.data ++ HASH :: (f.hi :: f.lo :: s)) := by
      rw [← List.cons_append, h]
      unfold bytes
      simp
    obtain ⟨rfl, htail⟩ := List.cons.inj h'
    by_cases hhash : HASH ∈ p
    · obtain ⟨data, rest, rfl, hdata⟩ := List.eq_append_cons_of_mem hhash
      rw [List.append_assoc, List.cons_append] at htail
      obtain ⟨rfl, hrest⟩ := first_split hdata f.plain.2 htail
      have hclosed : parsePacket ([] ++ DOLLAR :: (f.data ++ HASH :: rest)) = closing f.data rest :=
        parsePacket_closed List.not_mem_nil hdata rest
      rw [List.nil_append] at hclosed
      rw [hclosed]
      have hshort : ∀ xs : Bytes, xs.length ≤ 1 →
          ¬ (f.good = true ∧ f.bytes.length ≤ (DOLLAR :: (f.data ++ HASH :: xs)).length) := by
        rintro xs hxs ⟨-, hle⟩
        rw [hlen, List.length_cons, List.length_append, List.length_cons] at hle
        omega
      cases rest with
      | nil => rw [if_neg (hshort [] (Nat.zero_le _))]; rfl
      | cons hi rest =>
        cases rest with
        | nil => rw [if_neg (hshort [hi] (Nat.le_refl _))]; rfl
        | cons lo rest =>
          obtain ⟨rfl, hlast⟩ := List.cons.inj hrest
          obtain ⟨rfl, -⟩ := List.cons.inj hlast
          have hle : f.bytes.length ≤ (DOLLAR :: (f.data ++ HASH :: f.hi :: f.lo :: rest)).length := by
            rw [hlen, List.length_cons, List.length_append, List.length_cons, List.length_cons,
              List.length_cons]
            omega
          show (if f.good = true then some (f.data, f.data.length + 4) else none) = _
          by_cases hgood : f.good = true
          · rw [if_pos hgood, if_pos ⟨hgood, hle⟩, hlen]
          · rw [if_neg hgood, if_neg fun hc => hgood hc.1]
    · have hopen : parsePacket ([] ++ DOLLAR :: p) = none :=
        parsePacket_open List.not_mem_nil hhash
      rw [List.nil_append] at hopen
      rw [hopen, if_neg]
      rintro ⟨-, hle⟩
      have hshort : p.length ≤ f.data.length := by
        by_contra hlong
        have hlong' : p = f.data ++ HASH :: (f.hi :: f.lo :: s).take (p.length - f.data.length - 1) := by
          have htake := congrArg (List.take p.length) htail
          rw [List.take_left, List.take_append, List.take_of_length_le (by omega)] at htake
          have hpos : p.length - f.data.length = (p.length - f.data.length - 1) + 1 := by omega
          rw [hpos, List.take_succ_cons] at htake
          exact htake
        rw [hlong'] at hhash
        exact hhash (by simp)
      rw [hlen, List.length_cons] at hle
      omega

end Frame

def encodedFrame (data : Bytes) (plain : DOLLAR ∉ data ∧ HASH ∉ data) : Frame where
  data := data
  hi := hexNibble (rspChecksum data >>> 4)
  lo := hexNibble (rspChecksum data &&& 0xF)
  plain := plain
  digits := by
    have hall : ∀ n : Fin 256, (hexVal (hexNibble (UInt8.ofNat n >>> 4))).isSome = true ∧
        (hexVal (hexNibble (UInt8.ofNat n &&& 0xF))).isSome = true := by decide +kernel
    have hsum := hall ⟨(rspChecksum data).toNat, (rspChecksum data).toNat_lt⟩
    rwa [UInt8.ofNat_toNat] at hsum

end Tyu.Rsp
