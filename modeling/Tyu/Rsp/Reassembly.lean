import Tyu.Rsp.Packet

/-!
# Packets from a stream of reads

The client keeps what it has read in a buffer, drops plus signs at the front, empties the buffer
where a minus sign stands at the front, and reads more until the parser finds a packet.
-/

namespace Tyu.Rsp

open Lib.Wire

/-- What the connection still delivers, read by read, what was written to it, and what was
read but not consumed. -/
structure Client where
  reads : List Bytes
  written : Bytes
  recvBuf : Bytes

/-- Drop the plus signs at the front; a minus sign there empties the buffer. -/
def settle (buf : Bytes) : Bytes :=
  let buf := buf.dropWhile (· == PLUS)
  if buf.head? = some MINUS then [] else buf

/-- The loop of a call: a payload, or nothing where the connection is closed; then the
buffer and the reads that are left. -/
def recvLoop : List Bytes → Bytes → Option Bytes × Bytes × List Bytes
  | [], buf =>
    match parsePacket (settle buf) with
    | some (resp, consumed) => (some resp, (settle buf).drop consumed, [])
    | none => (none, settle buf, [])
  | tmp :: reads, buf =>
    match parsePacket (settle buf) with
    | some (resp, consumed) => (some resp, (settle buf).drop consumed, tmp :: reads)
    | none => if tmp = [] then (none, settle buf, reads) else recvLoop reads (settle buf ++ tmp)

def Client.recvPacket (c : Client) : Option Bytes × Client :=
  match recvLoop c.reads c.recvBuf with
  | (some resp, buf, reads) => (some resp, ⟨reads, c.written ++ [PLUS], buf⟩)
  | (none, buf, reads) => (none, ⟨reads, c.written, buf⟩)

def Client.recvPackets : Nat → Client → List (Option Bytes)
  | 0, _ => []
  | k + 1, c => c.recvPacket.1 :: recvPackets k c.recvPacket.2

inductive Item where
  | ack
  | nak
  | stray (b : UInt8) (plain : b ≠ DOLLAR ∧ b ≠ PLUS ∧ b ≠ MINUS)
  | packet (f : Frame)

namespace Item

def bytes : Item → Bytes
  | ack => [PLUS]
  | nak => [MINUS]
  | stray b _ => [b]
  | packet f => f.bytes

def payload : Item → Option Bytes
  | packet f => if f.good then some f.data else none
  | _ => none

def Clean : Item → Prop
  | ack | nak => True
  | stray _ _ => False
  | packet f => f.good = true

end Item

def stream (items : List Item) : Bytes := items.flatMap Item.bytes

def payloads (items : List Item) : List Bytes := items.filterMap Item.payload

@[simp] theorem stream_nil : stream [] = [] := rfl

@[simp] theorem stream_cons (i : Item) (items : List Item) :
    stream (i :: items) = i.bytes ++ stream items := List.flatMap_cons

@[simp] theorem stream_append (xs ys : List Item) : stream (xs ++ ys) = stream xs ++ stream ys :=
  List.flatMap_append

theorem payloads_append (xs ys : List Item) : payloads (xs ++ ys) = payloads xs ++ payloads ys :=
  List.filterMap_append

theorem payloads_cons_of_none {i : Item} (h : i.payload = none) (items : List Item) :
    payloads (i :: items) = payloads items := List.filterMap_cons_none h

theorem payloads_cons_good {f : Frame} (h : f.good = true) (items : List Item) :
    payloads (.packet f :: items) = f.data :: payloads items := by
  refine List.filterMap_cons_some ?_
  show (if f.good = true then _ else _) = _
  rw [if_pos h]

theorem exists_good {items : List Item} (h : payloads items ≠ []) :
    ∃ mid f post, items = mid ++ .packet f :: post ∧ f.good = true ∧ payloads mid = [] := by
  induction items with
  | nil => exact absurd rfl h
  | cons i items ih =>
    cases hi : i.payload with
    | none =>
      rw [payloads_cons_of_none hi] at h
      obtain ⟨mid, f, post, rfl, hgood, hmid⟩ := ih h
      exact ⟨i :: mid, f, post, rfl, hgood, by rw [payloads_cons_of_none hi, hmid]⟩
    | some d =>
      cases i with
      | ack | nak | stray => cases hi
      | packet f =>
        by_cases hgood : f.good = true
        · exact ⟨[], f, items, rfl, hgood, rfl⟩
        · have hnone : (if f.good = true then some f.data else none) = some d := hi
          rw [if_neg hgood] at hnone
          cases hnone

theorem payloads_ne_nil {items : List Item} {f : Frame} (hm : .packet f ∈ items)
    (hgood : f.good = true) : payloads items ≠ [] := by
  refine List.ne_nil_of_mem (a := f.data) (List.mem_filterMap.mpr ⟨_, hm, ?_⟩)
  exact if_pos hgood

/-! ## Streams without a packet -/

def Barren : Bytes → Prop
  | [] => True
  | b :: s => (∀ p q, p ++ q = b :: s → parsePacket p = none) ∧ Barren s

theorem Barren.parse {p q : Bytes} (h : Barren (p ++ q)) : parsePacket p = none := by
  cases p with
  | nil => rfl
  | cons b p => exact h.1 (b :: p) q rfl

theorem Barren.of_append {p q : Bytes} (h : Barren (p ++ q)) : Barren q := by
  induction p with
  | nil => exact h
  | cons b p ih => exact ih h.2

theorem Barren.append {p s : Bytes} (hp : DOLLAR ∉ p) (h : Barren s) : Barren (p ++ s) := by
  induction p with
  | nil => exact h
  | cons b p ih =>
    have hrest := ih fun hm => hp (List.mem_cons_of_mem b hm)
    refine ⟨?_, hrest⟩
    intro p' q hpq
    cases p' with
    | nil => rfl
    | cons b' p' =>
      obtain ⟨rfl, htail⟩ := List.cons.inj hpq
      have hb : b' ≠ DOLLAR := fun he => hp (he ▸ List.mem_cons_self)
      refine parsePacket_cons hb (Barren.parse (q := q) ?_)
      rw [show p' ++ q = p ++ s from htail]
      exact hrest

theorem barren_stream {items : List Item} (h : payloads items = []) : Barren (stream items) := by
  induction items with
  | nil => trivial
  | cons i items ih =>
    have hi : i.payload = none := by
      cases hi : i.payload with
      | none => rfl
      | some d =>
        have hcons := List.filterMap_cons_some hi (l := items)
        exact absurd (h.symm.trans hcons) (List.cons_ne_nil _ _).symm
    rw [payloads_cons_of_none hi] at h
    rw [stream_cons]
    cases i with
    | ack => exact (ih h).append (by decide)
    | nak => exact (ih h).append (by decide)
    | stray b plain => exact (ih h).append (by simpa [Item.bytes] using fun he => plain.1 he.symm)
    | packet f =>
      have hbad : f.good = false := by
        by_contra hgood
        have hsome : (if f.good = true then some f.data else none) = none := hi
        rw [if_pos (by simpa using hgood)] at hsome
        cases hsome
      refine ⟨?_, (ih h).append f.not_mem_tail⟩
      intro p q hpq
      rw [f.parse_arrived (s := stream items) hpq, if_neg]
      rintro ⟨hgood, -⟩
      rw [hbad] at hgood
      cases hgood

theorem settle_barren {buf s : Bytes} (h : Barren (buf ++ s)) : Barren (settle buf ++ s) := by
  unfold settle
  by_cases hminus : (buf.dropWhile (· == PLUS)).head? = some MINUS
  · simp only [if_pos hminus]
    exact h.of_append
  · simp only [if_neg hminus]
    have hsplit : buf = buf.takeWhile (· == PLUS) ++ buf.dropWhile (· == PLUS) :=
      List.takeWhile_append_dropWhile.symm
    rw [hsplit, List.append_assoc] at h
    exact h.of_append

theorem recvLoop_barren {reads : List Bytes} {buf : Bytes} (h : Barren (buf ++ reads.flatten)) :
    ∃ buf' reads', recvLoop reads buf = (none, buf', reads') ∧ Barren (buf' ++ reads'.flatten) := by
  induction reads generalizing buf with
  | nil =>
    have hsettled := settle_barren h
    unfold recvLoop
    rw [hsettled.parse]
    exact ⟨_, _, rfl, hsettled⟩
  | cons tmp reads ih =>
    have hsettled := settle_barren h
    unfold recvLoop
    rw [hsettled.parse]
    by_cases htmp : tmp = []
    · rw [if_pos htmp]
      rw [htmp] at hsettled
      exact ⟨_, _, rfl, hsettled⟩
    · rw [if_neg htmp]
      refine ih ?_
      rw [List.append_assoc, ← List.flatten_cons]
      exact hsettled

/-! ## Streams with packets -/

/-- `n` bytes of the items are in the buffer.  What precedes a well-formed packet is
acknowledgements and well-formed packets, and the bytes in the buffer or a later read end
between a minus sign and the well-formed packets behind it. -/
structure Undisturbed (items : List Item) (n : Nat) (reads : List Bytes) : Prop where
  clean : ∀ pre i post, items = pre ++ i :: post → payloads post ≠ [] → i.Clean
  cut : ∀ pre mid f post, items = pre ++ .nak :: (mid ++ .packet f :: post) → f.good = true →
    ∃ r r', reads = r ++ r' ∧ (stream pre).length + 1 ≤ n + r.flatten.length ∧
      n + r.flatten.length ≤ (stream pre).length + 1 + (stream mid).length

structure Holds (items : List Item) (buf : Bytes) (reads : List Bytes) : Prop where
  bytes : buf ++ reads.flatten = stream items
  undisturbed : Undisturbed items buf.length reads

namespace Holds

variable {items : List Item} {buf : Bytes} {reads : List Bytes}

theorem drop {l : List Item} (h : Holds (l ++ items) (stream l ++ buf) reads) :
    Holds items buf reads where
  bytes := by
    have hbytes := h.bytes
    rw [stream_append, List.append_assoc] at hbytes
    exact List.append_cancel_left hbytes
  undisturbed :=
    { clean := by
        intro pre i post heq hpost
        exact h.undisturbed.clean (l ++ pre) i post (by rw [heq, List.append_assoc]) hpost
      cut := by
        intro pre mid f post heq hgood
        obtain ⟨r, r', hreads, hlow, hhigh⟩ := h.undisturbed.cut (l ++ pre) mid f post
          (by rw [heq, List.append_assoc]) hgood
        rw [List.length_append, stream_append, List.length_append] at hlow hhigh
        exact ⟨r, r', hreads, by omega, by omega⟩ }

theorem read {tmp : Bytes} (h : Holds items buf (tmp :: reads))
    (hshort : ∀ pre post, items = pre ++ .nak :: post → buf.length ≤ (stream pre).length) :
    Holds items (buf ++ tmp) reads where
  bytes := by
    rw [List.append_assoc, ← List.flatten_cons]
    exact h.bytes
  undisturbed :=
    { clean := h.undisturbed.clean
      cut := by
        intro pre mid f post heq hgood
        obtain ⟨r, r', hreads, hlow, hhigh⟩ := h.undisturbed.cut pre mid f post heq hgood
        have hlate := hshort pre _ heq
        cases r with
        | nil =>
          rw [List.flatten_nil, List.length_nil] at hlow
          omega
        | cons x r =>
          obtain ⟨rfl, hlater⟩ := List.cons.inj hreads
          rw [List.flatten_cons, List.length_append] at hlow hhigh
          rw [List.length_append]
          exact ⟨r, r', hlater, by omega, by omega⟩ }

end Holds

theorem length_stream_of_acks {items : List Item} (hclean : ∀ i ∈ items, i.Clean)
    (hnone : payloads items = []) : (stream items).length = items.length ∧
      ∀ n, stream (items.take n) = (stream items).take n := by
  induction items with
  | nil => exact ⟨rfl, fun n => by simp⟩
  | cons i items ih =>
    have hrest : payloads items = [] ∧ i.bytes.length = 1 := by
      have hi := hclean i List.mem_cons_self
      cases i with
      | ack => exact ⟨hnone, rfl⟩
      | nak => exact ⟨hnone, rfl⟩
      | stray b plain => exact hi.elim
      | packet f =>
        rw [payloads_cons_good hi] at hnone
        cases hnone
    obtain ⟨hlen, htake⟩ := ih (fun j hj => hclean j (List.mem_cons_of_mem i hj)) hrest.1
    constructor
    · rw [stream_cons, List.length_append, hrest.2, hlen, List.length_cons, Nat.add_comm]
    · intro n
      cases n with
      | zero => rfl
      | succ n =>
        rw [List.take_succ_cons, stream_cons, stream_cons, htake, List.take_append,
          List.take_of_length_le (show i.bytes.length ≤ n + 1 by omega), hrest.2,
          Nat.add_sub_cancel]

theorem Holds.settled {items : List Item} {buf : Bytes} {reads : List Bytes}
    (h : Holds items buf reads) (hne : payloads items ≠ []) :
    ∃ items', Holds items' (settle buf) reads ∧ payloads items' = payloads items ∧
      (settle buf = [] ∨ ∃ f rest, items' = .packet f :: rest ∧ f.good = true) := by
  induction items generalizing buf with
  | nil => exact absurd rfl hne
  | cons i items ih =>
    cases buf with
    | nil => exact ⟨_, h, rfl, .inl rfl⟩
    | cons b buf =>
      have hbytes := h.bytes
      rw [List.cons_append, stream_cons] at hbytes
      cases i with
      | ack =>
        obtain ⟨rfl, -⟩ := List.cons.inj hbytes
        have hdrop : Holds items buf reads := h.drop (l := [.ack])
        have hsettled := ih hdrop hne
        exact hsettled
      | nak =>
        obtain ⟨rfl, htail⟩ := List.cons.inj hbytes
        obtain ⟨mid, f, post, rfl, hgood, hmid⟩ := exists_good (show payloads items ≠ [] from hne)
        have hbehind : buf ++ reads.flatten = stream (mid ++ .packet f :: post) := htail
        obtain ⟨r, r', -, hlow, hhigh⟩ := h.undisturbed.cut [] mid f post rfl hgood
        have hacks : ∀ i ∈ mid, i.Clean := by
          intro i hi
          obtain ⟨as, bs, rfl⟩ := List.append_of_mem hi
          refine h.undisturbed.clean (.nak :: as) i (bs ++ .packet f :: post) (by simp) ?_
          exact payloads_ne_nil (by simp) hgood
        obtain ⟨hlen, htake⟩ := length_stream_of_acks hacks hmid
        rw [List.length_cons, stream_nil, List.length_nil, hlen] at hhigh
        -- What the minus sign takes with it is acknowledgements.
        have hdropped : buf = stream (mid.take buf.length) := by
          have hfirst := congrArg (List.take buf.length) hbehind
          rw [List.take_left, stream_append, List.take_append_of_le_length (by omega)] at hfirst
          rw [htake]
          exact hfirst
        refine ⟨mid.drop buf.length ++ .packet f :: post, ?_, ?_, .inl rfl⟩
        · refine Holds.drop (l := .nak :: mid.take buf.length) ?_
          have hempty : settle (MINUS :: buf) = [] := rfl
          rw [stream_cons, ← hdropped, hempty, List.append_nil, List.cons_append,
            ← List.append_assoc, List.take_append_drop]
          exact h
        · have hsplit := payloads_append (mid.take buf.length) (mid.drop buf.length)
          rw [List.take_append_drop, hmid] at hsplit
          rw [payloads_cons_of_none rfl, payloads_append, payloads_append, hmid,
            (List.append_eq_nil_iff.mp hsplit.symm).2]
      | stray c plain => exact (h.undisturbed.clean [] _ items rfl hne).elim
      | packet f =>
        obtain ⟨rfl, -⟩ := List.cons.inj hbytes
        have hgood : f.good = true := by
          by_cases hrest : payloads items = []
          · by_contra hbad
            refine hne ?_
            have hnone : (Item.packet f).payload = none := if_neg hbad
            rw [payloads_cons_of_none hnone]
            exact hrest
          · exact h.undisturbed.clean [] _ items rfl hrest
        exact ⟨_, h, rfl, .inr ⟨f, items, rfl, hgood⟩⟩

theorem Holds.look {items : List Item} {buf : Bytes} {reads : List Bytes} {d : Bytes}
    {ds : List Bytes} (h : Holds items buf reads) (hd : payloads items = d :: ds) :
    (∃ n items', parsePacket (settle buf) = some (d, n) ∧
      Holds items' ((settle buf).drop n) reads ∧ payloads items' = ds) ∨
    (parsePacket (settle buf) = none ∧ ∃ items', Holds items' (settle buf) reads ∧
      payloads items' = d :: ds ∧ (settle buf).length < (stream items').length ∧
      ∀ pre post, items' = pre ++ .nak :: post → (settle buf).length ≤ (stream pre).length) := by
  obtain ⟨items', hsettled, hsame, hfront⟩ := h.settled (by rw [hd]; exact List.cons_ne_nil d ds)
  rw [hd] at hsame
  rcases hfront with hempty | ⟨f, rest, rfl, hgood⟩
  · right
    rw [hempty] at hsettled ⊢
    refine ⟨rfl, items', hsettled, hsame, ?_, fun _ _ _ => Nat.zero_le _⟩
    obtain ⟨mid, f, post, rfl, -, -⟩ :=
      exists_good (by rw [hsame]; exact List.cons_ne_nil d ds)
    rw [stream_append, stream_cons, List.length_append, List.length_append]
    have hlen : (Item.packet f).bytes.length = f.data.length + 4 := f.length_bytes
    rw [List.length_nil]
    omega
  · have hbytes : settle buf ++ reads.flatten = f.bytes ++ stream rest := hsettled.bytes
    have hparse := f.parse_arrived hbytes
    by_cases hlen : f.bytes.length ≤ (settle buf).length
    · left
      rw [if_pos ⟨hgood, hlen⟩] at hparse
      rw [payloads_cons_good hgood] at hsame
      obtain ⟨rfl, hrest⟩ := List.cons.inj hsame
      refine ⟨_, rest, hparse, ?_, hrest⟩
      have hsplit : settle buf = f.bytes ++ (settle buf).drop f.bytes.length := by
        have htake := congrArg (List.take f.bytes.length) hbytes
        rw [List.take_left, List.take_append_of_le_length hlen] at htake
        have hwhole := (List.take_append_drop f.bytes.length (settle buf)).symm
        rw [htake] at hwhole
        exact hwhole
      refine Holds.drop (l := [.packet f]) ?_
      show Holds (.packet f :: rest) (f.bytes ++ [] ++ (settle buf).drop f.bytes.length) reads
      rw [List.append_nil, ← hsplit]
      exact hsettled
    · right
      rw [if_neg fun hc => hlen hc.2] at hparse
      refine ⟨hparse, _, hsettled, hsame, ?_, ?_⟩
      · rw [stream_cons, List.length_append]
        show (settle buf).length < f.bytes.length + _
        omega
      · intro pre post heq
        cases pre with
        | nil => cases heq
        | cons i pre =>
          obtain ⟨rfl, -⟩ := List.cons.inj heq
          rw [stream_cons, List.length_append]
          show (settle buf).length ≤ f.bytes.length + _
          omega

theorem recvLoop_next {items : List Item} {buf : Bytes} {reads : List Bytes} {d : Bytes}
    {ds : List Bytes} (h : Holds items buf reads) (hreads : ∀ r ∈ reads, r ≠ [])
    (hd : payloads items = d :: ds) :
    ∃ items' buf' reads', recvLoop reads buf = (some d, buf', reads') ∧
      Holds items' buf' reads' ∧ (∀ r ∈ reads', r ≠ []) ∧ payloads items' = ds := by
  induction reads generalizing items buf with
  | nil =>
    rcases h.look hd with ⟨n, items', hparse, hholds, hds⟩ | ⟨-, items', hholds, -, hshort, -⟩
    · unfold recvLoop
      rw [hparse]
      exact ⟨items', _, _, rfl, hholds, hreads, hds⟩
    · have hbytes := hholds.bytes
      rw [List.flatten_nil, List.append_nil] at hbytes
      rw [← hbytes] at hshort
      exact absurd hshort (Nat.lt_irrefl _)
  | cons tmp reads ih =>
    rcases h.look hd with ⟨n, items', hparse, hholds, hds⟩ | ⟨hparse, items', hholds, hd', -, hshort⟩
    · unfold recvLoop
      rw [hparse]
      exact ⟨items', _, _, rfl, hholds, hreads, hds⟩
    · unfold recvLoop
      rw [hparse]
      simp only
      rw [if_neg (hreads tmp List.mem_cons_self)]
      exact ih (hholds.read hshort) (fun r hr => hreads r (List.mem_cons_of_mem tmp hr)) hd'

/-! ## Runs -/

structure Cut (reads : List Bytes) (s : Bytes) : Prop where
  bytes : reads.flatten = s
  nonempty : ∀ r ∈ reads, r ≠ []

theorem recvPackets_barren {c : Client} (h : Barren (c.recvBuf ++ c.reads.flatten)) (k : Nat) :
    c.recvPackets k = List.replicate k none := by
  induction k generalizing c with
  | zero => rfl
  | succ k ih =>
    obtain ⟨buf, reads, hloop, hrest⟩ := recvLoop_barren h
    have hcall : c.recvPacket = (none, ⟨reads, c.written, buf⟩) := by
      unfold Client.recvPacket
      rw [hloop]
    rw [Client.recvPackets, hcall, List.replicate_succ]
    congr 1
    exact ih hrest

def expected (items : List Item) (k : Nat) : List (Option Bytes) :=
  ((payloads items).map some).take k ++ List.replicate (k - (payloads items).length) none

theorem recvPackets_holds {items : List Item} {c : Client}
    (h : Holds items c.recvBuf c.reads) (hreads : ∀ r ∈ c.reads, r ≠ []) (k : Nat) :
    c.recvPackets k = expected items k := by
  unfold expected
  induction k generalizing items c with
  | zero => simp [Client.recvPackets]
  | succ k ih =>
    cases hd : payloads items with
    | nil =>
      have hbarren := barren_stream hd
      rw [← h.bytes] at hbarren
      rw [recvPackets_barren hbarren]
      rfl
    | cons d ds =>
      obtain ⟨items', buf, reads, hloop, hholds, hreads', hds⟩ := recvLoop_next h hreads hd
      have hcall : c.recvPacket = (some d, ⟨reads, c.written ++ [PLUS], buf⟩) := by
        unfold Client.recvPacket
        rw [hloop]
      rw [Client.recvPackets, hcall, List.map_cons, List.take_succ_cons, List.length_cons,
        Nat.add_sub_add_right, ← hds, List.cons_append]
      congr 1
      exact ih hholds hreads'

/-- However an undisturbed stream is cut into reads, the calls return its payloads in order. -/
theorem packets_reassembled {items : List Item} {reads : List Bytes}
    (hcut : Cut reads (stream items)) (h : Undisturbed items 0 reads) (k : Nat) :
    Client.recvPackets k ⟨reads, [], []⟩ = expected items k :=
  recvPackets_holds (c := ⟨reads, [], []⟩) ⟨hcut.bytes, h⟩ hcut.nonempty k

/-- The reply `OK`. -/
def okFrame : Frame := encodedFrame [0x4F, 0x4B] (by decide)

/-- A minus sign in a read of its own, and the reply in two. -/
theorem reply_reassembled :
    Client.recvPackets 2 ⟨[[0x2D], [0x24, 0x4F], [0x4B, 0x23, 0x39, 0x61]], [], []⟩ =
      expected [.nak, .packet okFrame] 2 := by
  refine packets_reassembled ⟨by decide, by decide⟩ ⟨?_, ?_⟩ 2
  · intro pre i post heq _
    have hi : i ∈ [Item.nak, .packet okFrame] := heq ▸ List.mem_append_right pre List.mem_cons_self
    rcases List.mem_cons.mp hi with rfl | hi
    · trivial
    · rw [List.mem_singleton.mp hi]
      exact (by decide : okFrame.good = true)
  · intro pre mid f post heq _
    have hpre : pre = [] := by
      cases pre with
      | nil => rfl
      | cons i pre =>
        have hrest := (List.cons.inj heq).2
        cases pre with
        | nil => cases (List.cons.inj hrest).1
        | cons j pre => cases pre <;> cases (List.cons.inj hrest).2
    subst hpre
    exact ⟨[[0x2D]], _, rfl, by simp, by simp⟩

/-- The six bytes of `hello ` and the reply. -/
def greeted : List Item :=
  [.stray 0x68 (by decide), .stray 0x65 (by decide), .stray 0x6C (by decide),
    .stray 0x6C (by decide), .stray 0x6F (by decide), .stray 0x20 (by decide), .packet okFrame]

def wrongFrame : Frame where
  data := [0x4F, 0x4B]
  hi := 0x39
  lo := 0x62
  plain := by decide
  digits := by decide

/-- Behind six stray bytes the reply comes twice; in one read with a minus sign before it, or
behind a reply with a wrong checksum, it does not come. -/
theorem reply_lost :
    (¬∀ (items : List Item) (reads : List Bytes), Cut reads (stream items) →
      ∀ k, Client.recvPackets k ⟨reads, [], []⟩ = expected items k) ∧
    Client.recvPackets 1 ⟨[stream [.nak, .packet okFrame]], [], []⟩ = [none] ∧
    Client.recvPackets 1 ⟨[stream [.packet wrongFrame, .packet okFrame]], [], []⟩ = [none] := by
  refine ⟨?_, by decide, by decide⟩
  intro hclaim
  have hcut : Cut [stream greeted] (stream greeted) := ⟨by simp, by decide⟩
  exact absurd (hclaim greeted [stream greeted] hcut 2) (by decide)

/-! ## Encoded packets -/

theorem encodedFrame_good (data : Bytes) (plain : DOLLAR ∉ data ∧ HASH ∉ data) :
    (encodedFrame data plain).good = true := by
  have hall : ∀ n : Fin 256, agrees (hexNibble (UInt8.ofNat n >>> 4))
      (hexNibble (UInt8.ofNat n &&& 0xF)) [UInt8.ofNat n] = true := by decide +kernel
  have hsum := hall ⟨(rspChecksum data).toNat, (rspChecksum data).toNat_lt⟩
  have hone : rspChecksum [UInt8.ofNat (rspChecksum data).toNat] = rspChecksum data := by
    simp [rspChecksum]
  unfold agrees at hsum
  rw [hone] at hsum
  simpa [Frame.good, encodedFrame, agrees] using hsum

abbrev Payload := { d : Bytes // DOLLAR ∉ d ∧ HASH ∉ d }

def sentItems (l : List (ℕ × Payload)) : List Item :=
  l.flatMap fun p => List.replicate p.1 .ack ++ [.packet (encodedFrame p.2.1 p.2.2)]

end Tyu.Rsp
