import LegacyV4v.RingRead

/-! # Reading a message from an offset on

`v4v_copy_out` and `v4v_copy_out_offset` of the Windows header.  The second moves the buffer back by `skip`
and copies with `v4v_memcpy_skip`, which holds the copies back until `skip` bytes have gone by.

Memory is addressed relative to the buffer that the caller passed: byte 0 is `_buf[0]`, and a pointer is
`NULL` or so many bytes behind `_buf`. -/
namespace V4v
open MachineWord CyclicBuffer

/-- The memory around the buffer. -/
abbrev BufMem := Int → UInt8

/-- `memcpy`. -/
def memcpy (dst : Int) (src : Nat → UInt8) (len : Nat) (mem : BufMem) : BufMem :=
  fun a => if dst ≤ a ∧ a < dst + len then src (a - dst).toNat else mem a

/-- `v4v_memcpy_skip`: the memory and `*skip` afterwards. -/
def memcpySkip (dst : Int) (src : Nat → UInt8) (len skip : Nat) (mem : BufMem) : BufMem × Nat :=
  if skip = 0 then (memcpy dst src len mem, skip)
  else if len ≤ skip then (mem, skip - len)
  else (memcpy (dst + skip) (fun i => src (skip + i)) (len - skip) mem, 0)

/-- How the two functions copy: `memcpy`, or `v4v_memcpy_skip` with the `skip` it counts down. -/
abbrev CopyBytes := Int → (Nat → UInt8) → Nat → Nat → BufMem → BufMem × Nat

/-- `memcpy` has no `skip` to count down. -/
def memcpyAll : CopyBytes := fun dst src len skip mem => (memcpy dst src len mem, skip)

/-- The variables of the copying part. -/
structure CopyVars where
  rxp : Nat
  len : Nat
  t : Nat
  buf : Option Int
  skip : Nat
  mem : BufMem

namespace CopyVars

/-- `if (buf) { copy (buf, &r->ring[rxp], k); buf += k; }` -/
def put (copy : CopyBytes) (m : PageMem) (k : Nat) (s : CopyVars) : CopyVars :=
  match s.buf with
  | none => s
  | some dst =>
    let out := copy dst (fun i => m.byte (sizeofRing + s.rxp + i)) k s.skip s.mem
    { s with buf := some (dst + k), skip := out.2, mem := out.1 }

/-- The part before the ring end, when the payload goes round it. -/
def toRingEnd (copy : CopyBytes) (m : PageMem) (bte : Nat) (s : CopyVars) : CopyVars :=
  if bte < s.len then
    if s.t < bte then { s.put copy m s.t with rxp := 0, len := s.len - bte, t := 0 }
    else { s.put copy m bte with rxp := 0, len := s.len - bte, t := s.t - bte }
  else s

/-- The rest: `if (buf && t)`. -/
def rest (copy : CopyBytes) (m : PageMem) (s : CopyVars) : CopyVars :=
  if s.t = 0 then s else s.put copy m (if s.t < s.len then s.t else s.len)

end CopyVars

/-- What the functions return, store through `from` and `protocol` where these are not `NULL`, and leave in
the memory of the buffer and in the ring. -/
structure CopiedOut where
  ret : Int
  source : Option Addr
  protocol : Option UInt32
  mem : BufMem
  ring : PageMem

/-- The body that the two functions share. -/
def copyOutWith (copy : CopyBytes) (r : PageMem) (source : Option Addr) (protocol : Option UInt32)
    (buf : Option Int) (t : Nat) (consume : Bool) (skip : Nat) (mem : BufMem) : CopiedOut :=
  let btr := ringBytesToRead r
  let rx := read r.byte offsetofRxPtr 4
  let rlen := read r.byte offsetofLen 4
  if btr < sizeofMessageHeader then ⟨-1, source, protocol, mem, r⟩
  else
    let mh := readHeader r.byte (sizeofRing + rx)
    if btr < mh.len.toNat then ⟨-1, source, protocol, mem, r⟩
    else
      let rxp := u32 (rx + sizeofMessageHeader)
      let rxp := if rxp = rlen then 0 else rxp
      let len := u32 (mh.len.toNat - sizeofMessageHeader)
      let s := (CopyVars.mk rxp len t buf skip mem).toRingEnd copy r (u32 (rlen - rxp))
      let rxp := u32 (s.rxp + (roundup (UInt32.ofNat s.len)).toNat)
      let rxp := if rxp = rlen then 0 else rxp
      ⟨len, source.map fun _ => mh.source, protocol.map fun _ => mh.protocol, (s.rest copy r).mem,
        if consume then r.storeWord offsetofRxPtr rxp else r⟩

/-- `v4v_copy_out`. -/
def v4vCopyOut (r : PageMem) (source : Option Addr) (protocol : Option UInt32) (buf : Option Int)
    (t : Nat) (consume : Bool) (mem : BufMem) : CopiedOut :=
  copyOutWith memcpyAll r source protocol buf t consume 0 mem

/-- `buf -= skip`, which C defines for `NULL` only with no bytes. -/
def moveBack (buf : Option Int) (skip : Nat) : Option (Option Int) :=
  match buf with
  | some dst => some (some (dst - skip))
  | none => if skip = 0 then some none else none

/-- `v4v_copy_out_offset`; `none` when it moves `NULL`. -/
def v4vCopyOutOffset (r : PageMem) (source : Option Addr) (protocol : Option UInt32) (buf : Option Int)
    (t : Nat) (consume : Bool) (skip : Nat) (mem : BufMem) : Option CopiedOut :=
  (moveBack buf skip).map fun buf => copyOutWith memcpySkip r source protocol buf t consume skip mem

/-! ## Without the copies -/

namespace CopyVars
variable {copy copy' : CopyBytes} {m : PageMem} {s s' : CopyVars} {k bte : Nat}

@[simp] theorem put_rxp : (s.put copy m k).rxp = s.rxp := by
  unfold put
  split <;> rfl

@[simp] theorem put_len : (s.put copy m k).len = s.len := by
  unfold put
  split <;> rfl

/-! The position and the length do not depend on the copies. -/

theorem toRingEnd_rxp : (s.toRingEnd copy m bte).rxp = if bte < s.len then 0 else s.rxp := by
  unfold toRingEnd
  split
  · split <;> rfl
  · rfl

theorem toRingEnd_len : (s.toRingEnd copy m bte).len = if bte < s.len then s.len - bte else s.len := by
  unfold toRingEnd
  split
  · split <;> rfl
  · rfl

/-- With nothing to skip, `v4v_memcpy_skip` is `memcpy`. -/
theorem put_nothing (h : s.skip = 0) : s.put memcpySkip m k = s.put memcpyAll m k := by
  unfold put memcpySkip memcpyAll
  split
  · rfl
  · rw [if_pos h]

theorem put_nothing_skip (h : s.skip = 0) : (s.put memcpyAll m k).skip = 0 := by
  unfold put
  split <;> exact h

theorem toRingEnd_nothing (h : s.skip = 0) :
    s.toRingEnd memcpySkip m bte = s.toRingEnd memcpyAll m bte ∧ (s.toRingEnd memcpyAll m bte).skip = 0 := by
  unfold toRingEnd
  rw [put_nothing h, put_nothing h]
  refine ⟨rfl, ?_⟩
  split
  · split
    · exact put_nothing_skip h
    · exact put_nothing_skip h
  · exact h

theorem rest_nothing (h : s.skip = 0) : s.rest memcpySkip m = s.rest memcpyAll m := by
  unfold rest
  rw [put_nothing h]

end CopyVars

/-- **With `skip` 0** the functions are equal, for every ring and every buffer. -/
theorem v4vCopyOutOffset_zero (r : PageMem) (source : Option Addr) (protocol : Option UInt32)
    (buf : Option Int) (t : Nat) (consume : Bool) (mem : BufMem) :
    v4vCopyOutOffset r source protocol buf t consume 0 mem =
      some (v4vCopyOut r source protocol buf t consume mem) := by
  have hback : moveBack buf 0 = some buf := by
    cases buf with
    | none => rfl
    | some dst => exact congrArg (fun d => some (some d)) (Int.sub_zero dst)
  unfold v4vCopyOutOffset v4vCopyOut copyOutWith
  rw [hback]
  dsimp only [Option.map_some]
  split
  · rfl
  · split
    · rfl
    · have h (rxp len bte : Nat) : CopyVars.toRingEnd memcpySkip r bte ⟨rxp, len, t, buf, 0, mem⟩ = _ ∧ _ :=
        CopyVars.toRingEnd_nothing rfl
      rw [(h _ _ _).1, CopyVars.rest_nothing (h _ _ _).2]

/-- What the functions return and store besides the payload does not depend on the buffer or on how it is
copied. -/
theorem copyOutWith_frame (copy copy' : CopyBytes) (r : PageMem) (source : Option Addr)
    (protocol : Option UInt32) (buf buf' : Option Int) (t : Nat) (consume : Bool) (skip skip' : Nat)
    (mem mem' : BufMem) :
    let out := copyOutWith copy r source protocol buf t consume skip mem
    let out' := copyOutWith copy' r source protocol buf' t consume skip' mem'
    out.ret = out'.ret ∧ out.source = out'.source ∧ out.protocol = out'.protocol ∧ out.ring = out'.ring := by
  unfold copyOutWith
  dsimp only
  split
  · exact ⟨rfl, rfl, rfl, rfl⟩
  · split
    · exact ⟨rfl, rfl, rfl, rfl⟩
    · refine ⟨rfl, rfl, rfl, ?_⟩
      rw [CopyVars.toRingEnd_rxp, CopyVars.toRingEnd_rxp, CopyVars.toRingEnd_len, CopyVars.toRingEnd_len]

/-! ## The bytes that arrive -/

/-- The memory `mem` with bytes `skip` to `done` of the payload at the buffer. -/
def arrived (payload : Nat → UInt8) (skip done : Nat) (mem : BufMem) : BufMem :=
  fun a => if 0 ≤ a ∧ a + skip < done then payload (skip + a.toNat) else mem a

/-- **`v4v_memcpy_skip`**, for the bytes from `done` on with the buffer moved back by `skip`. -/
theorem memcpySkip_arrived {payload : Nat → UInt8} {src : Nat → UInt8} {skip done len : Nat} {mem : BufMem}
    (hsrc : ∀ i < len, src i = payload (done + i)) :
    memcpySkip (done - skip) src len (skip - done) (arrived payload skip done mem) =
      (arrived payload skip (done + len) mem, skip - (done + len)) := by
  unfold memcpySkip
  by_cases hgone : skip ≤ done
  · -- all bytes of the payload go to the buffer now
    rw [if_pos (by omega)]
    refine Prod.ext (funext fun a => ?_) (by dsimp only; omega)
    dsimp only
    unfold memcpy arrived
    by_cases hin : (done : Int) - skip ≤ a ∧ a < (done : Int) - skip + len
    · rw [if_pos hin, if_pos (by omega), hsrc _ (by omega)]
      congr 1
      omega
    · rw [if_neg hin]
      by_cases hbefore : 0 ≤ a ∧ a + skip < done
      · rw [if_pos hbefore, if_pos (by omega)]
      · rw [if_neg hbefore, if_neg (by omega)]
  · rw [if_neg (by omega)]
    by_cases hall : len ≤ skip - done
    · -- none of them
      rw [if_pos hall]
      refine Prod.ext (funext fun a => ?_) (by dsimp only; omega)
      dsimp only
      unfold arrived
      rw [if_neg (by omega), if_neg (by omega)]
    · rw [if_neg hall]
      refine Prod.ext (funext fun a => ?_) (by dsimp only; omega)
      dsimp only
      unfold memcpy arrived
      by_cases hin : 0 ≤ a ∧ a + skip < (done + len : Nat)
      · rw [if_pos hin, if_pos (by omega)]
        dsimp only
        rw [hsrc _ (by omega)]
        congr 1
        omega
      · rw [if_neg hin, if_neg (by omega), if_neg (by omega)]

namespace CopyVars
variable {m : PageMem} {s : CopyVars} {payload : Nat → UInt8} {skip done : Nat} {mem : BufMem}

/-- `done` bytes of the payload have gone by. -/
structure GoneBy (payload : Nat → UInt8) (skip : Nat) (mem : BufMem) (done : Nat) (s : CopyVars) :
    Prop where
  moved : s.buf = some ((done : Int) - skip)
  left : s.skip = skip - done
  filled : s.mem = arrived payload skip done mem

theorem GoneBy.put (h : s.GoneBy payload skip mem done) {k : Nat}
    (hbytes : ∀ i < k, m.byte (sizeofRing + s.rxp + i) = payload (done + i)) :
    (s.put memcpySkip m k).GoneBy payload skip mem (done + k) := by
  have hcopy : memcpySkip (done - skip) _ k (skip - done) (arrived payload skip done mem) = _ :=
    memcpySkip_arrived hbytes
  unfold CopyVars.put
  rw [h.moved]
  dsimp only
  rw [h.left, h.filled, hcopy]
  refine ⟨congrArg some ?_, rfl, rfl⟩
  omega

/-- **Both copies.**  There are `bte` bytes up to the ring end, and the payload goes on at its start. -/
theorem GoneBy.copied {p n t bte : Nat}
    (hbytes : ∀ i < n, m.byte (sizeofRing + if bte < n ∧ bte ≤ i then i - bte else p + i) = payload i)
    (mem : BufMem) (skip : Nat) :
    (((CopyVars.mk p n t (some (0 - skip)) skip mem).toRingEnd memcpySkip m bte).rest
      memcpySkip m).mem = arrived payload skip (min t n) mem := by
  have hstart : (CopyVars.mk p n t (some (0 - skip)) skip mem).GoneBy payload skip mem 0 := by
    refine ⟨rfl, rfl, funext fun a => ?_⟩
    unfold arrived
    rw [if_neg (by omega)]
  have hstraight : ∀ k ≤ n, k ≤ bte → ∀ i < k, m.byte (sizeofRing + p + i) = payload (0 + i) := by
    intro k hkn hkl i hi
    rw [Nat.zero_add, ← hbytes i (by omega), if_neg (by omega), Nat.add_assoc]
  unfold toRingEnd
  split
  · next hwrap =>
    dsimp only at hwrap ⊢
    split
    · next hshort =>
      -- the caller's length ends before the ring does
      have hput := hstart.put (hstraight t (by omega) (by omega))
      refine hput.filled.trans ?_
      rw [Nat.zero_add, Nat.min_eq_left (by omega)]
    · next hlong =>
      have hput := hstart.put (hstraight bte (by omega) le_rfl)
      rw [Nat.zero_add] at hput
      unfold rest
      split
      · next hzero =>
        dsimp only at hzero
        refine hput.filled.trans ?_
        rw [Nat.min_eq_left (by omega)]
        congr 1
        omega
      · have hnext : CopyVars.GoneBy payload skip mem bte
            { (CopyVars.mk p n t (some (0 - skip)) skip mem).put memcpySkip m bte with
              rxp := 0, len := n - bte, t := t - bte } := ⟨hput.moved, hput.left, hput.filled⟩
        refine (hnext.put fun i hi => ?_).filled.trans ?_
        · dsimp only at hi ⊢
          have hlt : i < n - bte := by
            split at hi <;> omega
          rw [← hbytes (bte + i) (by omega), if_pos (by omega), Nat.add_sub_cancel_left, Nat.add_zero]
        · have hall : bte + (if t - bte < n - bte then t - bte else n - bte) = min t n := by
            split <;> omega
          exact congrArg (fun k => arrived payload skip k mem) hall
  · next hstays =>
    dsimp only at hstays
    unfold rest
    split
    · next hzero =>
      dsimp only at hzero
      rw [hzero, Nat.zero_min]
      exact hstart.filled
    · refine (hstart.put (hstraight _ ?_ ?_)).filled.trans ?_
      · dsimp only
        split <;> omega
      · dsimp only
        split <;> omega
      · have hall : 0 + (if t < n then t else n) = min t n := by
          split <;> omega
        exact congrArg (fun k => arrived payload skip k mem) hall

end CopyVars

/-- A well-formed message stands at `rx_ptr`: header and payload lie in the ring and are unread. -/
structure HeadMessage (r : PageMem) (mh : MessageHeader) (payload : List UInt8) : Prop where
  len_mod : read r.byte offsetofLen 4 % 16 = 0
  rx_mod : read r.byte offsetofRxPtr 4 % 16 = 0
  rx_lt : read r.byte offsetofRxPtr 4 < read r.byte offsetofLen 4
  header : readHeader r.byte (sizeofRing + read r.byte offsetofRxPtr 4) = mh
  len : mh.len.toNat = sizeofMessageHeader + payload.length
  unread : mh.len.toNat ≤ ringBytesToRead r
  fits : mh.len.toNat ≤ read r.byte offsetofLen 4
  byte : ∀ i (h : i < payload.length), r.byte (sizeofRing + advance (read r.byte offsetofLen 4)
    (read r.byte offsetofRxPtr 4) (sizeofMessageHeader + i)) = payload[i]

/-- The bytes up to the ring end, and those from its start, are the ones that `advance` counts. -/
theorem reach_eq_advance {l p n i : Nat} (hp : p < l) (hi : i < n) :
    advance l p i = if l - p < n ∧ l - p ≤ i then i - (l - p) else p + i := by
  split
  · rw [advance_of_le (by omega)]
    omega
  · rw [advance_of_lt (by omega)]

/-- The copying part, for a message at the head of the ring. -/
theorem HeadMessage.copyOutWith_mem {r : PageMem} {mh : MessageHeader} {payload : List UInt8}
    (h : HeadMessage r mh payload) (source : Option Addr) (protocol : Option UInt32) (t : Nat)
    (consume : Bool) (skip : Nat) (mem : BufMem) :
    (copyOutWith memcpySkip r source protocol (some (0 - skip)) t consume skip mem).ret = payload.length ∧
      (copyOutWith memcpySkip r source protocol (some (0 - skip)) t consume skip mem).mem =
        arrived (fun i => payload.getD i 0) skip (min t payload.length) mem := by
  obtain ⟨hmod, hrxmod, hrx, hhead, hlen, hunread, hfits, hbyte⟩ := h
  have hlt : read r.byte offsetofLen 4 < 4294967296 := read_lt _ _ _
  have hafter : (if u32 ((read r.byte offsetofRxPtr 4 : Int) + (sizeofMessageHeader : Nat)) =
      read r.byte offsetofLen 4 then 0
      else u32 ((read r.byte offsetofRxPtr 4 : Int) + (sizeofMessageHeader : Nat))) =
      advance (read r.byte offsetofLen 4) (read r.byte offsetofRxPtr 4) sizeofMessageHeader := by
    have hfit : read r.byte offsetofRxPtr 4 + sizeofMessageHeader ≤ read r.byte offsetofLen 4 := by
      unfold sizeofMessageHeader
      omega
    rw [u32_add (by omega)]
    exact reset_eq_advance hfit
  have hafter_lt : advance (read r.byte offsetofLen 4) (read r.byte offsetofRxPtr 4) sizeofMessageHeader <
      read r.byte offsetofLen 4 := advance_lt hrx (by omega)
  have hn : u32 ((mh.len.toNat : Int) - (sizeofMessageHeader : Nat)) = payload.length := by
    unfold u32
    omega
  have hbte : u32 ((read r.byte offsetofLen 4 : Int) -
      (advance (read r.byte offsetofLen 4) (read r.byte offsetofRxPtr 4) sizeofMessageHeader : Nat)) =
      read r.byte offsetofLen 4 -
        advance (read r.byte offsetofLen 4) (read r.byte offsetofRxPtr 4) sizeofMessageHeader := by
    unfold u32
    omega
  unfold copyOutWith
  dsimp only
  rw [hhead, if_neg (by omega), if_neg (by omega), hafter, hn, hbte]
  refine ⟨rfl, CopyVars.GoneBy.copied (fun i hi => ?_) mem skip⟩
  rw [← reach_eq_advance hafter_lt hi, advance_advance hrx (by omega), hbyte i hi]
  exact List.getElem_eq_getD 0

/-- **The offset read.**  For a message at the head of the ring and any `skip` up to `t`,
`v4v_copy_out_offset` puts bytes `skip` to `t` of the payload at the buffer, as far as there are as many, and
changes no other byte; it returns the length of the payload, and `from`, `protocol` and the ring are as
`v4v_copy_out` leaves them.  With `skip` 0 it is `v4v_copy_out`. -/
theorem v4vCopyOutOffset_exact (r : PageMem) (source : Option Addr) (protocol : Option UInt32) (t : Nat)
    (consume : Bool) (mem : BufMem) :
    (∀ (mh : MessageHeader) (payload : List UInt8) (skip : Nat), HeadMessage r mh payload → skip ≤ t →
      ∃ out, v4vCopyOutOffset r source protocol (some 0) t consume skip mem = some out ∧
        out.ret = payload.length ∧
        (∀ i (h : skip + i < min t payload.length),
          out.mem i = payload.get ⟨skip + i, Nat.lt_of_lt_of_le h (Nat.min_le_right ..)⟩) ∧
        (∀ a : Int, ¬(0 ≤ a ∧ a + skip < (min t payload.length : Nat)) → out.mem a = mem a) ∧
        out.source = (v4vCopyOut r source protocol (some 0) t consume mem).source ∧
        out.protocol = (v4vCopyOut r source protocol (some 0) t consume mem).protocol ∧
        out.ring = (v4vCopyOut r source protocol (some 0) t consume mem).ring) ∧
    ∀ buf, v4vCopyOutOffset r source protocol buf t consume 0 mem =
      some (v4vCopyOut r source protocol buf t consume mem) := by
  refine ⟨fun mh payload skip h _ => ⟨_, rfl, ?_⟩, fun buf => v4vCopyOutOffset_zero ..⟩
  obtain ⟨hret, hmem⟩ := h.copyOutWith_mem source protocol t consume skip mem
  obtain ⟨-, hframe⟩ := copyOutWith_frame memcpySkip memcpyAll r source protocol (some (0 - skip)) (some 0)
    t consume skip 0 mem mem
  refine ⟨hret, fun i hi => ?_, fun a ha => ?_, hframe⟩
  · rw [hmem, arrived, if_pos (by omega), Int.toNat_natCast]
    exact (List.getElem_eq_getD 0).symm
  · rw [hmem, arrived, if_neg ha]

/-! ## Any pages

Nothing is assumed of the ring here: the payload of the message at its head is what `v4v_copy_out` copies into
a buffer that is large enough. -/

theorem copyOutPayload_bytes (m : PageMem) (p n bte t : Nat) :
    (copyOutPayload m p n bte t).1 = (List.range (min t n)).map fun i =>
      m.byte (sizeofRing + if bte < n ∧ bte ≤ i then i - bte else p + i) := by
  have hstraight : ∀ k ≤ n, k ≤ bte ∨ n ≤ bte → m.data p k = (List.range k).map fun i =>
      m.byte (sizeofRing + if bte < n ∧ bte ≤ i then i - bte else p + i) := by
    intro k hkn hkb
    refine List.map_congr_left fun i hi => ?_
    have := List.mem_range.mp hi
    rw [if_neg (by omega), Nat.add_assoc]
  unfold copyOutPayload
  split
  · next hwrap =>
    split
    · rw [Nat.min_eq_left (by omega)]
      exact hstraight t (by omega) (.inl (by omega))
    · rw [show min t n = bte + min (t - bte) (n - bte) by omega, List.range_add, List.map_append, List.map_map]
      refine congrArg₂ _ (hstraight bte (by omega) (.inl le_rfl)) (List.map_congr_left fun i hi => ?_)
      rw [Function.comp_apply, if_pos (by omega), Nat.add_sub_cancel_left, Nat.add_zero]
  · exact hstraight _ (Nat.min_le_right ..) (.inr (by omega))

theorem copyOutPayload_rxp (m : PageMem) (p n bte t : Nat) :
    (copyOutPayload m p n bte t).2.1 = if bte < n then 0 else p := by
  unfold copyOutPayload
  split
  · split <;> rfl
  · rfl

theorem copyOutPayload_len (m : PageMem) (p n bte t : Nat) :
    (copyOutPayload m p n bte t).2.2 = if bte < n then n - bte else n := by
  unfold copyOutPayload
  split
  · split <;> rfl
  · rfl

/-- **`v4v_copy_out` on any pages**: it is refused, or there is a payload of which it takes the first `t` bytes,
and a position behind it. -/
theorem copyOut_cases (m : PageMem) :
    (∀ t consume, copyOut m t consume = ⟨-1, ⟨0, 0⟩, 0, [], m⟩) ∨
      ∃ (source : Addr) (protocol : UInt32) (payload : List UInt8) (rxp : Nat),
        payload.length < 4294967296 ∧ ∀ t consume, copyOut m t consume =
          ⟨(payload.length : Nat), source, protocol, payload.take t,
            if consume then m.storeWord offsetofRxPtr rxp else m⟩ := by
  by_cases hshort : ringBytesToRead m < sizeofMessageHeader
  · left
    intro t consume
    unfold copyOut
    dsimp only
    rw [if_pos hshort]
  by_cases hlong : ringBytesToRead m <
      (readHeader m.byte (sizeofRing + read m.byte offsetofRxPtr 4)).len.toNat
  · left
    intro t consume
    unfold copyOut
    dsimp only
    rw [if_neg hshort, if_pos hlong]
  · right
    unfold copyOut
    dsimp only
    simp only [if_neg hshort, if_neg hlong, copyOutPayload_rxp, copyOutPayload_len, copyOutPayload_bytes]
    have hlt : u32 ((readHeader m.byte (sizeofRing + read m.byte offsetofRxPtr 4)).len.toNat -
        (sizeofMessageHeader : Nat)) < 4294967296 := u32_lt _
    generalize u32 ((readHeader m.byte (sizeofRing + read m.byte offsetofRxPtr 4)).len.toNat -
      (sizeofMessageHeader : Nat)) = n at hlt ⊢
    generalize (if u32 (read m.byte offsetofRxPtr 4 + (sizeofMessageHeader : Nat)) = read m.byte offsetofLen 4 then 0
      else u32 (read m.byte offsetofRxPtr 4 + (sizeofMessageHeader : Nat))) = p
    generalize u32 (read m.byte offsetofLen 4 - p) = bte
    generalize (if u32 ((if bte < n then 0 else p : Nat) +
      (roundup (UInt32.ofNat (if bte < n then n - bte else n))).toNat) = read m.byte offsetofLen 4 then 0
      else u32 ((if bte < n then 0 else p : Nat) +
        (roundup (UInt32.ofNat (if bte < n then n - bte else n))).toNat)) = rxp
    refine ⟨(readHeader m.byte (sizeofRing + read m.byte offsetofRxPtr 4)).source,
      (readHeader m.byte (sizeofRing + read m.byte offsetofRxPtr 4)).protocol,
      (copyOutPayload m p n bte n).1, rxp, by rw [copyOutPayload_bytes]; simpa using hlt, fun t consume => ?_⟩
    rw [copyOutPayload_bytes, List.length_map, List.length_range, Nat.min_self, ← List.map_take, List.take_range]

/-- **The two ways to read agree.**  Behind the first `skip` bytes, `v4v_copy_out_offset` leaves in the buffer
what `v4v_copy_out` reads. -/
theorem v4vCopyOutOffset_copyOut (m : PageMem) (source : Option Addr) (protocol : Option UInt32) (t : Nat)
    (consume : Bool) (skip : Nat) (mem : BufMem) :
    ∃ out, v4vCopyOutOffset m source protocol (some 0) t consume skip mem = some out ∧
      out.ret = (copyOut m t consume).ret ∧ out.ring = (copyOut m t consume).mem ∧
      (List.range ((copyOut m t consume).buf.length - skip)).map (fun i : Nat => out.mem i) =
        (copyOut m t consume).buf.drop skip := by
  refine ⟨_, rfl, ?_⟩
  unfold copyOutWith copyOut
  dsimp only
  split
  · simp
  · split
    · simp
    · refine ⟨rfl, ?_, ?_⟩
      · dsimp only
        rw [copyOutPayload_rxp, copyOutPayload_len, CopyVars.toRingEnd_rxp, CopyVars.toRingEnd_len]
      · dsimp only
        rw [CopyVars.GoneBy.copied (fun i hi => rfl), copyOutPayload_bytes]
        apply List.ext_getElem
        · simp
        · intro i hi hi'
          simp only [List.length_map, List.length_range] at hi
          rw [List.getElem_map, List.getElem_range, List.getElem_drop, List.getElem_map, List.getElem_range,
            arrived, if_pos (by omega), Int.toNat_natCast]

/-- 20 bytes that go round the end of a ring of 64. -/
def roundMessage : PageMem :=
  ((ringbufInsert (RingInfo.blank ⟨⟨1, 1⟩, 2⟩ 64 1 32 32) ⟨5, 2⟩ 6
    (.ofBytes ((List.range 20).map UInt8.ofNat)) 20).map fun out => out.ring.mem).getD fun _ _ => 0

theorem roundMessage_head :
    HeadMessage roundMessage ⟨36, ⟨5, 2⟩, 0, 6⟩ ((List.range 20).map UInt8.ofNat) := by
  constructor <;> decide

theorem v4vCopyOutOffset_round : ∃ out,
    v4vCopyOutOffset roundMessage none none (some 0) 18 true 8 (fun _ => 0) = some out ∧ out.ret = 20 ∧
      out.mem 9 = 17 ∧ out.mem 10 = 0 ∧ out.mem (-1) = 0 := by
  obtain ⟨out, hout, hret, hin, hframe, -⟩ := (v4vCopyOutOffset_exact roundMessage none none 18 true
    fun _ => 0).1 _ _ 8 roundMessage_head (by decide)
  exact ⟨out, hout, hret, hin 9 (by decide), hframe 10 (by decide), hframe (-1) (by decide)⟩

end V4v
