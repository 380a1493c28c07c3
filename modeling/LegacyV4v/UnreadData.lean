import LegacyV4v.RingInvariants
import LegacyV4v.RingSendv

/-! # Are unread messages safe from later ones?

The bytes from `rx_ptr` up to `tx_ptr` are what the receiver has not read yet.  An insertion
writes behind `tx_ptr`, header first and payload after, so they are safe as long as what is
written fits into the rest of the ring, however far the copy gets.  The size checks see to
that for the length they look at.  But that length can wrap, the free space is computed in
32 bits, and the pieces of a `v4v_sendv` are read again behind the checks. -/
namespace V4v
open MachineWord CyclicBuffer ChainedHash

namespace RingInfo
variable {r : RingInfo}

/-- The number of unread bytes. -/
def unread (r : RingInfo) : Nat := distance r.len.toNat r.rxPtr r.txPtr.toNat

/-- Both pointers are below `len` and aligned. -/
def PointersOk (r : RingInfo) : Prop :=
  r.TxOk ∧ r.rxPtr < r.len.toNat ∧ r.rxPtr % 16 = 0

/-- A message of `n` bytes fits behind the unread ones. -/
def RoomFor (r : RingInfo) (n : Nat) : Prop :=
  r.unread + sizeofMessageHeader + n < r.len.toNat

/-- The unread bytes of `r` are the same in `r'`, and if the call failed, so is `tx_ptr`, in
the ring info and in the shared header. -/
def KeepsUnread (r r' : RingInfo) (ret : Int) : Prop :=
  (∀ a, r.Span r.rxPtr r.unread a → r'.mem.byte a = r.mem.byte a) ∧
    (ret < 0 → r'.txPtr = r.txPtr ∧ r'.sharedTxPtr = r.sharedTxPtr)

theorem keepsUnread_refl (r : RingInfo) (ret : Int) : r.KeepsUnread r ret :=
  ⟨fun _ _ => rfl, fun _ => ⟨rfl, rfl⟩⟩

/-- Unread bytes are not where the next message goes. -/
theorem not_span_of_unread (hrx : r.rxPtr < r.len.toNat) (htx : r.txPtr.toNat < r.len.toNat)
    {n a : Nat} (hroom : r.unread + n ≤ r.len.toNat) (ha : r.Span r.rxPtr r.unread a) :
    ¬ r.Span r.txPtr.toNat n a := by
  rintro ⟨_, hlt, hn⟩
  obtain ⟨hge, _, hm⟩ := ha
  unfold unread at hroom hm
  unfold distance at *
  split at hroom <;> split at hm <;> split at hn <;> omega

/-- An insertion that writes only the `n` bytes behind `tx_ptr` keeps what is unread. -/
theorem keepsUnread_insertWith {len : UInt32} {o : CopyOut} {tx n : Nat} {out : InsertOut}
    (hp : r.PointersOk) (hout : r.insertWith len o tx = some out)
    (hroom : r.Admits len → r.unread + n ≤ r.len.toNat)
    (hframe : r.Admits len → r.Mapped → ∀ a, ¬ r.Span r.txPtr.toNat n a →
      o.mem.byte a = r.mem.byte a)
    (hret : r.Admits len → o.ret = 0 → 0 ≤ i32 len.toNat) : r.KeepsUnread out.ring out.ret := by
  rcases insertWith_cases hout with ⟨hr, _⟩ | ⟨hadm, hm, _, rfl⟩ | ⟨hadm, hm, hzero, rfl⟩
  · rw [hr]
    exact keepsUnread_refl r _
  · -- the copy failed: some of the message may be there, but nobody is told
    have hmem := hframe hadm hm
    refine ⟨fun a ha => hmem a (not_span_of_unread hp.2.1 hp.1.1 (hroom hadm) ha),
      fun _ => ⟨rfl, ?_⟩⟩
    refine read_congr fun i hi => hmem _ fun hspan => ?_
    have := hspan.1
    unfold offsetofTxPtr sizeofRing at this
    omega
  · refine ⟨fun a ha => ?_, fun hneg => absurd (hret hadm hzero) (Int.not_le.mpr hneg)⟩
    have hge : sizeofRing ≤ a := ha.1
    refine (PageMem.storeWord_byte (by decide) (Or.inr ?_)).trans ?_
    · unfold sizeofRing at hge
      unfold offsetofTxPtr
      omega
    exact hframe hadm hm a (not_span_of_unread hp.2.1 hp.1.1 (hroom hadm) ha)

/-! ## One buffer -/

/-- A message of `len` bytes is refused, or it fits behind the unread ones and its length is
not taken for an error. -/
def SendSafe (r : RingInfo) (len : UInt32) : Prop :=
  r.Admits len → len.toNat < 2147483648 ∧ r.RoomFor len.toNat

theorem i32_nonneg {n : Nat} (h : n < 2147483648) : 0 ≤ i32 n := by
  unfold i32
  omega

theorem keepsUnread_insert (hlen : LenChecked r) (hp : r.PointersOk) {src : Addr}
    {proto len : UInt32} {buf : GuestBuf} {out : InsertOut} (hsafe : r.SendSafe len)
    (hout : ringbufInsert r src proto buf len = some out) : r.KeepsUnread out.ring out.ret := by
  refine keepsUnread_insertWith (n := sizeofMessageHeader + len.toNat) hp hout (fun hadm => ?_)
    (fun hadm hm a ha => ?_) fun hadm _ => i32_nonneg (hsafe hadm).1
  · have hroom := (hsafe hadm).2
    unfold RoomFor at hroom
    omega
  · have hsmall := (hsafe hadm).1
    exact writeMessage_frame ((hlen.lenOk hm).sane hp.1) (by omega) hadm.1 ha

/-! ## Several pieces -/

/-- Every entry of the array can be read and used. -/
def IovsUsable (iovs : List (Option Iov)) : Prop := ∀ v ∈ iovs, ∃ w, v = some w ∧ w.okay = true

/-- A message in pieces is refused, or its pieces, as the second read sees them, fit behind
the unread bytes; and the length from the first read is not taken for an error, unless the
copy fails as well. -/
def SendvSafe (r : RingInfo) (first second : List (Option Iov)) : Prop :=
  r.Admits (iovLen first) → r.RoomFor (iovTotal second) ∧
    ((iovLen first).toNat < 2147483648 ∨ ¬ IovsUsable second)

/-- The loop gets through usable entries only. -/
theorem iovsUsable_of_iovLoop {iovs : List (Option Iov)} {tx : Nat} {m : PageMem}
    (h : (r.iovLoop iovs tx m).1.ret = 0) : IovsUsable iovs := by
  induction iovs generalizing tx m with
  | nil => exact fun v hv => absurd hv List.not_mem_nil
  | cons v rest ih =>
    rcases iov_cases v with ⟨w, rfl, hw⟩ | hv
    · rcases iovLoop_cons (r := r) hw rest tx m with ⟨hne, heq⟩ | ⟨_, p, rfl, heq⟩
      · rw [heq] at h
        exact absurd h hne
      · rw [heq] at h
        intro v' hv'
        rcases List.mem_cons.mp hv' with rfl | hv'
        · exact ⟨w, rfl, hw⟩
        · exact ih h v' hv'
    · rw [iovLoop_stop hv] at h
      exact absurd h (by simp [efault])

theorem iovsUsable_of_writeIovs {src : Addr} {proto len : UInt32} {iovs : List (Option Iov)}
    (h : (r.writeIovs src proto iovs len).1.ret = 0) : IovsUsable iovs := by
  unfold writeIovs at h
  dsimp only at h
  split at h
  · rename_i hne
    exact absurd h hne
  · exact iovsUsable_of_iovLoop h

theorem keepsUnread_sendv (hlen : LenChecked r) (hp : r.PointersOk) {src : Addr}
    {proto : UInt32} {first second : List (Option Iov)} {out : InsertOut}
    (hsafe : r.SendvSafe first second)
    (hout : ringbufSendv r src proto first second = some out) :
    r.KeepsUnread out.ring out.ret := by
  refine keepsUnread_insertWith (n := sizeofMessageHeader + iovTotal second) hp hout
    (fun hadm => ?_) (fun hadm hm a ha => ?_) fun hadm hzero => ?_
  · have hroom := (hsafe hadm).1
    unfold RoomFor at hroom
    omega
  · have hroom := (hsafe hadm).1
    unfold RoomFor at hroom
    exact (writeIovs_fills ((hlen.lenOk hm).sane hp.1) (by omega) _ _ _).1.frame a ha
  · rcases (hsafe hadm).2 with hsmall | hnot
    · exact i32_nonneg hsmall
    · exact absurd (iovsUsable_of_writeIovs hzero) hnot

end RingInfo

/-! ## The hypercalls -/

open RingInfo

/-- The ring a send leads to, if it is not refused on the way. -/
def Hyp.target (s : Hyp) (src dst : Addr) : Option RingInfo :=
  (s.v4v dst.domain).bind fun t => ringFindInfoByAddr t dst.domain dst src.domain

/-- A `V4VOP_send` or `V4VOP_sendv` that is refused, or that the ring it leads to can take,
if the pointers of that ring are valid. -/
def SafeSend (s : Hyp) (d : DomId) : V4vOp → Prop
  | .send a => ∀ src dst r, copyAddrs a.srcOkay a.src a.dstOkay a.dst = some (src, dst) →
    ¬ Refused s d src dst a.env → s.target src dst = some r → r.PointersOk → r.SendSafe a.len
  | .sendv a => ∀ src dst r, copyAddrs a.srcOkay a.src a.dstOkay a.dst = some (src, dst) →
    ¬ Refused s d src dst a.env → s.target src dst = some r → r.PointersOk →
    r.SendvSafe a.first a.second
  | _ => False

/-- What becomes of a ring: it is in the table still, and keeps what is unread. -/
def RingKept (s' : Hyp) (e : DomId) (r : RingInfo) (ret : Int) : Prop :=
  ∃ t' r', s'.v4v e = some t' ∧ ringFindInfo t' r.id = some r' ∧ r.KeepsUnread r' ret

theorem ringKept_of_same {s s' : Hyp} {e : DomId} {t : RingTable} {id : RingId} {r : RingInfo}
    (hdom : s'.domains = s.domains) (ht : s.v4v e = some t) (hr : ringFindInfo t id = some r)
    (ret : Int) : RingKept s' e r ret :=
  ⟨t, r, (Hyp.v4v_congr hdom e).trans ht, by rw [ringFindInfo_id hr]; exact hr,
    r.keepsUnread_refl ret⟩

theorem SendEffect.ringKept {s : Hyp} {d : DomId} {src dst : Addr} {env : SendEnv}
    {insert : RingInfo → Option InsertOut} {out : SendOut}
    (h : SendEffect s d src dst env insert out)
    (hins : ¬ Refused s d src dst env → ∀ r o, s.target src dst = some r → r.PointersOk →
      insert r = some o → r.KeepsUnread o.ring o.ret)
    {e : DomId} {t : RingTable} {id : RingId} {r : RingInfo} (ht : s.v4v e = some t)
    (hr : ringFindInfo t id = some r) (hp : r.PointersOk) : RingKept out.state e r out.ret := by
  cases h with
  | unreached _ _ _ _ hdom => exact ringKept_of_same hdom ht hr _
  | refused _ _ _ hdom => exact ringKept_of_same hdom ht hr _
  | @reached t₀ r₀ o pending hnot _ ht₀ hfind ho hret _ hup =>
    obtain ⟨t', ht', hkept | ⟨rfl, hr'⟩⟩ := hup.find ht hr
    · exact ⟨t', r, ht', by rw [ringFindInfo_id hr]; exact hkept, r.keepsUnread_refl _⟩
    · have htarget : s.target src dst = some r := by
        unfold Hyp.target
        rw [ht₀]
        exact hfind
      obtain ⟨hbytes, htx⟩ := hins hnot r o htarget hp ho
      refine ⟨t', { o.ring with pending := pending }, ht', by rw [ringFindInfo_id hr]; exact hr',
        hbytes, fun hneg => htx ?_⟩
      -- the pending entry can only turn one error into another
      rcases hret with hret | ⟨_, hagain⟩
      · rw [← hret]; exact hneg
      · rw [hagain]; decide

/-- Domain 2 has a ring of 48 bytes for domain 1, with an empty message in it. -/
def oneUnread : Hyp :=
  Hyp.after [.create 1 false true, .create 2 false true,
    .hypercall 2 (.registerRing (.smooth ⟨⟨5, 2⟩, 1⟩ 48 0 0 1)),
    .hypercall 1 (.send ⟨true, some ⟨7, 1⟩, true, some ⟨5, 2⟩, 0, ⟨false, true⟩, .ofBytes [], 0⟩)]

/-- What can be seen of the ring of `oneUnread`: the pointers and the first byte of its
data. -/
def oneUnreadView (s : Hyp) : Option (UInt32 × Nat × UInt32 × UInt8) :=
  (s.v4v 2).bind fun t => (ringFindInfo t ⟨⟨5, 2⟩, 1⟩).map fun r =>
    (r.len, r.rxPtr, r.txPtr, r.mem.byte sizeofRing)

theorem oneUnread_ring : ∃ t r, oneUnread.v4v 2 = some t ∧
    ringFindInfo t ⟨⟨5, 2⟩, 1⟩ = some r ∧ r.len = 48 ∧ r.rxPtr = 0 ∧ r.txPtr = 16 ∧
      r.mem.byte sizeofRing = 16 := by
  have hview : oneUnreadView oneUnread = some (48, 0, 16, 16) := by decide +kernel
  obtain ⟨t, ht, hview⟩ := Option.bind_eq_some_iff.mp hview
  obtain ⟨r, hr, heq⟩ := Option.map_eq_some_iff.mp hview
  obtain ⟨hlen, heq⟩ := Prod.mk.inj heq
  obtain ⟨hrx, heq⟩ := Prod.mk.inj heq
  obtain ⟨htx, hbyte⟩ := Prod.mk.inj heq
  exact ⟨t, r, ht, hr, hlen, hrx, htx, hbyte⟩

/-- A `V4VOP_sendv` whose array is empty for the first read and has 32 bytes for the second. -/
def growingSendv : V4vOp :=
  .sendv ⟨true, some ⟨7, 1⟩, true, some ⟨5, 2⟩, true, 0, ⟨false, true⟩, oneIov 0,
    [some ⟨32, .ofBytes (List.replicate 32 1), true⟩]⟩

end V4v
