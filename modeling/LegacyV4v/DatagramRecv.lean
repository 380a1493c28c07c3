import LegacyV4v.RingFifo
import LegacyV4v.SpaceAnnounce

/-! # What a datagram socket receives

`v4v_recvfrom_dgram` with one reader, as a function of the ring: its loop reads a message, and throws it
away when it is no datagram or, on a connected socket, not one of the peer.  A peeked message is thrown away by
a second read.

A call that finds the ring empty returns or goes to sleep; after the sleep it is at the top of its loop
again, or returns `-ERESTARTSYS`.  The loop here ends where the call goes to sleep, and its steps are those of
`DgramStep`, where the rest of the driver comes in between. -/
namespace V4v.Linux
open MachineWord GuardedRun

/-! ## The loop -/

/-- What a call works on: `*src`, the caller's buffer, and the ring. -/
structure DgramVars where
  source : Addr
  buf : List UInt8
  mem : PageMem

/-- A call returns, goes to sleep, or is at the top of its loop. -/
inductive DgramOut where
  | returned (ret : Int) (v : DgramVars)
  | sleeping (v : DgramVars)
  | running (v : DgramVars)

namespace DgramCall
variable (c : DgramCall) (p : Sock)

/-- `data` is copied to the start of the buffer. -/
def fill (data buf : List UInt8) : List UInt8 := data ++ buf.drop data.length

/-- `if (peek)`: consume the rubbish.  The buffer of this read is `NULL`. -/
def bin (m : PageMem) : PageMem := if c.peek then (copyOut m 1 true).mem else m

/-- One round of the loop. -/
def round (v : DgramVars) : DgramOut :=
  if drained v.mem then
    if c.nonblock then .returned (-eagain) v else .sleeping v
  else
    let o := copyOut v.mem c.len !c.peek
    if o.ret < 0 then .running { v with mem := recoverRing o.mem }
    else
      let v : DgramVars := ⟨o.source, fill o.buf v.buf, o.mem⟩
      if o.protocol ≠ protoDgram then .running { v with mem := c.bin v.mem }
      else if p.state = .connected ∧ v.source ≠ p.peer then .running { v with mem := c.bin v.mem }
      else .returned o.ret v

/-- `v4v_recvfrom_dgram`, for as many rounds as there is fuel. -/
def recvfromDgram : Nat → DgramVars → DgramOut
  | 0, v => .running v
  | n + 1, v =>
    match c.round p v with
    | .running v => recvfromDgram n v
    | out => out

end DgramCall

/-- The message is for the socket. -/
def Sock.Wants (p : Sock) (x : Message) : Prop :=
  x.protocol = protoDgram ∧ (p.state = .connected → x.source = p.peer)

instance (p : Sock) (x : Message) : Decidable (p.Wants x) := inferInstanceAs (Decidable (_ ∧ _))

/-! ## One round -/

namespace DgramCall
variable {c : DgramCall} {p : Sock} {v : DgramVars} {x : Message} {q : List Message}

theorem round_empty (h : v.mem.Holds []) :
    c.round p v = if c.nonblock then .returned (-eagain) v else .sleeping v :=
  if_pos h.empty.symm

/-- What is thrown away is taken off, at the first read or at the second. -/
theorem bin_tail (h : v.mem.Holds (x :: q)) : (c.bin (copyOut v.mem c.len !c.peek).mem).Holds q := by
  unfold bin
  rw [h.copyOut_cons]
  cases c.peek with
  | false => exact h.tail
  | true =>
    show (copyOut v.mem 1 true).mem.Holds q
    rw [h.copyOut_cons]
    exact h.tail

/-- A message that the socket does not want is taken off the ring. -/
theorem round_unwanted (h : v.mem.Holds (x :: q)) (hx : ¬ p.Wants x) :
    ∃ v', c.round p v = .running v' ∧ v'.mem.Holds q := by
  have hbin : (c.bin (copyOut v.mem c.len !c.peek).mem).Holds q := bin_tail h
  have hdrained : ¬ drained v.mem := h.not_empty
  unfold round
  rw [if_neg hdrained]
  rw [h.copyOut_cons] at hbin ⊢
  dsimp only at hbin ⊢
  rw [if_neg (by omega)]
  split
  · exact ⟨_, rfl, hbin⟩
  · next hproto =>
    rw [if_pos]
    · exact ⟨_, rfl, hbin⟩
    · by_contra hpeer
      exact hx ⟨not_not.mp hproto, fun hstate => by_contra fun hsource => hpeer ⟨hstate, hsource⟩⟩

/-- A message that the socket wants is returned. -/
theorem round_wanted (h : v.mem.Holds (x :: q)) (hx : p.Wants x) :
    ∃ m, c.round p v = .returned x.payload.length ⟨x.source, fill (x.payload.take c.len) v.buf, m⟩ ∧
      m.Holds (if c.peek then x :: q else q) := by
  have hdrained : ¬ drained v.mem := h.not_empty
  unfold round
  rw [if_neg hdrained, h.copyOut_cons]
  dsimp only
  rw [if_neg (by omega), if_neg (not_not.mpr hx.1), if_neg fun hbad => hbad.2 (hx.2 hbad.1)]
  refine ⟨_, rfl, ?_⟩
  cases c.peek with
  | false => exact h.tail
  | true => exact h

/-! ## The whole call -/

/-- Messages that the socket does not want take one round each. -/
theorem recvfromDgram_skips {unwanted : List Message} (h : v.mem.Holds (unwanted ++ q))
    (hun : ∀ y ∈ unwanted, ¬ p.Wants y) (n : Nat) :
    ∃ v', c.recvfromDgram p (unwanted.length + n) v = c.recvfromDgram p n v' ∧ v'.mem.Holds q := by
  induction unwanted generalizing v with
  | nil => exact ⟨v, by rw [List.length_nil, Nat.zero_add], h⟩
  | cons y ys ih =>
    obtain ⟨v', hround, h'⟩ := round_unwanted (c := c) h (hun y (by simp))
    obtain ⟨v'', hrest, h''⟩ := ih h' fun z hz => hun z (by simp [hz])
    refine ⟨v'', ?_, h''⟩
    rw [List.length_cons, Nat.succ_add, recvfromDgram, hround]
    exact hrest

theorem recvfromDgram_first {unwanted later : List Message}
    (h : v.mem.Holds (unwanted ++ x :: later)) (hun : ∀ y ∈ unwanted, ¬ p.Wants y) (hx : p.Wants x)
    {n : Nat} (hn : unwanted.length < n) :
    ∃ v', c.recvfromDgram p n v = .returned x.payload.length v' ∧ v'.source = x.source ∧
      v'.buf.take (min c.len x.payload.length) = x.payload.take c.len ∧
      v'.mem.Holds (if c.peek then x :: later else later) := by
  obtain ⟨v', hskip, h'⟩ := recvfromDgram_skips (c := c) h hun (n - unwanted.length)
  obtain ⟨m, hround, hm⟩ := round_wanted (c := c) h' hx
  refine ⟨⟨x.source, fill (x.payload.take c.len) v'.buf, m⟩, ?_, rfl, ?_, hm⟩
  · rw [show n = unwanted.length + (n - unwanted.length) by omega, hskip,
      show n - unwanted.length = n - unwanted.length - 1 + 1 by omega, recvfromDgram, hround]
  · show (fill _ _).take _ = _
    rw [fill, List.take_left' (List.length_take ..)]

theorem recvfromDgram_none (h : v.mem.Holds q) (hun : ∀ y ∈ q, ¬ p.Wants y) {n : Nat}
    (hn : q.length < n) :
    ∃ v', c.recvfromDgram p n v = (if c.nonblock then .returned (-eagain) v' else .sleeping v') ∧
      v'.mem.Holds [] := by
  rw [← List.append_nil q] at h
  obtain ⟨v', hskip, h'⟩ := recvfromDgram_skips (c := c) h hun (n - q.length)
  refine ⟨v', ?_, h'⟩
  rw [show n = q.length + (n - q.length) by omega, hskip,
    show n - q.length = n - q.length - 1 + 1 by omega, recvfromDgram, round_empty h']
  cases c.nonblock <;> rfl

/-- **The datagram filter.**  On a ring that holds `q`, `v4v_recvfrom_dgram` returns the first message that the
socket wants, with its length, its source and as much of it as the buffer takes.  The messages before it are
gone, those behind it are left, and it stays at the head when it was peeked.  When there is none, all messages
are gone, and the call returns `-EAGAIN` or sleeps. -/
theorem recvfromDgram_filter (c : DgramCall) (p : Sock) (v : DgramVars) (q : List Message)
    (h : v.mem.Holds q) (n : Nat) (hn : q.length < n) :
    (∀ unwanted x later, q = unwanted ++ x :: later → (∀ y ∈ unwanted, ¬ p.Wants y) → p.Wants x →
      ∃ v', c.recvfromDgram p n v = .returned x.payload.length v' ∧ v'.source = x.source ∧
        v'.buf.take (min c.len x.payload.length) = x.payload.take c.len ∧
        v'.mem.Holds (if c.peek then x :: later else later)) ∧
    ((∀ y ∈ q, ¬ p.Wants y) →
      ∃ v', c.recvfromDgram p n v = (if c.nonblock then .returned (-eagain) v' else .sleeping v') ∧
        v'.mem.Holds []) ∧
    (c.nonblock = true →
      ((∃ v', c.recvfromDgram p n v = .returned (-eagain) v') ↔ ∀ y ∈ q, ¬ p.Wants y)) := by
  have hfirst : ∀ unwanted x later, q = unwanted ++ x :: later → (∀ y ∈ unwanted, ¬ p.Wants y) →
      p.Wants x → ∃ v', c.recvfromDgram p n v = .returned x.payload.length v' ∧ v'.source = x.source ∧
        v'.buf.take (min c.len x.payload.length) = x.payload.take c.len ∧
        v'.mem.Holds (if c.peek then x :: later else later) := by
    rintro unwanted x later rfl hun hx
    rw [List.length_append] at hn
    exact recvfromDgram_first h hun hx (by omega)
  refine ⟨hfirst, fun hun => recvfromDgram_none h hun hn, fun hnonblock => ⟨?_, fun hun => ?_⟩⟩
  · rintro ⟨v', hagain⟩
    by_contra hwanted
    -- then a first message is wanted, and its length is no error code
    have hsome : (q.find? fun y => decide (p.Wants y)).isSome := by
      rw [List.find?_isSome]
      simpa using hwanted
    obtain ⟨x, hx⟩ := Option.isSome_iff_exists.mp hsome
    obtain ⟨hwants, unwanted, later, hq, hun⟩ := List.find?_eq_some_iff_append.mp hx
    obtain ⟨v'', hret, -⟩ := hfirst unwanted x later hq (by simpa using hun) (by simpa using hwants)
    rw [hagain] at hret
    have := (DgramOut.returned.inj hret).1
    unfold eagain at this
    omega
  · obtain ⟨v', hret, -⟩ := recvfromDgram_none (c := c) h hun hn
    rw [if_pos hnonblock] at hret
    exact ⟨v', hret⟩

/-- A ring of 96 bytes with two messages in it: no datagram, and one of three bytes. -/
def mixedRing : PageMem :=
  [(offsetofLen, 96), (offsetofTxPtr, 48), (sizeofRing, 16), (sizeofRing + 4, 5), (sizeofRing + 8, 2),
    (sizeofRing + 12, protoStream.toNat), (sizeofRing + 16, 19), (sizeofRing + 20, 7), (sizeofRing + 24, 2),
    (sizeofRing + 28, protoDgram.toNat), (sizeofRing + 32, 0x030201)].foldl
    (fun m w => m.storeWord w.1 w.2) fun _ _ => 0

/-- The datagram in `mixedRing`. -/
def mixedDatagram : Message := ⟨⟨7, 2⟩, protoDgram, [1, 2, 3]⟩

theorem mixedRing_holds : mixedRing.Holds [⟨⟨5, 2⟩, protoStream, []⟩, mixedDatagram] where
  len_mod := by decide
  len_ge := by decide
  small := by decide
  rx_lt := by decide
  rx_mod := by decide
  tx_lt := by decide
  unread := by decide
  carries := by
    refine ⟨?_, ?_, trivial⟩
    · decide +kernel
    · decide +kernel

/-- The peer's datagram is peeked into a buffer of two bytes, and the other message is gone. -/
theorem recvfromDgram_filter_mixed :
    ∃ v', recvfromDgram ⟨0, 2, true, true⟩ ⟨0, .connected, ⟨7, 2⟩, 0, [], 0, false⟩ 3
        ⟨⟨0, 0⟩, [0, 0], mixedRing⟩ = .returned 3 v' ∧ v'.source = ⟨7, 2⟩ ∧ v'.buf.take 2 = [1, 2] ∧
      v'.mem.Holds [mixedDatagram] :=
  (recvfromDgram_filter ⟨0, 2, true, true⟩ ⟨0, .connected, ⟨7, 2⟩, 0, [], 0, false⟩
    ⟨⟨0, 0⟩, [0, 0], mixedRing⟩ [⟨⟨5, 2⟩, protoStream, []⟩, mixedDatagram] mixedRing_holds 3 (by decide)).1
    [⟨⟨5, 2⟩, protoStream, []⟩] mixedDatagram [] rfl
    (by
      intro y hy
      rw [List.mem_singleton.mp hy]
      decide)
    (by decide)

end DgramCall

/-! ## The steps of the call -/

/-- The steps of thread `t` while nobody else touches the ring. -/
abbrev DgramSteps (t : Nat) (ring : Ring) : DgramPc × PageMem → DgramPc × PageMem → Prop :=
  Relation.ReflTransGen fun a b => ∃ e, DgramStep t ⟨ring, a.2⟩ a.1 b.1 b.2 e

theorem DgramStep.steps {t : Nat} {ring : Ring} {pc pc' : DgramPc} {m m' : PageMem} {e : Option SpaceEvent}
    (h : DgramStep t ⟨ring, m⟩ pc pc' m' e) : DgramSteps t ring (pc, m) (pc', m') :=
  .single ⟨e, h⟩

/-- The steps lead from the top of the loop to where `out` is. -/
def DgramOut.ReachedBy (t : Nat) (ring : Ring) (c : DgramCall) (m : PageMem) : DgramOut → Prop
  | .running v => DgramSteps t ring (.top c, m) (.top c, v.mem)
  | .sleeping v => DgramSteps t ring (.top c, m) (.asleep c, v.mem)
  | .returned ret v => ∃ pc m', DgramSteps t ring (.top c, m) (pc, m') ∧
      DgramStep t ⟨ring, m'⟩ pc .idle v.mem (some (.ret t ret))

theorem DgramOut.ReachedBy.after {t : Nat} {ring : Ring} {c : DgramCall} {m m' : PageMem} {out : DgramOut}
    (h : out.ReachedBy t ring c m') (hsteps : DgramSteps t ring (.top c, m) (.top c, m')) :
    out.ReachedBy t ring c m := by
  cases out with
  | running v => exact hsteps.trans h
  | sleeping v => exact hsteps.trans h
  | returned ret v =>
    obtain ⟨pc, m'', hrest, hlast⟩ := h
    exact ⟨pc, m'', hsteps.trans hrest, hlast⟩

namespace DgramCall
variable {c : DgramCall} {p : Sock} {t : Nat} {ring : Ring}

/-- The call comes from the top of its loop to the lock of a ring with something in it. -/
theorem steps_locked {m : PageMem} (h : ¬ drained m) :
    DgramSteps t ring (.top c, m) (.locked c, m) := by
  rcases Bool.eq_false_or_eq_true c.nonblock with hnonblock | hnonblock
  · exact (DgramStep.skip hnonblock).steps
  · exact (DgramStep.ready hnonblock h).steps

theorem steps_judge {m : PageMem} (h : ¬ drained m) (hret : 0 ≤ (copyOut m c.len !c.peek).ret) :
    DgramSteps t ring (.top c, m)
      (.judge c (copyOut m c.len !c.peek), (copyOut m c.len !c.peek).mem) := by
  have hcopy : DgramSteps t ring (.top c, m) (.taken c (copyOut m c.len !c.peek), _) :=
    (steps_locked h).trans (DgramStep.copy (x := ⟨ring, m⟩) h hret).steps
  rcases Bool.eq_false_or_eq_true c.peek with hpeek | hpeek
  · exact hcopy.trans (DgramStep.peeked hpeek).steps
  · exact hcopy.trans (DgramStep.notify hpeek).steps

theorem steps_bin {o : ReadOut} {m : PageMem} (h : Rubbish ⟨ring, m⟩ o) :
    DgramSteps t ring (.judge c o, m) (.top c, c.bin m) := by
  unfold bin
  split
  · next hpeek => exact (DgramStep.discard h hpeek).steps
  · next hpeek => exact (DgramStep.rubbish h (Bool.eq_false_iff.mpr hpeek)).steps

theorem round_steps (hp : ring.sponsor = some p) (v : DgramVars) :
    (c.round p v).ReachedBy t ring c v.mem := by
  unfold round
  split
  · next hdrained =>
    split
    · next hnonblock => exact ⟨_, _, (DgramStep.skip hnonblock).steps, .again hdrained hnonblock⟩
    · next hnonblock => exact (DgramStep.sleep (Bool.eq_false_iff.mpr hnonblock) hdrained).steps
  · next hdrained =>
    have hlocked : DgramSteps t ring (.top c, v.mem) (.locked c, v.mem) := steps_locked hdrained
    dsimp only
    split
    · next hret =>
      rw [copyOut_refused hret]
      have hgarbled := hlocked.trans (DgramStep.refuse (x := ⟨ring, v.mem⟩) hdrained hret).steps
      exact hgarbled.trans DgramStep.recover.steps
    · next hret =>
      have hjudge : DgramSteps t ring (.top c, v.mem) _ := steps_judge hdrained (Int.not_lt.mp hret)
      split
      · next hproto => exact hjudge.trans (steps_bin (.inl hproto))
      · next hproto =>
        split
        · next hpeer => exact hjudge.trans (steps_bin (.inr ⟨p, hp, hpeer⟩))
        · next hpeer =>
          refine ⟨_, _, hjudge, .done ?_⟩
          rintro (hbad | ⟨p', hp', hbad⟩)
          · exact hproto hbad
          · obtain rfl := Option.some.inj (hp.symm.trans hp')
            exact hpeer hbad

/-- **The function is what the steps compute.** -/
theorem recvfromDgram_steps (hp : ring.sponsor = some p) (n : Nat) (v : DgramVars) :
    (c.recvfromDgram p n v).ReachedBy t ring c v.mem := by
  induction n generalizing v with
  | zero => exact .refl
  | succ n ih =>
    have hround := round_steps (c := c) (t := t) hp v
    rw [recvfromDgram]
    cases hout : c.round p v with
    | running v' =>
      rw [hout] at hround
      exact (ih v').after hround
    | sleeping v' => rwa [hout] at hround
    | returned ret v' => rwa [hout] at hround

end DgramCall
end V4v.Linux
