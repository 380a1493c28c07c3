import LegacyV4v.Notify
import LegacyV4v.RingSendv

/-! # Sending

`v4v_send` and `v4v_sendv`.  The two are copies of each other up to the call that
inserts the message, so they share one definition here, `sendWith`, which takes that call
as an argument.

The source address comes from the sender.  Its port goes into the message header together
with the caller's own domain id; its domain goes into the firewall check and into the
search for the destination ring. -/
namespace V4v
open MachineWord

/-- What a send did to a ring: the ring, the domain that issued the hypercall, and what
the insertion returned. -/
structure Insertion where
  ring : RingId
  sender : DomId
  ret : Int
  deriving DecidableEq, Repr

/-- How the calls outside v4v turn out during a send: whether `xsm_v4v_send` refuses it,
and whether a pending entry can be allocated. -/
structure SendEnv where
  xsmRefuses : Bool
  pendingAlloc : Bool

/-- What a send returns: its result, the state, and the insertion it came to, if any. -/
structure SendOut where
  ret : Int
  state : Hyp
  inserted : List Insertion

/-- Under L3: the insertion and, when it finds no room, the entry for a later signal. -/
def insertInto (s : Hyp) (d dst : DomId) (env : SendEnv) (t : RingTable) (r : RingInfo)
    (len : UInt32) (insert : RingInfo → Option InsertOut) : Option SendOut :=
  (insert r).map fun out =>
    let s := s.acquire (.l3 r.id)
    let p :=
      if out.ret = -eagain then
        let q := pendingRequeue out.ring.pending d len env.pendingAlloc
        (if q.1 ≠ 0 then -enomem else out.ret, { out.ring with pending := q.2 })
      else (out.ret, out.ring)
    let s := s.setV4v dst (some (ChainedHash.replace RingInfo.id hashFn t p.2))
    let s := s.release (.l3 r.id)
    ⟨p.1, if 0 ≤ p.1 then s.signalDomain dst else s, [⟨r.id, d, out.ret⟩]⟩

/-- Under L2: the search for the ring.  The partner it looks for is the domain of the
sender-supplied source address. -/
def sendTo (s : Hyp) (d : DomId) (src dst : Addr) (env : SendEnv) (t : RingTable)
    (len : UInt32) (insert : RingInfo → Option InsertOut) : Option SendOut :=
  let s := s.acquire (.l2Read dst.domain)
  match ringFindInfoByAddr t dst.domain dst src.domain with
  | none => some ⟨-econnrefused, s.release (.l2Read dst.domain), []⟩
  | some r =>
    (insertInto s d dst.domain env t r len insert).map fun o =>
      { o with state := o.state.release (.l2Read dst.domain) }

/-- The body `v4v_send` and `v4v_sendv` share.  A refusal by XSM or by the firewall
returns without `put_domain`. -/
def sendWith (s : Hyp) (d : DomId) (src dst : Addr) (env : SendEnv) (len : UInt32)
    (insert : RingInfo → Option InsertOut) : Option SendOut :=
  let s := s.acquire .l1Read
  if s.v4v d = none then some ⟨-einval, s.release .l1Read, []⟩
  else
    match s.domains dst.domain with
    | none => some ⟨-econnrefused, s.release .l1Read, []⟩
    | some dstDom =>
      let s := s.acquire (.domainRef dst.domain)
      if env.xsmRefuses then some ⟨-econnrefused, s.release .l1Read, []⟩
      else if viptablesCheck s.viprules src dst then
        some ⟨-econnrefused, s.release .l1Read, []⟩
      else
        match dstDom.v4v with
        | none =>
          some ⟨-econnrefused, (s.release (.domainRef dst.domain)).release .l1Read, []⟩
        | some t =>
          (sendTo s d src dst env t len insert).map fun o =>
            { o with state := (o.state.release (.domainRef dst.domain)).release .l1Read }

/-- `v4v_send`. -/
def send (s : Hyp) (d : DomId) (src dst : Addr) (proto : UInt32) (env : SendEnv)
    (buf : GuestBuf) (len : UInt32) : Option SendOut :=
  sendWith s d src dst env len fun r => ringbufInsert r ⟨src.port, d⟩ proto buf len

/-- `v4v_sendv`.  Its test `len < 0` is on a `uint32_t` and never succeeds. -/
def sendv (s : Hyp) (d : DomId) (src dst : Addr) (proto : UInt32) (env : SendEnv)
    (first second : List (Option Iov)) : Option SendOut :=
  sendWith s d src dst env (iovLen first) fun r => ringbufSendv r ⟨src.port, d⟩ proto first second

/-! ## What a send can do

Later proofs go through this case list and not through the code above. -/

/-- The result of an insertion, and the ring with the entry for a later signal. -/
def queueSender (o : InsertOut) (d : DomId) (len : UInt32) (alloc : Bool) : Int × RingInfo :=
  if o.ret = -eagain then
    let q := pendingRequeue o.ring.pending d len alloc
    (if q.1 ≠ 0 then -enomem else o.ret, { o.ring with pending := q.2 })
  else (o.ret, o.ring)

/-- What a send makes of an insertion into ring `r` of domain `e`. -/
def insertedOut (s : Hyp) (d e : DomId) (env : SendEnv) (t : RingTable) (r : RingInfo)
    (len : UInt32) (o : InsertOut) : SendOut :=
  let p := queueSender o d len env.pendingAlloc
  let s' := s.setV4v e (some (ChainedHash.replace RingInfo.id hashFn t p.2))
  ⟨p.1, if 0 ≤ p.1 then s'.signalDomain e else s', [⟨r.id, d, o.ret⟩]⟩

/-- A send finds no way to the destination; or it is refused by XSM or the firewall, which leaves
the destination domain referenced; or it comes to an insertion. -/
inductive SendCase (s : Hyp) (d : DomId) (src dst : Addr) (env : SendEnv) (len : UInt32)
    (insert : RingInfo → Option InsertOut) : SendOut → Prop
  | noSender : s.v4v d = none → SendCase s d src dst env len insert ⟨-einval, s, []⟩
  | noDomain : s.domains dst.domain = none →
      SendCase s d src dst env len insert ⟨-econnrefused, s, []⟩
  | refused : s.v4v d ≠ none → s.domains dst.domain ≠ none →
      env.xsmRefuses = true ∨ viptablesCheck s.viprules src dst = true →
      SendCase s d src dst env len insert
        ⟨-econnrefused, s.acquire (.domainRef dst.domain), []⟩
  | noRing : ¬ (env.xsmRefuses = true ∨ viptablesCheck s.viprules src dst = true) →
      (∀ t, s.v4v dst.domain = some t → ringFindInfoByAddr t dst.domain dst src.domain = none) →
      SendCase s d src dst env len insert ⟨-econnrefused, s, []⟩
  | inserted {t : RingTable} {r : RingInfo} {o : InsertOut} : s.v4v d ≠ none →
      ¬ (env.xsmRefuses = true ∨ viptablesCheck s.viprules src dst = true) →
      s.v4v dst.domain = some t → ringFindInfoByAddr t dst.domain dst src.domain = some r →
      insert r = some o →
      SendCase s d src dst env len insert (insertedOut s d dst.domain env t r len o)

theorem insertedOut_acquire (s : Hyp) (l : Lock) (d e : DomId) (env : SendEnv) (t : RingTable)
    (r : RingInfo) (len : UInt32) (o : InsertOut) :
    insertedOut (s.acquire l) d e env t r len o =
      { insertedOut s d e env t r len o with
        state := (insertedOut s d e env t r len o).state.acquire l } := by
  simp only [insertedOut]
  split <;> rfl

theorem insertInto_eq {s : Hyp} {d e : DomId} {env : SendEnv} {t : RingTable} {r : RingInfo}
    {len : UInt32} {insert : RingInfo → Option InsertOut} {out : SendOut}
    (h : insertInto s d e env t r len insert = some out) :
    ∃ o, insert r = some o ∧ out = insertedOut s d e env t r len o := by
  obtain ⟨o, ho, rfl⟩ := Option.map_eq_some_iff.mp h
  refine ⟨o, ho, ?_⟩
  simp only [Hyp.acquire_setV4v, Hyp.release_acquire]
  rfl

theorem sendWith_cases {s : Hyp} {d : DomId} {src dst : Addr} {env : SendEnv} {len : UInt32}
    {insert : RingInfo → Option InsertOut} {out : SendOut}
    (h : sendWith s d src dst env len insert = some out) :
    SendCase s d src dst env len insert out := by
  rw [sendWith] at h
  dsimp only at h
  split at h
  · next hnone =>
    obtain rfl := Option.some.inj h
    rw [Hyp.release_acquire]
    exact .noSender hnone
  · next hv4v =>
    split at h
    · next hdom =>
      obtain rfl := Option.some.inj h
      rw [Hyp.release_acquire]
      exact .noDomain hdom
    · next dom hdom =>
      have hex : s.domains dst.domain ≠ none := by
        intro hnone
        cases hdom.symm.trans hnone
      have hdst : s.v4v dst.domain = dom.v4v := Hyp.v4v_of_domains hdom
      split at h
      · next hxsm =>
        obtain rfl := Option.some.inj h
        rw [Hyp.acquire_comm, Hyp.release_acquire]
        exact .refused hv4v hex (.inl hxsm)
      · next hxsm =>
        split at h
        · next hcheck =>
          obtain rfl := Option.some.inj h
          rw [Hyp.acquire_comm, Hyp.release_acquire]
          exact .refused hv4v hex (.inr hcheck)
        · next hcheck =>
          have hpass : ¬ (env.xsmRefuses = true ∨ viptablesCheck s.viprules src dst = true) :=
            fun href => href.elim hxsm hcheck
          split at h
          · next hnone =>
            obtain rfl := Option.some.inj h
            rw [Hyp.release_acquire, Hyp.release_acquire]
            refine .noRing hpass fun t ht => ?_
            cases (hdst.trans hnone).symm.trans ht
          · next t ht =>
            obtain ⟨o, ho, rfl⟩ := Option.map_eq_some_iff.mp h
            rw [sendTo] at ho
            split at ho
            · next hnone =>
              obtain rfl := Option.some.inj ho
              simp only [Hyp.release_acquire]
              refine .noRing hpass fun t' ht' => ?_
              obtain rfl := Option.some.inj ((hdst.trans ht).symm.trans ht')
              exact hnone
            · next r hfind =>
              obtain ⟨o₁, ho₁, rfl⟩ := Option.map_eq_some_iff.mp ho
              obtain ⟨o, hins, rfl⟩ := insertInto_eq ho₁
              -- the locks are given back in the order they were taken
              simp only [insertedOut_acquire, Hyp.release_acquire]
              exact .inserted hv4v hpass (hdst.trans ht) hfind hins

end V4v
