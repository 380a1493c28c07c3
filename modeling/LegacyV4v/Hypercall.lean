import LegacyV4v.GuardedRun
import LegacyV4v.RingRegister
import LegacyV4v.Send

/-! # The hypercall and the system around it

`do_v4v_op` with all its commands, and the system it is part of: any number of domains
that issue hypercalls, write to the pages they share with Xen, and are created and
killed.  The system takes one such action at a time. -/
namespace V4v
open MachineWord GuardedRun

/-- The arguments of `V4VOP_send`: whether the two address handles pass
`guest_handle_okay`, the addresses (`none` if they cannot be copied), and the rest. -/
structure SendArgs where
  srcOkay : Bool
  src : Option Addr
  dstOkay : Bool
  dst : Option Addr
  proto : UInt32
  env : SendEnv
  buf : GuestBuf
  len : UInt32

/-- The arguments of `V4VOP_sendv`, with the arrays its two reads see. -/
structure SendvArgs where
  srcOkay : Bool
  src : Option Addr
  dstOkay : Bool
  dst : Option Addr
  iovsOkay : Bool
  proto : UInt32
  env : SendEnv
  first : List (Option Iov)
  second : List (Option Iov)

/-- The commands of `do_v4v_op`; `other` is any number it does not know. -/
inductive V4vOp where
  | registerRing (a : RegisterArgs)
  | unregisterRing (a : UnregisterArgs)
  | send (a : SendArgs)
  | sendv (a : SendvArgs)
  | notify (data : Option RingData)
  | viptablesAdd (alloc : Bool) (rule : Option Rule) (position : UInt32)
  | viptablesDel (alloc : Bool) (rule : Option (Option Rule)) (position : UInt32)
  | viptablesList (nbRules : Option UInt32) (written : Bool)
  | other

/-- What a hypercall returns: its result, the state behind it, the insertions it made, and
the flags or rules it answers with. -/
structure OpOut where
  ret : Int
  state : Hyp
  inserted : List Insertion
  flags : List UInt16
  rules : List Rule

/-- A result without answers. -/
def OpOut.plain (p : Int × Hyp) : OpOut := ⟨p.1, p.2, [], [], []⟩

/-- The two addresses of a send are copied in before anything else. -/
def copyAddrs (srcOkay : Bool) (src : Option Addr) (dstOkay : Bool) (dst : Option Addr) :
    Option (Addr × Addr) :=
  if !srcOkay then none
  else
    match src with
    | none => none
    | some src => if !dstOkay then none else dst.map fun dst => (src, dst)

/-- The commands of `do_v4v_op`, between `domain_lock` and `domain_unlock`. -/
def dispatch (s : Hyp) (d : DomId) (priv : Bool) : V4vOp → Option OpOut
  | .registerRing a =>
    if !a.ringOkay || !a.pfnListOkay then some (.plain (-efault, s))
    else some (.plain (ringAdd s d a))
  | .unregisterRing a =>
    if !a.ringOkay then some (.plain (-efault, s)) else some (.plain (ringRemove s d a))
  | .send a =>
    match copyAddrs a.srcOkay a.src a.dstOkay a.dst with
    | none => some (.plain (-efault, s))
    | some (src, dst) =>
      (V4v.send s d src dst a.proto a.env a.buf a.len).map fun o =>
        ⟨o.ret, o.state, o.inserted, [], []⟩
  | .sendv a =>
    match copyAddrs a.srcOkay a.src a.dstOkay a.dst with
    | none => some (.plain (-efault, s))
    | some (src, dst) =>
      if !a.iovsOkay then some (.plain (-efault, s))
      else
        (V4v.sendv s d src dst a.proto a.env a.first a.second).map fun o =>
          ⟨o.ret, o.state, o.inserted, [], []⟩
  | .notify data =>
    (V4v.notify s d data).map fun p => ⟨p.1, p.2.2, [], p.2.1, []⟩
  | .viptablesAdd alloc rule position =>
    if !priv then some (.plain (-eperm, s))
    else
      (V4v.viptablesAdd s.viprules alloc rule (i32 position.toNat)).map fun p =>
        .plain (p.1, { s with viprules := p.2 })
  | .viptablesDel alloc rule position =>
    if !priv then some (.plain (-eperm, s))
    else
      (V4v.viptablesDel s.viprules alloc rule (i32 position.toNat)).map fun p =>
        .plain (p.1, { s with viprules := p.2 })
  | .viptablesList nbRules written =>
    if !priv then some (.plain (-eperm, s))
    else
      let p := V4v.viptablesList s.viprules nbRules written
      some ⟨p.1, s, [], [], p.2.getD []⟩
  | .other => some (.plain (-enosys, s))

/-- `do_v4v_op`, called by domain `d`.  `none` if there is no such domain, or if Xen does
not survive the call. -/
def doV4vOp (s : Hyp) (d : DomId) (op : V4vOp) : Option OpOut :=
  match s.domains d with
  | none => none
  | some dom =>
    (dispatch (s.acquire (.domainLock d)) d dom.isPrivileged op).map fun o =>
      { o with state := o.state.release (.domainLock d) }

/-- A send either fails to copy its addresses, or is `v4v_send`. -/
theorem dispatch_send {s : Hyp} {d : DomId} {priv : Bool} {a : SendArgs} {o : OpOut}
    (h : dispatch s d priv (.send a) = some o) :
    (copyAddrs a.srcOkay a.src a.dstOkay a.dst = none ∧ o = .plain (-efault, s)) ∨
    ∃ src dst out, copyAddrs a.srcOkay a.src a.dstOkay a.dst = some (src, dst) ∧
      V4v.send s d src dst a.proto a.env a.buf a.len = some out ∧
      o = ⟨out.ret, out.state, out.inserted, [], []⟩ := by
  rw [dispatch] at h
  split at h
  · next haddrs => exact .inl ⟨haddrs, (Option.some.inj h).symm⟩
  · next src dst haddrs =>
    obtain ⟨out, hout, rfl⟩ := Option.map_eq_some_iff.mp h
    exact .inr ⟨src, dst, out, haddrs, hout, rfl⟩

theorem dispatch_sendv {s : Hyp} {d : DomId} {priv : Bool} {a : SendvArgs} {o : OpOut}
    (h : dispatch s d priv (.sendv a) = some o) :
    ((copyAddrs a.srcOkay a.src a.dstOkay a.dst = none ∨ ¬ a.iovsOkay = true) ∧
      o = .plain (-efault, s)) ∨
    ∃ src dst out, copyAddrs a.srcOkay a.src a.dstOkay a.dst = some (src, dst) ∧
      a.iovsOkay = true ∧ V4v.sendv s d src dst a.proto a.env a.first a.second = some out ∧
      o = ⟨out.ret, out.state, out.inserted, [], []⟩ := by
  rw [dispatch] at h
  split at h
  · next haddrs => exact .inl ⟨.inl haddrs, (Option.some.inj h).symm⟩
  · next src dst haddrs =>
    split at h
    · next hiovs => exact .inl ⟨.inr (by simpa using hiovs), (Option.some.inj h).symm⟩
    · next hiovs =>
      obtain ⟨out, hout, rfl⟩ := Option.map_eq_some_iff.mp h
      exact .inr ⟨src, dst, out, haddrs, by simpa using hiovs, hout, rfl⟩

theorem doV4vOp_dispatch {s : Hyp} {d : DomId} {op : V4vOp} {o : OpOut}
    (h : doV4vOp s d op = some o) : ∃ priv o',
      dispatch (s.acquire (.domainLock d)) d priv op = some o' ∧
      o = { o' with state := o'.state.release (.domainLock d) } := by
  rw [doV4vOp] at h
  split at h
  · cases h
  · next dom _ =>
    obtain ⟨o', ho', rfl⟩ := Option.map_eq_some_iff.mp h
    exact ⟨dom.isPrivileged, o', ho', rfl⟩

/-! ## The system -/

/-- One action: a hypercall, the owner of a ring writing to its pages, or a domain being
created (its `v4v_init` may fail) or killed. -/
inductive Act where
  | hypercall (d : DomId) (op : V4vOp)
  | guestWrite (id : RingId) (mem : PageMem)
  | create (d : DomId) (priv alloc : Bool)
  | kill (d : DomId)

/-- What an action shows. -/
inductive Event where
  | returned (d : DomId) (op : V4vOp) (ret : Int) (inserted : List Insertion)
  | wrote (id : RingId)
  | created (d : DomId)
  | killed (d : DomId)

/-- The owner writes its pages: whatever they held, `mem` is in them now. -/
def guestWrite (s : Hyp) (id : RingId) (mem : PageMem) : Option Hyp :=
  (s.v4v id.addr.domain).bind fun t =>
    (ringFindInfo t id).map fun r =>
      s.setV4v id.addr.domain
        (some (ChainedHash.replace RingInfo.id hashFn t { r with mem := mem }))

/-- `domain_create`, as far as v4v goes: a domain whose `v4v_init` fails does not come to
be. -/
def createDomain (s : Hyp) (d : DomId) (priv alloc : Bool) : Option Hyp :=
  match s.domains d with
  | some _ => none
  | none =>
    let s' := { s with domains := Function.update s.domains d (some ⟨priv, false, none⟩) }
    let p := init s' d alloc
    some (if p.1 = 0 then p.2 else s)

/-- `domain_kill`, as far as v4v goes: the domain is marked and its rings are removed. -/
def killDomain (s : Hyp) (d : DomId) : Option Hyp :=
  match s.domains d with
  | none => none
  | some dom =>
    let dying := some { dom with isDying := true }
    destroy { s with domains := Function.update s.domains d dying } d

/-- One action of the system. -/
def Hyp.step (s : Hyp) : Act → Option (Event × Hyp)
  | .hypercall d op => (doV4vOp s d op).map fun o => (.returned d op o.ret o.inserted, o.state)
  | .guestWrite id mem => (guestWrite s id mem).map fun s => (.wrote id, s)
  | .create d priv alloc => (createDomain s d priv alloc).map fun s => (.created d, s)
  | .kill d => (killDomain s d).map fun s => (.killed d, s)

theorem Hyp.step_hypercall {s s' : Hyp} {d : DomId} {op : V4vOp} {e : Event}
    (h : s.step (.hypercall d op) = some (e, s')) : ∃ priv o,
      dispatch (s.acquire (.domainLock d)) d priv op = some o ∧
      e = .returned d op o.ret o.inserted ∧ s' = o.state.release (.domainLock d) := by
  obtain ⟨o, ho, heq⟩ := Option.map_eq_some_iff.mp h
  obtain ⟨rfl, rfl⟩ := Prod.mk.inj heq
  obtain ⟨priv, o', ho', rfl⟩ := doV4vOp_dispatch ho
  exact ⟨priv, o', ho', rfl, rfl⟩

/-- The state Xen boots with: no domains, no rules, nothing held. -/
def Hyp.boot : Hyp := ⟨fun _ => none, [], fun _ => 0, fun _ => 0, fun _ => 0, []⟩

/-- The runs of the system from boot whose actions satisfy `ok`. -/
def Hyp.Runs (ok : Hyp → Act → Prop) (es : List Event) (s : Hyp) : Prop :=
  Run Hyp.step ok Hyp.boot es s

/-- The states the system can reach. -/
def Hyp.Reachable (s : Hyp) : Prop := ∃ es, Hyp.Runs (fun _ _ => True) es s

/-- The state behind a list of actions, or the one at boot if Xen does not survive them. -/
def Hyp.after (acts : List Act) : Hyp :=
  ((exec Hyp.step Hyp.boot acts).map Prod.snd).getD Hyp.boot

theorem Hyp.after_reachable (acts : List Act) : (Hyp.after acts).Reachable := by
  unfold Hyp.after
  cases h : exec Hyp.step Hyp.boot acts with
  | none => exact ⟨[], .start⟩
  | some p => exact ⟨p.1, run_of_exec h fun _ _ _ => trivial⟩

end V4v
