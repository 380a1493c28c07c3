import LegacyV4v.TableEffects

/-! # Are locks and references given back?

A hypercall takes L1, up to two locks below it, and references on domains, and has many
early exits.  Two of them miss a release: a send that XSM or the firewall refuses keeps its
reference on the destination, and a failed re-registration keeps R(L2) of the caller.
Everywhere else the counts are the same behind the call as before it. -/
namespace V4v
open ChainedHash GuardedRun

/-- The call returns with `l` held once more than before. -/
def Leaks (s : Hyp) (d : DomId) (l : Lock) : V4vOp → Prop
  | .registerRing a =>
    (a.ringOkay = true ∧ a.pfnListOkay = true) ∧ Strands s d a ∧ l = .l2Read d
  | .send a => ∃ src dst, copyAddrs a.srcOkay a.src a.dstOkay a.dst = some (src, dst) ∧
    Refused s d src dst a.env ∧ l = .domainRef dst.domain
  | .sendv a => ∃ src dst, copyAddrs a.srcOkay a.src a.dstOkay a.dst = some (src, dst) ∧
    a.iovsOkay = true ∧ Refused s d src dst a.env ∧ l = .domainRef dst.domain
  | _ => False

section
variable {s : Hyp} {d : DomId} {op : V4vOp}

/-- A call whose arguments cannot be read leaks nothing. -/
theorem V4vOp.Inert.not_leaks (h : op.Inert) (l : Lock) : ¬ Leaks s d l op := by
  cases op with
  | registerRing a => exact fun hl => h hl.1
  | send a =>
    rintro ⟨src, dst, haddrs, _⟩
    cases haddrs.symm.trans h
  | sendv a =>
    rintro ⟨src, dst, haddrs, hiovs, _⟩
    rcases h with hnone | hnot
    · cases haddrs.symm.trans hnone
    · exact hnot hiovs
  | _ => exact id

/-- What a send leaves held. -/
theorem SendEffect.holds_cases {src dst : Addr} {env : SendEnv}
    {insert : RingInfo → Option InsertOut} {out : SendOut}
    (h : SendEffect s d src dst env insert out) :
    (Refused s d src dst env ∧ out.state.holds = (s.acquire (.domainRef dst.domain)).holds) ∨
      (¬ Refused s d src dst env ∧ out.state.holds = s.holds) := by
  cases h with
  | unreached hnot _ _ _ _ hholds => exact Or.inr ⟨hnot, hholds⟩
  | refused href _ _ _ hholds => exact Or.inl ⟨href, hholds⟩
  | reached _ hnot _ _ _ _ _ _ _ hholds => exact Or.inr ⟨hnot, hholds⟩

/-- What a registration leaves held. -/
theorem AddEffect.holds_cases {a : RegisterArgs} {ret : Int} {s' : Hyp}
    (h : AddEffect s d a ret s') :
    (Strands s d a ∧ s'.holds = (s.acquire (.l2Read d)).holds) ∨
      (¬ Strands s d a ∧ s'.holds = s.holds) := by
  cases h with
  | refused hnot _ _ hholds => exact Or.inr ⟨hnot, hholds⟩
  | stranded hstrands _ _ _ hholds => exact Or.inl ⟨hstrands, hholds⟩
  | again _ _ hnot _ _ _ _ _ _ _ hholds => exact Or.inr ⟨hnot, hholds⟩
  | added _ _ hnot _ _ _ _ _ _ _ hholds => exact Or.inr ⟨hnot, hholds⟩

/-- A command leaks one lock or none. -/
theorem OpEffect.holds_cases {o : OpOut} (h : OpEffect s d op o) :
    (∃ l, Leaks s d l op ∧ o.state.holds = (s.acquire l).holds) ∨
      ((∀ l, ¬ Leaks s d l op) ∧ o.state.holds = s.holds) := by
  cases h with
  | inert hinert _ _ hholds => exact Or.inr ⟨hinert.not_leaks, hholds⟩
  | register hokay hadd =>
    rcases hadd.holds_cases with ⟨hstrands, hholds⟩ | ⟨hnot, hholds⟩
    · exact Or.inl ⟨_, ⟨hokay, hstrands, rfl⟩, hholds⟩
    · exact Or.inr ⟨fun l hl => hnot hl.2.1, hholds⟩
  | unregister hrem =>
    refine Or.inr ⟨fun _ => id, ?_⟩
    cases hrem with
    | refused _ _ hholds => exact hholds
    | removed _ _ _ _ _ hholds => exact hholds
  | send haddrs hsend =>
    rcases hsend.holds_cases with ⟨href, hholds⟩ | ⟨hnot, hholds⟩
    · exact Or.inl ⟨_, ⟨_, _, haddrs, href, rfl⟩, hholds⟩
    · refine Or.inr ⟨?_, hholds⟩
      rintro l ⟨src, dst, haddrs', href, _⟩
      cases haddrs.symm.trans haddrs'
      exact hnot href
  | sendv haddrs hiovs hsend =>
    rcases hsend.holds_cases with ⟨href, hholds⟩ | ⟨hnot, hholds⟩
    · exact Or.inl ⟨_, ⟨_, _, haddrs, hiovs, href, rfl⟩, hholds⟩
    · refine Or.inr ⟨?_, hholds⟩
      rintro l ⟨src, dst, haddrs', _, href, _⟩
      cases haddrs.symm.trans haddrs'
      exact hnot href
  | notify _ hholds => exact Or.inr ⟨fun _ => id, hholds⟩

/-- The lock of the whole call does not matter for what leaks. -/
theorem leaks_acquire {l k : Lock} : Leaks (s.acquire k) d l op ↔ Leaks s d l op := by
  cases op <;> exact Iff.rfl

/-- A lock that is held once more shows in the counts. -/
theorem Hyp.acquire_holds_ne (s : Hyp) (l : Lock) : (s.acquire l).holds ≠ s.holds := by
  intro h
  have hl := congrFun h l
  simp only [Hyp.acquire, if_true] at hl
  omega

/-- What a whole hypercall leaves held, behind `domain_unlock`. -/
theorem OpEffect.unlocked_holds_cases {o : OpOut}
    (h : OpEffect (s.acquire (.domainLock d)) d op o) :
    (∃ l, Leaks s d l op ∧ (o.state.release (.domainLock d)).holds = (s.acquire l).holds) ∨
      ((∀ l, ¬ Leaks s d l op) ∧ (o.state.release (.domainLock d)).holds = s.holds) := by
  rcases h.holds_cases with ⟨l, hleak, hholds⟩ | ⟨hnot, hholds⟩
  · refine Or.inl ⟨l, leaks_acquire.mp hleak, ?_⟩
    exact Hyp.release_holds (hholds.trans (congrArg Hyp.holds (s.acquire_comm _ _)))
  · exact Or.inr ⟨fun l hl => hnot l (leaks_acquire.mpr hl), Hyp.release_holds hholds⟩

theorem doV4vOp_holds_cases {o : OpOut} (h : doV4vOp s d op = some o) :
    (∃ l, Leaks s d l op ∧ o.state.holds = (s.acquire l).holds) ∨
      ((∀ l, ¬ Leaks s d l op) ∧ o.state.holds = s.holds) := by
  obtain ⟨o', heff, rfl⟩ := doV4vOp_effect h
  exact heff.unlocked_holds_cases

/-- **When a hypercall is balanced.**  Every lock and every domain reference is held as
often behind the call as before it, exactly when the call is none of the two that leak: a
send that XSM or the firewall refuses, and a registration that strands its ring. -/
theorem doV4vOp_balanced_iff {o : OpOut} (h : doV4vOp s d op = some o) :
    o.state.holds = s.holds ↔ ∀ l, ¬ Leaks s d l op := by
  rcases doV4vOp_holds_cases h with ⟨l, hleak, hholds⟩ | ⟨hnot, hholds⟩
  · rw [hholds]
    exact iff_of_false (s.acquire_holds_ne l) fun hnot => hnot l hleak
  · exact iff_of_true hholds hnot

end

/-- Domains 1 and 2; domain 0 sets up the firewall with these rules. -/
def twoDomains (rules : List Rule) : Hyp :=
  Hyp.after (.create 0 true true :: .create 1 false true :: .create 2 false true ::
    rules.map fun rule => .hypercall 0 (.viptablesAdd true (some rule) 1))

/-- Domain 1 sends nothing to port 5 of domain 2. -/
def sendEmpty : V4vOp :=
  .send ⟨true, some ⟨7, 1⟩, true, some ⟨5, 2⟩, 0, ⟨false, true⟩, .ofBytes [], 0⟩

/-- A send to a port nobody listens on is balanced. -/
theorem sendEmpty_balanced : ∃ o, doV4vOp (twoDomains []) 1 sendEmpty = some o ∧
    o.ret = -econnrefused ∧ o.state.holds = (twoDomains []).holds := by
  have hret : (doV4vOp (twoDomains []) 1 sendEmpty).map OpOut.ret = some (-econnrefused) := by
    decide
  obtain ⟨o, ho, hret⟩ := Option.map_eq_some_iff.mp hret
  refine ⟨o, ho, hret, (doV4vOp_balanced_iff ho).mpr ?_⟩
  rintro l ⟨src, dst, haddrs, href, _⟩
  cases haddrs
  rcases href.2.2 with hxsm | hcheck
  · cases hxsm
  · exact absurd hcheck (by decide)

/-- A rule against all messages. -/
def refuseAll : Rule := ⟨⟨anyPort, domidInvalid⟩, ⟨anyPort, domidInvalid⟩, 0⟩

/-- If the firewall refuses the message, domain 2 stays referenced. -/
theorem sendEmpty_refused_not_balanced : ¬ ∀ s : Hyp, s.Reachable → ∀ d op o,
    doV4vOp s d op = some o → o.state.holds = s.holds := by
  intro hall
  have hrun : (doV4vOp (twoDomains [refuseAll]) 1 sendEmpty).map (fun o =>
      (o.state.holds (.domainRef 2), (twoDomains [refuseAll]).holds (.domainRef 2))) =
      some (1, 0) := by decide
  obtain ⟨o, ho, heq⟩ := Option.map_eq_some_iff.mp hrun
  obtain ⟨hone, hzero⟩ := Prod.mk.inj heq
  have hsame := hall (twoDomains [refuseAll]) (Hyp.after_reachable _) 1 sendEmpty o ho
  rw [hsame, hzero] at hone
  exact absurd hone (by decide)

/-! ## Whole runs -/

/-- A domain that comes up finds its own locks fresh and the others as they were. -/
theorem init_holds (s : Hyp) (d : DomId) : (init s d true).2.holds =
    fun k => if k = Lock.l2Read d ∨ k = Lock.l2Write d then 0 else s.holds k :=
  Hyp.release_holds rfl

theorem createDomain_holds {s s' : Hyp} {d : DomId} {priv alloc : Bool}
    (h : createDomain s d priv alloc = some s') (hs : s.holds = fun _ => 0) :
    s'.holds = fun _ => 0 := by
  unfold createDomain at h
  split at h
  · cases h
  · obtain rfl := Option.some.inj h
    cases alloc with
    | false => exact hs
    | true =>
      rw [if_pos (show (init _ d true).1 = 0 from rfl), init_holds, hs]
      exact funext fun k => ite_self 0

theorem removeRings_holds (l : List RingInfo) (s : Hyp) :
    (l.foldl ringRemoveMfns s).holds = s.holds := by
  induction l generalizing s with
  | nil => rfl
  | cons r l ih => exact (ih _).trans (ringRemoveMfns_frame s r).2

theorem killDomain_holds {s s' : Hyp} {d : DomId} (h : killDomain s d = some s') :
    s'.holds = s.holds := by
  unfold killDomain at h
  split at h
  · cases h
  · unfold destroy at h
    dsimp only at h
    rw [Function.update_self] at h
    dsimp only [Bool.not_true] at h
    rw [if_neg (by decide)] at h
    obtain rfl := Option.some.inj h
    split
    · exact Hyp.release_holds rfl
    · exact Hyp.release_holds (removeRings_holds _ _)

/-- The action is not a call that leaks. -/
def Balanced (s : Hyp) : Act → Prop
  | .hypercall d op => ∀ l, ¬ Leaks s d l op
  | _ => True

/-- In a run without leaking calls nothing is held between two actions. -/
theorem nothing_held_of_run {es : List Event} {s : Hyp} (h : Hyp.Runs Balanced es s) :
    s.holds = fun _ => 0 := by
  have hboot : Hyp.boot.holds = fun _ => 0 := rfl
  refine h.invariant (P := fun s => s.holds = fun _ => 0) hboot
    fun s act e s' hs hok hstep => ?_
  cases step_effect hstep with
  | hypercall heff =>
    rcases heff.unlocked_holds_cases with ⟨l, hleak, _⟩ | ⟨_, hholds⟩
    · exact absurd hleak (hok l)
    · exact hholds.trans hs
  | guestWrite _ hholds => exact hholds.trans hs
  | create hcreate => exact createDomain_holds hcreate hs
  | kill hkill => exact (killDomain_holds hkill).trans hs

end V4v
