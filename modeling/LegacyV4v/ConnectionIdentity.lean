import LegacyV4v.ListenerIsolation
import LegacyV4v.StreamDriver
import Mathlib.Data.List.Nodup

/-! # Two connections that cannot be told apart

A message finds its connection by the peer's address and the connection id, so at a listener
no two accepted sockets should share both.  `listener_interrupt` looks through the accepted
sockets before it queues a SYN.  It does not look through the SYNs that wait already, nor at
the one that a thread in `v4v_accept` has just taken off the list.  A peer that repeats its SYN
before the first has become a socket gets two sockets: the messages of the connection all go
to the one accepted later, and the other, which answered first, never sees any.

If every SYN that is queued is a fresh one, the identities of all requests, pending, taken or
accepted, stay distinct. -/
namespace V4v.Linux
open GuardedRun MachineWord

/-! ## Identities -/

/-- What identifies a connection among those of a ring. -/
def Sock.identity (p : Sock) : Addr × UInt32 := (p.peer, p.conid)

/-- The connection that an entry asks for. -/
def PendingRecv.identity (e : PendingRecv) : Addr × UInt32 := (e.source, e.sh.conid)

/-- The entry is a SYN that `v4v_accept` answers. -/
def PendingRecv.isRequest (e : PendingRecv) : Bool := e.data == [] && e.sh.has shfSyn

/-- The connections that have been asked for and wait for `v4v_accept`. -/
def Ring.requests (r : Ring) : List (Addr × UInt32) :=
  (r.waiting.filter PendingRecv.isRequest).map PendingRecv.identity

/-- The connections that have been accepted. -/
def Ring.accepted (r : Ring) : List (Addr × UInt32) := r.privates.map Sock.identity

theorem Sock.isPeer_iff {p : Sock} {source : Addr} {conid : UInt32} :
    p.isPeer source conid = true ↔ p.identity = (source, conid) := by
  rw [Sock.isPeer, Sock.identity, Bool.and_eq_true, beq_iff_eq, beq_iff_eq, Prod.mk.injEq]
  exact and_comm

theorem requests_sublist {r r' : Ring} (h : r'.waiting.Sublist r.waiting) :
    r'.requests.Sublist r.requests :=
  (h.filter _).map _

/-! ## Delivery -/

/-- If no other accepted socket has its identity, the socket gets the message. -/
theorem listenerInterrupt_delivers {r : Ring} {m : Message} {rest : List Message}
    {sh : StreamHeader} {data : List UInt8} {p : Sock} (mem : Option Nat)
    (hq : r.queue = m :: rest) (hpeek : peekHeader m = some (sh, data)) (hp : p ∈ r.privates)
    (hpeer : p.isPeer m.source sh.conid = true) (hnd : r.accepted.Nodup) :
    ∃ l₁ l₂, r.privates = l₁ ++ p :: l₂ ∧ (listenerInterrupt r mem).ring.privates =
      l₁ ++ (acceptorInterrupt r.id p m rest sh data mem).sock :: l₂ := by
  rw [listenerInterrupt, hq]
  dsimp only
  rw [hpeek]
  dsimp only
  split
  · next o privates hfirst =>
    obtain ⟨l₁, q, l₂, hpriv, -, hq, -, rfl⟩ := onFirst_eq_some hfirst
    have hsame : q = p := by
      apply List.inj_on_of_nodup_map hnd (by simp [hpriv]) hp
      rw [Sock.isPeer_iff.mp hq, Sock.isPeer_iff.mp hpeer]
    subst hsame
    exact ⟨l₁, l₂, hpriv, rfl⟩
  · next hfirst =>
    have hno := onFirst_eq_none hfirst p hp
    rw [hpeer] at hno
    cases hno

/-! ## A listener's ring -/

/-- What can happen at the ring of a listener: a message arrives, `listener_interrupt` is called,
or a call on one of the ring's sockets goes on. -/
inductive ListenAct where
  | arrive (m : Message)
  | interrupt (mem : Option Nat)
  | call (a : EndAct)

namespace Endpoint

/-- One step. -/
inductive ListenStep (E : Endpoint) : ListenAct → Endpoint → Prop
  | arrive {m : Message} : ListenStep E (.arrive m)
      { E with ring := { E.ring with queue := E.ring.queue ++ [m] } }
  | interrupt {mem : Option Nat} : ListenStep E (.interrupt mem)
      { E with ring := (listenerInterrupt E.ring mem).ring }
  | call {a : EndAct} {E' : Endpoint} : E.Step a E' → ListenStep E (.call a) E'

/-- Nothing has been asked for, and nothing accepted. -/
def Unasked (E : Endpoint) : Prop :=
  E.ring.privates = [] ∧ E.ring.requests = [] ∧ ∀ t, E.accepts t = none

/-- The SYN that `listener_interrupt` adds to the pending list is a fresh one: no SYN of its
identity waits there, and no thread in `v4v_accept` has taken one. -/
def FreshRequest (E : Endpoint) : ListenAct → Prop
  | .interrupt mem => ∀ m rest sh p, E.ring.queue = m :: rest → peekHeader m = some (sh, []) →
    (∀ q ∈ E.ring.privates, q.isPeer m.source sh.conid = false) → sh.has shfRst = false →
    sh.has shfSyn = true → E.ring.sponsor = some p → ¬ p.pendingRecv.length > maxPendingRecvs →
    mem ≠ some 0 → (m.source, sh.conid) ∉ E.ring.requests ∧
      ∀ t e, E.accepts t = some (.taken e) → e.identity ≠ (m.source, sh.conid)
  | _ => True

/-- **The invariant.** -/
structure Identified (E : Endpoint) : Prop where
  nodup : (E.ring.requests ++ E.ring.accepted).Nodup
  taken : ∀ t e, E.accepts t = some (.taken e) →
    e.identity ∉ E.ring.requests ++ E.ring.accepted
  apart : ∀ t t' e e', E.accepts t = some (.taken e) → E.accepts t' = some (.taken e') →
    e.identity = e'.identity → t = t'

theorem Identified.of_unasked {E : Endpoint} (h : E.Unasked) : E.Identified := by
  obtain ⟨hpriv, hreq, hnone⟩ := h
  refine ⟨by simp [Ring.accepted, hpriv, hreq], ?_, ?_⟩
  · intro t e ht
    rw [hnone t] at ht
    cases ht
  · intro t t' e e' ht
    rw [hnone t] at ht
    cases ht

/-- Nothing new is asked for, taken or accepted. -/
theorem Identified.sublist {E E' : Endpoint} (h : E.Identified)
    (hreq : E'.ring.requests.Sublist E.ring.requests)
    (hacc : E'.ring.accepted.Sublist E.ring.accepted)
    (htaken : ∀ t e, E'.accepts t = some (.taken e) → E.accepts t = some (.taken e)) :
    E'.Identified := by
  have hsub := hreq.append hacc
  refine ⟨h.nodup.sublist hsub, ?_, ?_⟩
  · intro t e ht hmem
    exact h.taken t e (htaken t e ht) (hsub.subset hmem)
  · intro t t' e e' ht ht'
    exact h.apart t t' e e' (htaken t e ht) (htaken t' e' ht')

/-- The ring keeps what waits and what is accepted, and so do the threads. -/
theorem Identified.of_same {E E' : Endpoint} (h : E.Identified)
    (hreq : E'.ring.requests = E.ring.requests) (hacc : E'.ring.accepted = E.ring.accepted)
    (htaken : E'.accepts = E.accepts) : E'.Identified :=
  h.sublist (hreq ▸ List.Sublist.refl _) (hacc ▸ List.Sublist.refl _) fun _ _ ht => htaken ▸ ht

/-- One more SYN waits. -/
theorem Identified.request {E E' : Endpoint} {id : Addr × UInt32} (h : E.Identified)
    (hreq : E'.ring.requests = E.ring.requests ++ [id]) (hacc : E'.ring.accepted = E.ring.accepted)
    (haccepts : E'.accepts = E.accepts) (hnew : id ∉ E.ring.requests ++ E.ring.accepted)
    (htaken : ∀ t e, E.accepts t = some (.taken e) → e.identity ≠ id) : E'.Identified := by
  have hperm : (E'.ring.requests ++ E'.ring.accepted).Perm
      (id :: (E.ring.requests ++ E.ring.accepted)) := by
    rw [hreq, hacc, List.append_assoc]
    exact List.perm_middle
  refine ⟨?_, ?_, ?_⟩
  · exact hperm.nodup_iff.mpr (List.nodup_cons.mpr ⟨hnew, h.nodup⟩)
  · intro t e ht hmem
    rw [haccepts] at ht
    rcases List.mem_cons.mp (hperm.mem_iff.mp hmem) with hid | hmem
    · exact htaken t e ht hid
    · exact h.taken t e ht hmem
  · rw [haccepts]
    exact h.apart

theorem update_some {β : Type} {f : Nat → Option β} {t t' : Nat} {a : Option β} {b : β}
    (h : Function.update f t a t' = some b) :
    t' = t ∧ a = some b ∨ t' ≠ t ∧ f t' = some b := by
  by_cases hne : t' = t
  · rw [hne, Function.update_self] at h
    exact .inl ⟨hne, h⟩
  · rw [Function.update_of_ne hne] at h
    exact .inr ⟨hne, h⟩

/-- Thread `t` takes the first SYN that waits. -/
theorem Identified.take {E E' : Endpoint} {t : Nat} {e : PendingRecv} (h : E.Identified)
    (hreq : E.ring.requests = e.identity :: E'.ring.requests)
    (hacc : E'.ring.accepted = E.ring.accepted)
    (haccepts : E'.accepts = Function.update E.accepts t (some (.taken e))) : E'.Identified := by
  have hnd := h.nodup
  rw [hreq, List.cons_append, List.nodup_cons] at hnd
  have hother : ∀ t' e', E.accepts t' = some (.taken e') → e'.identity ≠ e.identity := by
    intro t' e' ht' hid
    apply h.taken t' e' ht'
    rw [hreq, hid]
    exact List.mem_cons_self
  have hupd : ∀ t' e', E'.accepts t' = some (.taken e') →
      t' = t ∧ e' = e ∨ E.accepts t' = some (.taken e') := by
    intro t' e' ht'
    rw [haccepts] at ht'
    rcases update_some ht' with ⟨ht, he⟩ | ⟨-, hold⟩
    · cases he
      exact .inl ⟨ht, rfl⟩
    · exact .inr hold
  refine ⟨?_, ?_, ?_⟩
  · rw [hacc]
    exact hnd.2
  · intro t' e' ht' hmem
    rw [hacc] at hmem
    rcases hupd t' e' ht' with ⟨-, rfl⟩ | ht'
    · exact hnd.1 hmem
    · apply h.taken t' e' ht'
      rw [hreq]
      exact List.mem_cons_of_mem _ hmem
  · intro t₁ t₂ e₁ e₂ h₁ h₂ hid
    rcases hupd t₁ e₁ h₁ with ⟨ht₁, he₁⟩ | hold₁
    · rcases hupd t₂ e₂ h₂ with ⟨ht₂, -⟩ | hold₂
      · exact ht₁.trans ht₂.symm
      · exact absurd (hid.symm.trans (congrArg _ he₁)) (hother t₂ e₂ hold₂)
    · rcases hupd t₂ e₂ h₂ with ⟨-, he₂⟩ | hold₂
      · exact absurd (hid.trans (congrArg _ he₂)) (hother t₁ e₁ hold₁)
      · exact h.apart t₁ t₂ e₁ e₂ hold₁ hold₂ hid

/-! ## One step -/

theorem identified_interrupt {E : Endpoint} {mem : Option Nat} (h : E.Identified)
    (hok : E.FreshRequest (.interrupt mem)) :
    Identified { E with ring := (listenerInterrupt E.ring mem).ring } := by
  cases hq : E.ring.queue with
  | nil =>
    have hsame : (listenerInterrupt E.ring mem).ring = E.ring := by rw [listenerInterrupt, hq]
    exact h.of_same (by rw [hsame]) (by rw [hsame]) rfl
  | cons m rest =>
    have hcase := listener_cases hq mem
    generalize listenerInterrupt E.ring mem = o at hcase
    cases hcase with
    | binned | dropped | unknown => exact h.of_same rfl rfl rfl
    | @acceptor sh data l₁ l₂ p o hpeek hpriv hl₁ hpeer ho =>
      obtain ⟨-, hconid, hpeer'⟩ := ho.frame
      refine h.of_same rfl ?_ rfl
      rw [Ring.accepted, Ring.accepted, hpriv]
      simp [Sock.identity, hconid, hpeer']
    | reset =>
      refine h.sublist (requests_sublist ?_) (List.Sublist.refl _) fun _ _ ht => ht
      rw [Ring.waiting, Ring.waiting]
      cases E.ring.sponsor with
      | none => exact List.Sublist.refl _
      | some p => exact List.eraseP_sublist
    | @syn sh p c hpeek hnone hrst hsyn hp hcopy =>
      have hw : E.ring.waiting = p.pendingRecv := by rw [Ring.waiting, hp]
      cases hcopy with
      | full | starved =>
        refine h.sublist (requests_sublist ?_) (List.Sublist.refl _) fun _ _ ht => ht
        rw [hw]
        exact List.Sublist.refl _
      | copied hroom hmem =>
        obtain ⟨hfresh, htaken⟩ := hok m rest sh p hq hpeek hnone hrst hsyn hp hroom hmem
        have hacc : (m.source, sh.conid) ∉ E.ring.accepted := by
          intro hmem
          obtain ⟨q, hq, hid⟩ := List.mem_map.mp hmem
          have hpeer := hnone q hq
          rw [Sock.isPeer_iff.mpr hid] at hpeer
          cases hpeer
        have hnew : (m.source, sh.conid) ∉ E.ring.requests ++ E.ring.accepted := by
          rw [List.mem_append]
          exact not_or.mpr ⟨hfresh, hacc⟩
        refine h.request ?_ rfl rfl hnew htaken
        rw [Ring.requests, Ring.requests, hw]
        simp [Ring.waiting, PendingRecv.isRequest, PendingRecv.identity, hsyn]

theorem identified_acceptPop {E E' : Endpoint} {p : Sock} {t : Nat} {nonblock : Bool}
    (h : E.Identified) (hp : E.ring.sponsor = some p)
    (hs : E.acceptPop p t nonblock = some E') : E'.Identified := by
  have hw : E.ring.waiting = p.pendingRecv := by rw [Ring.waiting, hp]
  -- threads that took nothing in this step
  have hnone : ∀ t' e, Function.update E.accepts t none t' = some (.taken e) →
      E.accepts t' = some (.taken e) := by
    intro t' e ht'
    rcases update_some ht' with ⟨-, he⟩ | ⟨-, hold⟩
    · cases he
    · exact hold
  rw [acceptPop] at hs
  split at hs
  · split at hs
    · obtain rfl := Option.some.inj hs
      exact h.sublist (List.Sublist.refl _) (List.Sublist.refl _) hnone
    · cases hs
  · next e es hes =>
    have htail : es.Sublist E.ring.waiting := by
      rw [hw, hes]
      exact List.sublist_cons_self e es
    dsimp only at hs
    split at hs
    · next htake =>
      obtain rfl := Option.some.inj hs
      refine h.take ?_ rfl rfl
      have hreq : e.isRequest = true := by simp [PendingRecv.isRequest, htake]
      rw [Ring.requests, hw, hes, List.filter_cons_of_pos hreq, List.map_cons]
      rfl
    · split at hs
      · obtain rfl := Option.some.inj hs
        exact h.sublist (requests_sublist htail) (List.Sublist.refl _) hnone
      · obtain rfl := Option.some.inj hs
        exact h.sublist (requests_sublist htail) (List.Sublist.refl _) fun _ _ ht => ht

theorem identified_acceptEnd {E : Endpoint} {t ref : Nat} {e : PendingRecv} {okay : Bool}
    (h : E.Identified) (ht : E.accepts t = some (.taken e)) :
    (E.acceptEnd t e ref okay).Identified := by
  -- the threads that still have an entry, and that thread `t` is not among them
  have hrest : ∀ t' e', Function.update E.accepts t none t' = some (.taken e') →
      E.accepts t' = some (.taken e') ∧ e'.identity ≠ e.identity := by
    intro t' e' ht'
    rcases update_some ht' with ⟨-, he⟩ | ⟨hne, hold⟩
    · cases he
    · exact ⟨hold, fun hid => hne (h.apart t' t e' e hold ht hid)⟩
  cases okay with
  | false =>
    exact h.sublist (List.Sublist.refl _) (List.Sublist.refl _) fun t' e' ht' => (hrest t' e' ht').1
  | true =>
    have hperm : (E.ring.requests ++ e.identity :: E.ring.accepted).Perm
        (e.identity :: (E.ring.requests ++ E.ring.accepted)) := List.perm_middle
    refine ⟨?_, ?_, ?_⟩
    · exact hperm.nodup_iff.mpr (List.nodup_cons.mpr ⟨h.taken t e ht, h.nodup⟩)
    · intro t' e' ht' hmem
      obtain ⟨ht', hne⟩ := hrest t' e' ht'
      rcases List.mem_cons.mp (hperm.mem_iff.mp hmem) with hid | hmem
      · exact hne hid
      · exact h.taken t' e' ht' hmem
    · intro t₁ t₂ e₁ e₂ h₁ h₂
      exact h.apart t₁ t₂ e₁ e₂ (hrest t₁ e₁ h₁).1 (hrest t₂ e₂ h₂).1

/-- Reading changes how far an entry has been read, or takes it away. -/
theorem recvStep_requests {p : Sock} {c : RecvCall} {access signal : Bool} {o : RecvOut}
    (h : recvStep p c access signal = some o) :
    ((o.sock.pendingRecv.filter PendingRecv.isRequest).map PendingRecv.identity).Sublist
      ((p.pendingRecv.filter PendingRecv.isRequest).map PendingRecv.identity) := by
  rcases recvStep_copies h with ⟨hsock, -⟩ | ⟨-, hcopy⟩
  · rw [hsock]
  · cases hcopy with
    | done | fault => exact List.Sublist.refl _
    | @part e es hes =>
      have hsame : PendingRecv.isRequest { e with dataPtr := e.dataPtr + sizeT c.len } =
          e.isRequest := rfl
      rw [hes, List.filter_cons, List.filter_cons, hsame]
      split <;> exact List.Sublist.refl _
    | @eat e es hes =>
      rw [hes]
      exact ((List.sublist_cons_self e es).filter _).map _

theorem requests_setPending {r : Ring} {ref : Nat} {p : Sock} {pending : List PendingRecv}
    (hp : r.sock? ref = some p)
    (hsub : ((pending.filter PendingRecv.isRequest).map PendingRecv.identity).Sublist
      ((p.pendingRecv.filter PendingRecv.isRequest).map PendingRecv.identity)) :
    (r.setPending ref pending).requests.Sublist r.requests := by
  rw [Ring.requests, Ring.requests, Ring.waiting, Ring.waiting, Ring.setPending, Ring.mapSocks]
  rw [Ring.sock?, Ring.socks] at hp
  cases hs : r.sponsor with
  | none => exact List.Sublist.refl _
  | some q =>
    dsimp only [Option.map_some]
    split
    · next href =>
      rw [hs, Option.toList_some, List.singleton_append,
        List.find?_cons_of_pos (by simpa using href)] at hp
      obtain rfl := Option.some.inj hp
      exact hsub
    · exact List.Sublist.refl _

theorem accepted_setPending (r : Ring) (ref : Nat) (pending : List PendingRecv) :
    (r.setPending ref pending).accepted = r.accepted := by
  rw [Ring.accepted, Ring.setPending, Ring.mapSocks, List.map_map]
  apply List.map_congr_left
  intro p _
  rw [Function.comp]
  split <;> rfl

theorem waiting_filter_sponsor (s : Option Sock) (sel : Sock → Bool) (r : Ring) :
    (Ring.waiting { r with sponsor := s.filter sel }).Sublist
      (Ring.waiting { r with sponsor := s }) := by
  cases s with
  | none => exact List.Sublist.refl _
  | some p =>
    rw [Option.filter]
    split
    · exact List.Sublist.refl _
    · exact List.nil_sublist _

theorem identified_release {E : Endpoint} {ref : Nat} (h : E.Identified) :
    (E.release ref).Identified := by
  refine h.sublist (requests_sublist ?_) ?_ fun _ _ ht => ht
  · exact waiting_filter_sponsor E.ring.sponsor _ E.ring
  · exact List.filter_sublist.map _

/-- What keeps the pending list keeps the requests. -/
theorem requests_of_sponsor {r r' : Ring} {p p' : Sock} (hp : r.sponsor = some p)
    (hp' : r'.sponsor = some p') (h : p'.pendingRecv = p.pendingRecv) :
    r'.requests = r.requests := by
  rw [Ring.requests, Ring.requests, Ring.waiting, Ring.waiting, hp, hp']
  dsimp only
  rw [h]

theorem identified_connect {E : Endpoint} {p : Sock} {t : Nat} {peer : Addr} {conid : UInt32}
    {sent : Int} {nonblock : Bool} (h : E.Identified) (hp : E.ring.sponsor = some p) :
    (E.connect p t peer conid sent nonblock).Identified := by
  rw [connect]
  split
  · split
    · exact h.of_same (requests_of_sponsor hp rfl rfl) rfl rfl
    · exact h.of_same (requests_of_sponsor hp rfl rfl) rfl rfl
  · split
    · exact h.of_same rfl rfl rfl
    · exact h
  · exact h

theorem identified_connectWake {E E' : Endpoint} {p : Sock} {t : Nat} {signal : Bool}
    (h : E.Identified) (hp : E.ring.sponsor = some p) (hs : E.connectWake p t signal = some E') :
    E'.Identified := by
  rw [connectWake] at hs
  split at hs
  · split at hs
    · obtain rfl := Option.some.inj hs
      exact h.of_same rfl rfl rfl
    · cases hs
  · obtain rfl := Option.some.inj hs
    exact h.of_same rfl rfl rfl
  · obtain rfl := Option.some.inj hs
    exact h.of_same (requests_of_sponsor hp rfl rfl) rfl rfl
  · cases hs

theorem identified_call {E E' : Endpoint} {a : EndAct} (h : E.Identified) (hs : E.Step a E') :
    E'.Identified := by
  -- a call that waits has taken nothing
  have hwait : ∀ (t : Nat) (c : Option AcceptCall), (∀ e, c ≠ some (.taken e)) → ∀ t' e,
      Function.update E.accepts t c t' = some (.taken e) → E.accepts t' = some (.taken e) := by
    intro t c hc t' e ht'
    by_cases hne : t' = t
    · rw [hne, Function.update_self] at ht'
      exact absurd ht' (hc e)
    · rwa [Function.update_of_ne hne] at ht'
  cases hs with
  | listen hp =>
    rw [listen]
    split
    · exact h.of_same (requests_of_sponsor hp rfl rfl) rfl rfl
    · exact h
  | connect hp => exact identified_connect h hp
  | connectWake hp _ hs => exact identified_connectWake h hp hs
  | respite hp => exact h.of_same (requests_of_sponsor hp rfl rfl) rfl rfl
  | accept =>
    exact h.sublist (List.Sublist.refl _) (List.Sublist.refl _) (hwait _ _ (by simp))
  | acceptPop hp _ hs => exact identified_acceptPop h hp hs
  | acceptEnd ht => exact identified_acceptEnd h ht
  | acceptSignal =>
    exact h.sublist (List.Sublist.refl _) (List.Sublist.refl _) (hwait _ _ (by simp))
  | recvfrom | recvReturn => exact h.of_same rfl rfl rfl
  | recv hp _ hs =>
    refine h.sublist (requests_setPending hp (recvStep_requests hs)) ?_ fun _ _ ht => ht
    rw [accepted_setPending]
  | release => exact identified_release h

theorem identified_step {E E' : Endpoint} {a : ListenAct} (h : E.Identified)
    (hok : E.FreshRequest a) (hs : E.ListenStep a E') : E'.Identified := by
  cases hs with
  | arrive => exact h.of_same rfl rfl rfl
  | interrupt => exact identified_interrupt h hok
  | call hs => exact identified_call h hs

/-- **Connections can be told apart.**  If every SYN that is queued is a fresh one, no two
accepted sockets of a listener's ring have the same peer and connection id, and every message
of a connection goes to its socket. -/
theorem identity_unique (E : Endpoint) (h : Reachable Unasked ListenStep FreshRequest E) :
    E.ring.accepted.Nodup ∧
      ∀ m rest sh data mem p, E.ring.queue = m :: rest → peekHeader m = some (sh, data) →
        p ∈ E.ring.privates → p.isPeer m.source sh.conid = true →
        ∃ l₁ l₂, E.ring.privates = l₁ ++ p :: l₂ ∧
          (listenerInterrupt E.ring mem).ring.privates =
            l₁ ++ (acceptorInterrupt E.ring.id p m rest sh data mem).sock :: l₂ := by
  have hinv : E.Identified := h.invariant (fun _ => Identified.of_unasked)
    fun _ _ _ hE hok hs => identified_step hE hok hs
  have hnd : E.ring.accepted.Nodup := hinv.nodup.sublist (List.sublist_append_right _ _)
  refine ⟨hnd, ?_⟩
  intro m rest sh data mem p hq hpeek hp hpeer
  exact listenerInterrupt_delivers mem hq hpeek hp hpeer hnd

/-! ## A SYN that is repeated -/

/-- A listener at port 10 of domain 1. -/
def lone : Endpoint where
  ring := ⟨⟨⟨10, 1⟩, domidAny⟩, .listener, some ⟨0, .listening, ⟨0, 0⟩, 0, [], 0, false⟩, [], []⟩
  alive := true
  readers := fun _ => none
  accepts := fun _ => none
  connects := fun _ => false

theorem lone_unasked : lone.Unasked := ⟨rfl, rfl, fun _ => rfl⟩

/-- Domain 2 asks for connection 7. -/
def ask : Message := streamMessage ⟨9, 2⟩ ⟨shfSyn, 7⟩ []

/-- A thread accepts the first request, as the socket at address `ref`. -/
theorem reachable_accept {ok : Endpoint → ListenAct → Prop} (hok : ∀ E a, ok E (.call a))
    {E : Endpoint} {p : Sock} {es : List PendingRecv} {e : PendingRecv} (ref : Nat)
    (h : Reachable Unasked ListenStep ok E) (hp : E.ring.sponsor = some p)
    (hst : p.state = .listening) (hidle : E.accepts 0 = none) (hes : p.pendingRecv = e :: es)
    (htake : e.data = [] ∧ e.sh.has shfSyn = true)
    (href : p.ref ≠ ref ∧ ∀ q ∈ E.ring.privates, q.ref ≠ ref) (hreaders : E.readers ref = none) :
    ∃ E', Reachable Unasked ListenStep ok E' ∧ E'.ring = { E.ring with
        sponsor := some { p with pendingRecv := es }
        privates := ⟨ref, .accepted, e.source, e.sh.conid, [], 0, false⟩ :: E.ring.privates } ∧
      E'.accepts 0 = none ∧ E'.readers = E.readers := by
  have hwait := h.next (hok _ _) (.call (.accept hp hst hidle : E.Step (.accept 0 true) _))
  have hpop := hwait.next (hok _ _) (.call (.acceptPop hp (Function.update_self ..)
    (by rw [acceptPop, hes]; exact if_pos htake)))
  have hfresh : ∀ q ∈ Ring.socks { E.ring with sponsor := some { p with pendingRecv := es } },
      q.ref ≠ ref := by
    intro q hq
    rcases List.mem_cons.mp hq with rfl | hq
    · exact href.1
    · exact href.2 q hq
  have htaken : Function.update (Function.update E.accepts 0 (some (.waiting true))) 0
      (some (.taken e)) 0 = some (.taken e) := Function.update_self ..
  have hend := hpop.next (hok _ (.acceptEnd 0 ref true)) (.call (.acceptEnd htaken hfresh hreaders))
  exact ⟨_, hend, rfl, by simp [acceptEnd], rfl⟩

/-- The ring when the request has come once, or twice, and has been queued. -/
def asked (pending : List PendingRecv) : Endpoint :=
  { lone with ring := { lone.ring with
      sponsor := some ⟨0, .listening, ⟨0, 0⟩, 0, pending, 0, false⟩ } }

theorem lone_fresh (m : Message) :
    FreshRequest { lone with ring := { lone.ring with queue := [m] } } (.interrupt none) := by
  intro m' rest sh p _ _ _ _ _ _ _ _
  refine ⟨List.not_mem_nil, fun t e ht => ?_⟩
  cases ht

/-- One request is queued. -/
theorem reachable_asked {ok : Endpoint → ListenAct → Prop}
    (hok : ok lone (.arrive ask) ∧
      ok { lone with ring := { lone.ring with queue := [ask] } } (.interrupt none)) :
    Reachable Unasked ListenStep ok (asked [⟨⟨9, 2⟩, ⟨shfSyn, 7⟩, [], 0⟩]) :=
  ((Reachable.start lone_unasked).next hok.1 .arrive).next hok.2 .interrupt

/-- The SYN comes again before the first is accepted, and there are two sockets of one
identity. -/
theorem repeated_syn_two_sockets :
    ∃ E, Reachable Unasked ListenStep (fun _ _ => True) E ∧ ¬ E.ring.accepted.Nodup := by
  have hone : Reachable Unasked ListenStep (fun _ _ => True) _ :=
    reachable_asked ⟨trivial, trivial⟩
  have harrive := hone.next (i := .arrive ask) trivial .arrive
  have htwo := harrive.next (i := .interrupt none) trivial .interrupt
  obtain ⟨E₁, h₁, hring₁, hidle₁, hreaders₁⟩ := reachable_accept (fun _ _ => trivial) 1 htwo
    rfl rfl rfl rfl ⟨rfl, by decide⟩ ⟨by decide, by decide⟩ rfl
  obtain ⟨E₂, h₂, hring₂, -, -⟩ := reachable_accept (fun _ _ => trivial) 2 h₁
    (by rw [hring₁]) rfl hidle₁ rfl ⟨rfl, by decide⟩
    ⟨by decide, by rw [hring₁]; decide⟩ (by rw [hreaders₁]; rfl)
  refine ⟨E₂, h₂, ?_⟩
  rw [hring₂, hring₁]
  decide

/-- A request that comes once becomes a socket, and its messages go there. -/
theorem identity_unique_one :
    ∃ E, Reachable Unasked ListenStep FreshRequest E ∧ E.ring.accepted = [(⟨9, 2⟩, 7)] ∧
      E.ring.accepted.Nodup := by
  have hone : Reachable Unasked ListenStep FreshRequest _ :=
    reachable_asked ⟨trivial, lone_fresh ask⟩
  obtain ⟨E, h, hring, -, -⟩ := reachable_accept (fun _ _ => trivial) 1 hone
    rfl rfl rfl rfl ⟨rfl, by decide⟩ ⟨by decide, by decide⟩ rfl
  refine ⟨E, h, ?_, (identity_unique E h).1⟩
  rw [hring]
  rfl

end Endpoint
end V4v.Linux
