import LegacyV4v.LockBalance

/-! # What the claimed source domain decides

The sender of a message supplies its own source address.  Xen writes the caller's true
domain id into the message header, but looks for the destination ring, and through the
firewall, with the domain the sender claims.  So a sender can put messages into a ring that
is reserved for another partner, and the domain it claims decides what the call does. -/
namespace V4v
open MachineWord ChainedHash GuardedRun

/-! ## Rings with a partner -/

/-- The claim cannot lead to the ring of another partner: the sender claims to be itself, or
nobody in particular, or a partner that has no ring of its own there; or the message is
refused before a ring is looked for. -/
def Harmless (s : Hyp) (d : DomId) (src dst : Addr) (env : SendEnv) : Prop :=
  src.domain = d ∨ src.domain = domidAny ∨
    (∀ t, s.v4v dst.domain = some t →
      ringFindInfo t ⟨⟨dst.port, dst.domain⟩, src.domain⟩ = none) ∨
    Refused s d src dst env

/-- Every send makes a harmless claim; everything else is allowed. -/
def HarmlessSends (s : Hyp) : Act → Prop
  | .hypercall d (.send a) => ∀ src dst,
    copyAddrs a.srcOkay a.src a.dstOkay a.dst = some (src, dst) → Harmless s d src dst a.env
  | .hypercall d (.sendv a) => ∀ src dst,
    copyAddrs a.srcOkay a.src a.dstOkay a.dst = some (src, dst) → Harmless s d src dst a.env
  | _ => True

/-- The insertions an event reports. -/
def Event.inserted : Event → List Insertion
  | .returned _ _ _ ins => ins
  | _ => []

/-- A message for one partner came from that partner. -/
def Isolated (ins : List Insertion) : Prop :=
  ∀ m ∈ ins, m.ring.partner ≠ domidAny → m.sender = m.ring.partner

theorem isolated_nil : Isolated [] := fun _ hm => absurd hm List.not_mem_nil

theorem SendEffect.isolated {s : Hyp} {d : DomId} {src dst : Addr} {env : SendEnv}
    {insert : RingInfo → Option InsertOut} {out : SendOut}
    (h : SendEffect s d src dst env insert out) (hsrc : Harmless s d src dst env) :
    Isolated out.inserted := by
  cases h with
  | unreached _ _ _ hins => rw [hins]; exact isolated_nil
  | refused _ _ hins => rw [hins]; exact isolated_nil
  | @reached t r o pending hnot _ ht hfind _ _ hins =>
    intro m hm hany
    rw [hins] at hm
    obtain rfl := List.mem_singleton.mp hm
    rcases (ringFindInfoByAddr_cases hfind).2 with hid | ⟨hid, _⟩
    · -- the ring is the claimed domain's own
      dsimp only at hany ⊢
      rw [hid] at hany ⊢
      rcases hsrc with hself | hanyone | hnone | href
      · exact hself.symm
      · exact absurd hanyone hany
      · have hr := (ringFindInfoByAddr_cases hfind).1
        rw [hid, hnone t ht] at hr
        cases hr
      · exact absurd href hnot
    · exact absurd (by rw [hid]) hany

/-- One action isolates what it inserts. -/
theorem step_isolated {s s' : Hyp} {act : Act} {e : Event} (hok : HarmlessSends s act)
    (hstep : s.step act = some (e, s')) : Isolated e.inserted := by
  cases step_effect hstep with
  | @hypercall d op o heff =>
    suffices h : Isolated o.inserted from h
    cases heff with
    | inert _ _ _ _ hins => rw [hins]; exact isolated_nil
    | register _ _ hins => rw [hins]; exact isolated_nil
    | unregister _ hins => rw [hins]; exact isolated_nil
    | send haddrs hsend => exact hsend.isolated (hok _ _ haddrs)
    | sendv haddrs _ hsend => exact hsend.isolated (hok _ _ haddrs)
    | notify _ _ hins => rw [hins]; exact isolated_nil
  | guestWrite _ _ => exact isolated_nil
  | create _ => exact isolated_nil
  | kill _ => exact isolated_nil

/-- **Partner isolation.**  In every run in which the sends make harmless claims, every
message that went to a ring for one partner was sent by that partner. -/
theorem partners_isolated {es : List Event} {s : Hyp} (h : Hyp.Runs HarmlessSends es s) :
    ∀ e ∈ es, Isolated e.inserted :=
  h.outputs (P := fun _ => True) trivial
    fun _ _ _ _ _ hok hstep => ⟨trivial, step_isolated hok hstep⟩

/-- A send of no bytes from port 7 of domain `x`, as it says, to port 5 of domain 2. -/
def sendAs (x : DomId) : V4vOp :=
  .send ⟨true, some ⟨7, x⟩, true, some ⟨5, 2⟩, 0, ⟨false, true⟩, .ofBytes [], 0⟩

/-- Domain 2 registers port 5 for domain 3. -/
def ringForThree : List Act :=
  [.create 1 false true, .create 2 false true, .create 3 false true,
    .hypercall 2 (.registerRing (.smooth ⟨⟨5, 2⟩, 3⟩ 48 0 0 1))]

/-- Domain 3 reaches its ring. -/
theorem partners_isolated_three : ∃ es s, Hyp.Runs HarmlessSends es s ∧
    es.flatMap Event.inserted = [⟨⟨⟨5, 2⟩, 3⟩, 3, 0⟩] ∧ ∀ e ∈ es, Isolated e.inserted := by
  have hexec : (exec Hyp.step Hyp.boot (ringForThree ++ [.hypercall 3 (sendAs 3)])).map
      (fun p => p.1.flatMap Event.inserted) = some [⟨⟨⟨5, 2⟩, 3⟩, 3, 0⟩] := by decide +kernel
  obtain ⟨p, hp, hins⟩ := Option.map_eq_some_iff.mp hexec
  have hrun : Hyp.Runs HarmlessSends p.1 p.2 := by
    refine run_of_exec hp fun act hact s => ?_
    simp only [ringForThree, List.cons_append, List.nil_append, List.mem_cons, List.not_mem_nil,
      or_false] at hact
    rcases hact with rfl | rfl | rfl | rfl | rfl
    · exact trivial
    · exact trivial
    · exact trivial
    · exact trivial
    · intro src dst haddrs
      cases haddrs
      exact Or.inl rfl
  exact ⟨p.1, p.2, hrun, hins, partners_isolated hrun⟩

/-- Domain 1 reaches it too, if it says that it is domain 3. -/
theorem ringForThree_not_isolated : ¬ ∀ (es : List Event) (s : Hyp),
    Hyp.Runs (fun _ _ => True) es s → ∀ e ∈ es, ∀ m ∈ e.inserted, 0 ≤ m.ret →
      m.ring.partner ≠ domidAny → m.sender = m.ring.partner := by
  intro hall
  have hexec : (exec Hyp.step Hyp.boot (ringForThree ++ [.hypercall 1 (sendAs 3)])).map
      (fun p => p.1.flatMap Event.inserted) = some [⟨⟨⟨5, 2⟩, 3⟩, 1, 0⟩] := by decide +kernel
  obtain ⟨p, hp, hins⟩ := Option.map_eq_some_iff.mp hexec
  have hm : (⟨⟨⟨5, 2⟩, 3⟩, 1, 0⟩ : Insertion) ∈ p.1.flatMap Event.inserted := by
    rw [hins]
    exact List.mem_singleton_self _
  obtain ⟨e, he, hm⟩ := List.mem_flatMap.mp hm
  have hsender := hall p.1 p.2 (run_of_exec hp fun _ _ _ => trivial) e he _ hm
    (by decide) (by decide)
  exact absurd hsender (by decide)

/-! ## Two claims -/

/-- The same rules, the same domains, and rings under the same ids; lengths, pointers,
contents and pending lists of the rings may differ. -/
structure Hyp.SameShape (s s' : Hyp) : Prop where
  rules : s'.viprules = s.viprules
  exist : ∀ e, (s'.domains e).isSome = (s.domains e).isSome
  ids : s.SameIds s'

/-- Domains `x` and `y` look the same from `dst`, as sources of a message on `port`: the
firewall decides alike, and if it accepts, the same ring is found. -/
def SameView (s : Hyp) (d : DomId) (port : UInt32) (dst : Addr) (x y : DomId) : Prop :=
  s.v4v d = none ∨ s.domains dst.domain = none ∨
    viptablesCheck s.viprules ⟨port, x⟩ dst = viptablesCheck s.viprules ⟨port, y⟩ dst ∧
      (viptablesCheck s.viprules ⟨port, x⟩ dst = false → ∀ t, s.v4v dst.domain = some t →
        (ringFindInfoByAddr t dst.domain dst x).map RingInfo.id =
          (ringFindInfoByAddr t dst.domain dst y).map RingInfo.id)

/-- What a hypercall comes to: its result and the state behind it. -/
def outcome (s : Hyp) (d : DomId) (op : V4vOp) : Option (Int × Hyp) :=
  (doV4vOp s d op).map fun o => (o.ret, o.state)

/-- A `V4VOP_send` with readable addresses. -/
def sendOp (src dst : Addr) (proto : UInt32) (env : SendEnv) (buf : GuestBuf) (len : UInt32) :
    V4vOp :=
  .send ⟨true, some src, true, some dst, proto, env, buf, len⟩

/-- A `V4VOP_sendv` with readable addresses. -/
def sendvOp (src dst : Addr) (proto : UInt32) (env : SendEnv) (first second : List (Option Iov)) :
    V4vOp :=
  .sendv ⟨true, some src, true, some dst, true, proto, env, first, second⟩

/-- Whatever the rings of this shape hold and whatever is sent, it makes no difference to
the two calls whether the sender claims to be `x` or `y`. -/
def NoInfluence (s : Hyp) (d : DomId) (port : UInt32) (dst : Addr) (x y : DomId) : Prop :=
  ∀ s', s.SameShape s' → ∀ proto env,
    (∀ buf len, outcome s' d (sendOp ⟨port, x⟩ dst proto env buf len) =
      outcome s' d (sendOp ⟨port, y⟩ dst proto env buf len)) ∧
    ∀ first second, outcome s' d (sendvOp ⟨port, x⟩ dst proto env first second) =
      outcome s' d (sendvOp ⟨port, y⟩ dst proto env first second)

theorem ringFindInfoByAddr_eq_or (t : RingTable) (d : DomId) (a : Addr) (p : DomId) :
    ringFindInfoByAddr t d a p =
      (ringFindInfo t ⟨⟨a.port, d⟩, p⟩).or (ringFindInfo t ⟨⟨a.port, d⟩, domidAny⟩) := by
  unfold ringFindInfoByAddr
  cases ringFindInfo t ⟨⟨a.port, d⟩, p⟩ <;> rfl

/-- Which id is found by address depends on the ids only. -/
theorem ringFindInfoByAddr_congr {t t' : RingTable} (h : keys RingInfo.id t' = keys RingInfo.id t)
    (d : DomId) (a : Addr) (p : DomId) : (ringFindInfoByAddr t' d a p).map RingInfo.id =
      (ringFindInfoByAddr t d a p).map RingInfo.id := by
  rw [ringFindInfoByAddr_eq_or, ringFindInfoByAddr_eq_or, Option.map_or, Option.map_or]
  unfold ringFindInfo
  rw [map_key_find_congr h, map_key_find_congr h]

/-- The id decides which ring it is. -/
theorem ringFindInfoByAddr_inj {t : RingTable} {d x y : DomId} {a : Addr}
    (h : (ringFindInfoByAddr t d a x).map RingInfo.id =
      (ringFindInfoByAddr t d a y).map RingInfo.id) :
    ringFindInfoByAddr t d a x = ringFindInfoByAddr t d a y := by
  cases hx : ringFindInfoByAddr t d a x with
  | none =>
    rw [hx, Option.map_none] at h
    exact (Option.map_eq_none_iff.mp h.symm).symm
  | some r =>
    rw [hx, Option.map_some] at h
    obtain ⟨r', hr', hid⟩ := Option.map_eq_some_iff.mp h.symm
    have hfind := (ringFindInfoByAddr_cases hx).1
    have hfind' := (ringFindInfoByAddr_cases hr').1
    rw [hid, hfind] at hfind'
    rw [hr', Option.some.inj hfind']

section
variable {s s' : Hyp} {d : DomId} {port : UInt32} {dst : Addr} {x y : DomId}

theorem Hyp.SameShape.v4v_none (h : s.SameShape s') {e : DomId} (hnone : s.v4v e = none) :
    s'.v4v e = none := by
  have hids := h.ids e
  rw [hnone, Option.map_none] at hids
  exact Option.map_eq_none_iff.mp hids

/-- The view is a matter of the shape. -/
theorem SameView.of_shape (h : SameView s d port dst x y) (hs : s.SameShape s') :
    SameView s' d port dst x y := by
  rcases h with hnone | hnone | ⟨hcheck, hfind⟩
  · exact Or.inl (hs.v4v_none hnone)
  · refine Or.inr (Or.inl ?_)
    have hexist := hs.exist dst.domain
    rw [hnone] at hexist
    exact Option.not_isSome_iff_eq_none.mp (by rw [hexist]; simp)
  · refine Or.inr (Or.inr ?_)
    rw [hs.rules]
    refine ⟨hcheck, fun haccept t' ht' => ?_⟩
    have hids := hs.ids dst.domain
    rw [ht', Option.map_some] at hids
    obtain ⟨t, ht, hkeys⟩ := Option.map_eq_some_iff.mp hids.symm
    rw [ringFindInfoByAddr_congr hkeys.symm, ringFindInfoByAddr_congr hkeys.symm]
    exact hfind haccept t ht

/-- Under the same view the claim does not matter to a send. -/
theorem sendWith_congr (h : SameView s d port dst x y) (env : SendEnv) (len : UInt32)
    (insert : RingInfo → Option InsertOut) : sendWith s d ⟨port, x⟩ dst env len insert =
      sendWith s d ⟨port, y⟩ dst env len insert := by
  unfold sendWith
  dsimp only
  rcases h with hnone | hnone | ⟨hcheck, hfind⟩
  · have hnone : (s.acquire .l1Read).v4v d = none := hnone
    rw [if_pos hnone, if_pos hnone]
  · rw [Hyp.acquire_domains, hnone]
  · split
    · rfl
    · cases hdom : (s.acquire .l1Read).domains dst.domain with
      | none => rfl
      | some dom =>
        dsimp only
        split
        · rfl
        · by_cases hx : viptablesCheck s.viprules ⟨port, x⟩ dst = true
          · exact (if_pos hx).trans (if_pos (hcheck.symm.trans hx)).symm
          · refine (if_neg hx).trans (Eq.trans ?_ (if_neg (mt hcheck.trans hx)).symm)
            cases ht : dom.v4v with
            | none => rfl
            | some t =>
              have htable : s.v4v dst.domain = some t := (Hyp.v4v_of_domains hdom).trans ht
              have hring := ringFindInfoByAddr_inj (hfind (by simpa using hx) t htable)
              unfold sendTo
              dsimp only
              rw [hring]

theorem dispatch_sendOp (s : Hyp) (d : DomId) (priv : Bool) (src dst : Addr) (proto : UInt32)
    (env : SendEnv) (buf : GuestBuf) (len : UInt32) :
    dispatch s d priv (sendOp src dst proto env buf len) =
      (send s d src dst proto env buf len).map fun o => ⟨o.ret, o.state, o.inserted, [], []⟩ :=
  rfl

theorem dispatch_sendvOp (s : Hyp) (d : DomId) (priv : Bool) (src dst : Addr) (proto : UInt32)
    (env : SendEnv) (first second : List (Option Iov)) :
    dispatch s d priv (sendvOp src dst proto env first second) =
      (sendv s d src dst proto env first second).map fun o =>
        ⟨o.ret, o.state, o.inserted, [], []⟩ :=
  rfl

/-- The claim has no influence under the same view. -/
theorem SameView.noInfluence (h : SameView s d port dst x y) : NoInfluence s d port dst x y := by
  intro s' hs proto env
  have h' : SameView (s'.acquire (.domainLock d)) d port dst x y :=
    h.of_shape ⟨hs.rules, hs.exist, hs.ids⟩
  constructor
  · intro buf len
    have hsend : send (s'.acquire (.domainLock d)) d ⟨port, x⟩ dst proto env buf len =
        send (s'.acquire (.domainLock d)) d ⟨port, y⟩ dst proto env buf len :=
      sendWith_congr h' env len _
    simp only [outcome, doV4vOp, dispatch_sendOp, hsend]
  · intro first second
    have hsend : sendv (s'.acquire (.domainLock d)) d ⟨port, x⟩ dst proto env first second =
        sendv (s'.acquire (.domainLock d)) d ⟨port, y⟩ dst proto env first second :=
      sendWith_congr h' env _ _
    simp only [outcome, doV4vOp, dispatch_sendvOp, hsend]

/-! ## Telling two claims apart

Of a given shape there is a state with empty rings throughout.  A message of no bytes gets
into any of them, so it shows which ring was found. -/

/-- The ring under the same id, with one page, 48 bytes and nothing in it. -/
def RingInfo.emptied (r : RingInfo) : RingInfo := .blank r.id 48 1 0 0

theorem RingInfo.emptied_id (r : RingInfo) : r.emptied.id = r.id := rfl

/-- Every ring emptied. -/
def Hyp.emptied (s : Hyp) : Hyp :=
  { s with domains := fun e => (s.domains e).map fun dom =>
      { dom with v4v := dom.v4v.map (mapEntries RingInfo.emptied) } }

theorem emptied_v4v (s : Hyp) (e : DomId) :
    s.emptied.v4v e = (s.v4v e).map (mapEntries RingInfo.emptied) := by
  unfold Hyp.emptied Hyp.v4v
  dsimp only
  cases s.domains e <;> rfl

theorem emptied_shape (s : Hyp) : s.SameShape s.emptied where
  rules := rfl
  exist e := by unfold Hyp.emptied; simp
  ids e := by
    rw [emptied_v4v]
    cases s.v4v e with
    | none => rfl
    | some t =>
      rw [Option.map_some, Option.map_some, Option.map_some, keys_mapEntries RingInfo.emptied_id]

/-- What is found among emptied rings. -/
theorem emptied_find {t : RingTable} {id : RingId} {r : RingInfo}
    (h : ringFindInfo (mapEntries RingInfo.emptied t) id = some r) : r = .blank id 48 1 0 0 := by
  unfold ringFindInfo at h
  rw [find_mapEntries RingInfo.emptied_id] at h
  obtain ⟨r₀, hr₀, rfl⟩ := Option.map_eq_some_iff.mp h
  rw [← ringFindInfo_id hr₀]
  rfl

/-- A message of no bytes gets into an empty ring. -/
theorem insert_blank (id : RingId) (src : Addr) (proto : UInt32) : ∃ o,
    ringbufInsert (.blank id 48 1 0 0) src proto (.ofBytes []) 0 = some o ∧ o.ret = 0 ∧
      o.ring.txPtr.toNat = 16 := by
  have hlen : (RingInfo.blank id 48 1 0 0).len = 48 := rfl
  have htx : (RingInfo.blank id 48 1 0 0).txPtr = 0 := rfl
  have hnpage : (RingInfo.blank id 48 1 0 0).npage = 1 := rfl
  have hsane : (RingInfo.blank id 48 1 0 0).Sane := by
    constructor <;> simp only [hlen, htx] <;> decide
  have hadm : (RingInfo.blank id 48 1 0 0).Admits 0 := by
    rw [RingInfo.admits_iff hsane.tx_lt (by rw [hlen]; decide)
      (by rw [RingInfo.blank_rxPtr, hlen]; decide), RingInfo.blank_rxPtr, hlen, htx]
    decide
  obtain ⟨o, ho, hret, _, _, _, hafter, _⟩ := ringbufInsert_of_admits hsane
    (RingInfo.blank_mapped id 48 1 0 0 (by decide)) (by rw [hlen, hnpage]; decide) src proto
    (GuestBuf.ofBytes_readable []) (by decide) hadm
  refine ⟨o, ho, hret.trans (by decide), ?_⟩
  rw [hafter, hlen, htx]
  decide

/-- A send returns, unless the insertion does not. -/
theorem sendWith_isSome {src : Addr} {env : SendEnv} {len : UInt32}
    {insert : RingInfo → Option InsertOut} (h : ∀ t r, s.v4v dst.domain = some t →
      ringFindInfoByAddr t dst.domain dst src.domain = some r → (insert r).isSome) :
    (sendWith s d src dst env len insert).isSome := by
  unfold sendWith
  dsimp only
  split
  · rfl
  · cases hdom : (s.acquire .l1Read).domains dst.domain with
    | none => rfl
    | some dom =>
      dsimp only
      split
      · rfl
      · split
        · rfl
        · cases ht : dom.v4v with
          | none => rfl
          | some t =>
            have htable : s.v4v dst.domain = some t := (Hyp.v4v_of_domains hdom).trans ht
            rw [Option.isSome_map]
            unfold sendTo
            dsimp only
            cases hfind : ringFindInfoByAddr t dst.domain dst src.domain with
            | none => rfl
            | some r =>
              dsimp only
              unfold insertInto
              rw [Option.isSome_map, Option.isSome_map]
              exact h t r htable hfind

/-- A message of no bytes. -/
def emptySend (port : UInt32) (dst : Addr) (x : DomId) : V4vOp :=
  sendOp ⟨port, x⟩ dst 0 ⟨false, true⟩ (.ofBytes []) 0

theorem emptySend_effect {o : OpOut} (ho : doV4vOp s d (emptySend port dst x) = some o) :
    ∃ out : SendOut, o.ret = out.ret ∧ o.state = out.state.release (.domainLock d) ∧
      SendEffect (s.acquire (.domainLock d)) d ⟨port, x⟩ dst ⟨false, true⟩
        (fun r => ringbufInsert r ⟨port, d⟩ 0 (.ofBytes []) 0) out := by
  obtain ⟨priv, o', ho', rfl⟩ := doV4vOp_dispatch ho
  rw [emptySend, dispatch_sendOp] at ho'
  obtain ⟨out, hout, rfl⟩ := Option.map_eq_some_iff.mp ho'
  exact ⟨out, rfl, rfl, send_effect hout⟩

/-- What is found by address among emptied rings. -/
theorem emptied_findByAddr {t : RingTable} {e p : DomId} {a : Addr} {r : RingInfo}
    (h : ringFindInfoByAddr (mapEntries RingInfo.emptied t) e a p = some r) :
    r = .blank r.id 48 1 0 0 :=
  emptied_find (ringFindInfoByAddr_cases h).1

theorem emptySend_returns (s : Hyp) (hd : s.domains d ≠ none) (port : UInt32) (dst : Addr)
    (x : DomId) : ∃ o, doV4vOp s.emptied d (emptySend port dst x) = some o := by
  have hex : s.emptied.domains d ≠ none := by
    unfold Hyp.emptied
    exact mt Option.map_eq_none_iff.mp hd
  obtain ⟨dom, hdom⟩ := Option.ne_none_iff_exists'.mp hex
  have hsome : (send (s.emptied.acquire (.domainLock d)) d ⟨port, x⟩ dst 0 ⟨false, true⟩
      (.ofBytes []) 0).isSome := by
    refine sendWith_isSome fun t r ht hfind => ?_
    rw [Hyp.acquire_v4v, emptied_v4v] at ht
    obtain ⟨t₀, _, rfl⟩ := Option.map_eq_some_iff.mp ht
    rw [emptied_findByAddr hfind]
    obtain ⟨o, ho, _⟩ := insert_blank r.id ⟨port, d⟩ 0
    rw [ho]
    rfl
  refine Option.isSome_iff_exists.mp ?_
  unfold doV4vOp
  rw [hdom]
  dsimp only
  rw [Option.isSome_map, emptySend, dispatch_sendOp, Option.isSome_map]
  exact hsome

/-- A message of no bytes that is not refused finds no ring and fails, or moves the
`tx_ptr` of the ring it finds. -/
theorem emptySend_cases {t : RingTable} {o : OpOut} (hd : s.v4v d ≠ none)
    (ht : s.v4v dst.domain = some t)
    (haccept : viptablesCheck s.viprules ⟨port, x⟩ dst = false)
    (ho : doV4vOp s.emptied d (emptySend port dst x) = some o) :
    (ringFindInfoByAddr (mapEntries RingInfo.emptied t) dst.domain dst x = none ∧ o.ret < 0) ∨
    ∃ r t', ringFindInfoByAddr (mapEntries RingInfo.emptied t) dst.domain dst x = some r ∧
      o.ret = 0 ∧ o.state.v4v dst.domain = some t' ∧
      (ringFindInfo t' r.id).map (fun r => r.txPtr.toNat) = some 16 ∧
      ∀ id, id ≠ r.id →
        ringFindInfo t' id = ringFindInfo (mapEntries RingInfo.emptied t) id := by
  obtain ⟨out, hret, hstate, heff⟩ := emptySend_effect ho
  have hv4v : ∀ e, (s.emptied.acquire (.domainLock d)).v4v e =
      (s.v4v e).map (mapEntries RingInfo.emptied) := emptied_v4v s
  rw [hret, hstate]
  cases heff with
  | unreached _ hnot hneg =>
    refine Or.inl ⟨?_, hneg⟩
    by_contra hfound
    refine hnot ⟨?_, _, by rw [hv4v, ht]; rfl, hfound⟩
    rw [hv4v]
    exact mt Option.map_eq_none_iff.mp hd
  | refused href =>
    rcases href.2.2 with hxsm | hcheck
    · cases hxsm
    · exact absurd (haccept.symm.trans hcheck) (by decide)
  | @reached t₁ r o₁ pending _ _ ht₁ hfind ho₁ hret₁ _ hup =>
    rw [hv4v, ht, Option.map_some] at ht₁
    obtain rfl := Option.some.inj ht₁
    rw [emptied_findByAddr hfind] at ho₁
    obtain ⟨o₂, ho₂, hzero, htx⟩ := insert_blank r.id ⟨port, d⟩ 0
    obtain rfl := Option.some.inj (ho₁.symm.trans ho₂)
    obtain ⟨t', ht', hfound⟩ := hup.found (show (s.emptied.acquire (.domainLock d)).v4v dst.domain =
      some (mapEntries RingInfo.emptied t) by rw [hv4v, ht]; rfl)
    refine Or.inr ⟨r, t', hfind, ?_, ht', ?_, ?_⟩
    · rcases hret₁ with hret₁ | ⟨_, hagain⟩
      · exact hret₁.trans hzero
      · exact absurd (hzero.symm.trans hagain) (by decide)
    · rw [hfound, if_pos rfl]
      exact congrArg some htx
    · intro id hne
      rw [hfound, if_neg hne]

/-- A verdict against one of the claims only shows in the reference on the destination. -/
theorem verdict_shows (hd : s.v4v d ≠ none) (hdst : s.domains dst.domain ≠ none)
    (hx : viptablesCheck s.viprules ⟨port, x⟩ dst = true)
    (hy : viptablesCheck s.viprules ⟨port, y⟩ dst = false) {o o' : OpOut}
    (ho : doV4vOp s d (emptySend port dst x) = some o)
    (ho' : doV4vOp s d (emptySend port dst y) = some o') : o.state ≠ o'.state := by
  intro hsame
  have hleak : Leaks s d (.domainRef dst.domain) (emptySend port dst x) :=
    ⟨_, _, rfl, ⟨hd, hdst, Or.inr hx⟩, rfl⟩
  have hnot : ∀ l, ¬ Leaks s d l (emptySend port dst y) := by
    rintro l ⟨src, dst', haddrs, href, _⟩
    cases haddrs
    rcases href.2.2 with hxsm | hcheck
    · cases hxsm
    · exact absurd (hy.symm.trans hcheck) (by decide)
  rcases doV4vOp_holds_cases ho with ⟨l, _, hholds⟩ | ⟨hnone, _⟩
  · rcases doV4vOp_holds_cases ho' with ⟨l', hleak', _⟩ | ⟨_, hholds'⟩
    · exact hnot l' hleak'
    · exact s.acquire_holds_ne l (by rw [← hholds, hsame, hholds'])
  · exact hnone _ hleak

/-- Two different rings show in the result or in a `tx_ptr`. -/
theorem ring_shows {t : RingTable} (hd : s.v4v d ≠ none) (ht : s.v4v dst.domain = some t)
    (hx : viptablesCheck s.viprules ⟨port, x⟩ dst = false)
    (hy : viptablesCheck s.viprules ⟨port, y⟩ dst = false)
    (hne : (ringFindInfoByAddr t dst.domain dst x).map RingInfo.id ≠
      (ringFindInfoByAddr t dst.domain dst y).map RingInfo.id) {o o' : OpOut}
    (ho : doV4vOp s.emptied d (emptySend port dst x) = some o)
    (ho' : doV4vOp s.emptied d (emptySend port dst y) = some o') :
    (o.ret, o.state) ≠ (o'.ret, o'.state) := by
  have hkeys := keys_mapEntries (t := t) RingInfo.emptied_id
  rw [← ringFindInfoByAddr_congr hkeys, ← ringFindInfoByAddr_congr hkeys] at hne
  intro hsame
  obtain ⟨hret, hstate⟩ := Prod.mk.inj hsame
  rcases emptySend_cases hd ht hx ho with ⟨hfind, hneg⟩ | ⟨r, t₁, hfind, hzero, ht₁, htx, _⟩
  · rcases emptySend_cases hd ht hy ho' with ⟨hfind', _⟩ | ⟨r', _, _, hzero', _⟩
    · exact hne (by rw [hfind, hfind'])
    · omega
  · rcases emptySend_cases hd ht hy ho' with ⟨_, hneg'⟩ | ⟨r', t₂, hfind', _, ht₂, _, hrest⟩
    · omega
    · -- the other call leaves the ring of the first one empty
      rw [hstate, ht₂] at ht₁
      obtain rfl := Option.some.inj ht₁
      have hr : r.id ≠ r'.id := fun h => hne (by rw [hfind, hfind', Option.map_some,
        Option.map_some, h])
      rw [hrest r.id hr, (ringFindInfoByAddr_cases hfind).1, emptied_findByAddr hfind] at htx
      exact absurd (Option.some.inj htx) (show ¬ (0 : UInt32).toNat = 16 by decide)

end

/-- **When the claimed source domain has no influence.**  The result and the state behind a
send or a sendv are the same for the claims `x` and `y`, in every state with these rules and
these ring ids and for every payload, exactly when `x` and `y` look the same from the
destination. -/
theorem noInfluence_iff (s : Hyp) (d : DomId) (port : UInt32) (dst : Addr) (x y : DomId) :
    NoInfluence s d port dst x y ↔ SameView s d port dst x y := by
  refine ⟨fun h => ?_, SameView.noInfluence⟩
  by_cases hd : s.v4v d = none
  · exact Or.inl hd
  by_cases hdst : s.domains dst.domain = none
  · exact Or.inr (Or.inl hdst)
  have hex : s.domains d ≠ none := fun hnone => hd (Hyp.v4v_of_none hnone)
  obtain ⟨o, ho⟩ := emptySend_returns s hex port dst x
  obtain ⟨o', ho'⟩ := emptySend_returns s hex port dst y
  have hsame : (o.ret, o.state) = (o'.ret, o'.state) := by
    have houtcome : outcome s.emptied d (emptySend port dst x) =
        outcome s.emptied d (emptySend port dst y) :=
      (h s.emptied (emptied_shape s) 0 ⟨false, true⟩).1 (.ofBytes []) 0
    unfold outcome at houtcome
    rw [ho, ho'] at houtcome
    exact Option.some.inj houtcome
  have hd' : s.emptied.v4v d ≠ none := by
    rw [emptied_v4v]
    exact mt Option.map_eq_none_iff.mp hd
  have hdst' : s.emptied.domains dst.domain ≠ none := mt Option.map_eq_none_iff.mp hdst
  refine Or.inr (Or.inr ?_)
  cases hx : viptablesCheck s.viprules ⟨port, x⟩ dst with
  | true =>
    cases hy : viptablesCheck s.viprules ⟨port, y⟩ dst with
    | true => exact ⟨rfl, fun h => by cases h⟩
    | false => exact absurd (Prod.mk.inj hsame).2 (verdict_shows hd' hdst' hx hy ho ho')
  | false =>
    cases hy : viptablesCheck s.viprules ⟨port, y⟩ dst with
    | true => exact absurd (Prod.mk.inj hsame).2.symm (verdict_shows hd' hdst' hy hx ho' ho)
    | false =>
      refine ⟨rfl, fun _ t ht => ?_⟩
      by_contra hne
      exact ring_shows hd ht hx hy hne ho ho' hsame

/-- Claiming to be domain 3 instead of 1 turns a refusal into a delivery. -/
theorem sendAs_influences : ¬ ∀ (s : Hyp) (d : DomId) (src dst : Addr) (x : DomId) (proto : UInt32)
    (env : SendEnv) (buf : GuestBuf) (len : UInt32),
    outcome s d (sendOp src dst proto env buf len) =
      outcome s d (sendOp { src with domain := x } dst proto env buf len) := by
  intro hall
  have hone : (outcome (Hyp.after ringForThree) 1 (sendAs 1)).map Prod.fst =
      some (-econnrefused) := by decide +kernel
  have hthree : (outcome (Hyp.after ringForThree) 1 (sendAs 3)).map Prod.fst = some 0 := by
    decide +kernel
  have hsame := hall (Hyp.after ringForThree) 1 ⟨7, 1⟩ ⟨5, 2⟩ 3 0 ⟨false, true⟩ (.ofBytes []) 0
  rw [show outcome (Hyp.after ringForThree) 1 (sendAs 1) = _ from hsame] at hone
  exact absurd (hone.symm.trans hthree) (by decide)

end V4v
