import LegacyV4v.GuardedRun
import Mathlib.Data.List.Basic
import Mathlib.Data.List.Count

/-! # Suspend tokens

While somebody holds a suspend token the guest is not suspended.  A token is a node of
`suspend_token_list`, or, when there is no memory for one, a count in `anonymous_token_count`; what
the caller gets is the pointer to the node, or `NULL`, moved on by one so that it is never the null
token.  `EvtchnReleaseSuspendToken` takes a node out of the list again, but counts an anonymous token
up once more.

`SuspendThread` looks at the count and at the list without their lock.  A call that has taken its
token in between waits for `suspend_thread_idle`, which the thread clears before it looks, so it does
not return with the token before the thread is done. -/
namespace V4v.Xenutil
open GuardedRun

/-- A `SUSPEND_TOKEN`: the null token, or what `wrap_SUSPEND_TOKEN` makes of a pointer, `none` being
`NULL`. -/
inductive SuspendToken where
  | null
  | wrapped (tok : Option Nat)
  deriving DecidableEq, Repr

/-- The address of `SuspendCbToken`, which is passed to suspend handlers and is on no list. -/
def suspendCbToken : Nat := 0

/-- `DISPATCH_LEVEL`. -/
def dispatchLevel : Nat := 2

/-- Where `SuspendThread` is: in `SuspendCleanup`, in `XmThreadWait`, reading `control/shutdown`,
behind a zero `anonymous_token_count`, or in `DoSuspend`. -/
inductive SuspendPc where
  | cleaning
  | waiting
  | reading
  | counted
  | suspending
  deriving DecidableEq, Repr

/-- What the functions ask about the thread that calls them. -/
structure TokenCaller where
  onSuspendThread : Bool
  irql : Nat
  deriving DecidableEq, Repr

/-- The tokens.  `suspendThread` is `none` while the variable is `NULL`; `allocating` are the calls
of `EvtchnAllocateSuspendToken` that have their token and have not returned, `held` the tokens that
callers have and have not released. -/
structure TokenSys where
  anonymousTokenCount : UInt32
  suspendTokenList : List Nat
  suspendThreadIdle : Bool
  suspendThread : Option SuspendPc
  allocating : List (TokenCaller × Option Nat)
  held : List (Option Nat)
  deriving DecidableEq, Repr

/-- A call takes its token, with what `XmAllocateMemory` gives it; it returns; a token is released;
the suspend thread is launched, or goes on, `requested` saying whether `control/shutdown` reads
`suspend`. -/
inductive TokenAct where
  | allocate (c : TokenCaller) (tok : Option Nat)
  | allocated (c : TokenCaller) (tok : Option Nat)
  | release (c : TokenCaller) (token : SuspendToken)
  | launch
  | thread (requested : Bool)

namespace TokenSys
variable {s s' : TokenSys} {a : TokenAct}

/-- `EvtchnAllocateSuspendToken` up to the release of the lock. -/
def evtchnAllocateSuspendToken (s : TokenSys) (c : TokenCaller) (tok : Option Nat) :
    Option TokenSys :=
  if s.suspendThread ≠ none ∧ c.onSuspendThread = true then none
  else match tok with
    | some node => some { s with
        suspendTokenList := s.suspendTokenList ++ [node]
        allocating := (c, tok) :: s.allocating }
    | none => some { s with
        anonymousTokenCount := s.anonymousTokenCount + 1
        allocating := (c, tok) :: s.allocating }

/-- The rest of `EvtchnAllocateSuspendToken`, behind the wait for `suspend_thread_idle`. -/
def allocatedSuspendToken (s : TokenSys) (c : TokenCaller) (tok : Option Nat) : Option TokenSys :=
  if s.suspendThread ≠ none ∧ dispatchLevel ≤ c.irql then none
  else some { s with allocating := s.allocating.erase (c, tok), held := tok :: s.held }

/-- `EvtchnReleaseSuspendToken`. -/
def evtchnReleaseSuspendToken (s : TokenSys) (c : TokenCaller) : SuspendToken → Option TokenSys
  | .null => none
  | .wrapped tok =>
    if tok = some suspendCbToken then none
    else if s.suspendThread ≠ none ∧ dispatchLevel < c.irql then none
    else match tok with
      | some node => some { s with
          suspendTokenList := s.suspendTokenList.erase node
          held := s.held.erase tok }
      | none =>
        if s.anonymousTokenCount = 0 then none
        else some { s with
          anonymousTokenCount := s.anonymousTokenCount + 1
          held := s.held.erase tok }

/-- One step of `SuspendThread`. -/
def suspendThreadStep (s : TokenSys) (requested : Bool) : TokenSys :=
  match s.suspendThread with
  | none => s
  | some .cleaning => { s with suspendThread := some .waiting, suspendThreadIdle := true }
  | some .waiting => { s with suspendThread := some .reading, suspendThreadIdle := false }
  | some .reading => { s with suspendThread :=
      if requested = true ∧ s.anonymousTokenCount = 0 then some .counted else some .cleaning }
  | some .counted => { s with suspendThread :=
      if s.suspendTokenList = [] then some .suspending else some .cleaning }
  | some .suspending => { s with suspendThread := some .cleaning }

/-- The result of a step; `none` if an assertion fails. -/
def step (s : TokenSys) : TokenAct → Option TokenSys
  | .allocate c tok => s.evtchnAllocateSuspendToken c tok
  | .allocated c tok => s.allocatedSuspendToken c tok
  | .release c token => s.evtchnReleaseSuspendToken c token
  | .launch => some { s with suspendThread := s.suspendThread.orElse fun _ => some .cleaning }
  | .thread requested => some (s.suspendThreadStep requested)

/-- What can happen: memory that is allocated is not in use, a call returns when the event is set
(or when there is no thread yet), and only tokens that are held are released. -/
def Enabled (s : TokenSys) : TokenAct → Prop
  | .allocate _ tok => ∀ node, tok = some node → node ≠ suspendCbToken ∧ node ∉ s.suspendTokenList
  | .allocated c tok => (c, tok) ∈ s.allocating ∧
      (s.suspendThread = none ∨ s.suspendThreadIdle = true)
  | .release _ token => ∃ tok ∈ s.held, token = .wrapped tok
  | .launch | .thread _ => True

/-- What the assertions demand of the callers: tokens are not allocated on the suspend thread, nor at
a raised IRQL, nor released above `DISPATCH_LEVEL`. -/
def CallersCareful : TokenAct → Prop
  | .allocate c _ => c.onSuspendThread = false
  | .allocated c _ => c.irql < dispatchLevel
  | .release c _ => c.irql ≤ dispatchLevel
  | .launch | .thread _ => True

/-- No anonymous token is released, and there are never `2^32` of them. -/
def NoneAnonymousReleased (s : TokenSys) : TokenAct → Prop
  | .allocate _ none => s.anonymousTokenCount ≠ 4294967295
  | .release _ (.wrapped none) => False
  | _ => True

/-- Nothing has happened. -/
def initial : TokenSys := ⟨0, [], false, none, [], []⟩

/-- The tokens that calls have taken and nobody has released. -/
def outstanding (s : TokenSys) : List (Option Nat) := s.allocating.map Prod.snd ++ s.held

/-- **The count and the list describe the outstanding tokens**, the thread is in `DoSuspend` only
when nobody holds a token, and if none is outstanding it gets there from a request. -/
structure Accounted (s : TokenSys) : Prop where
  counted : s.anonymousTokenCount.toNat = s.outstanding.count none
  listed : s.suspendTokenList.Perm (s.outstanding.filterMap id)
  suspends : s.suspendThread = some .suspending → s.held = []
  performs : s.outstanding = [] →
    (s.suspendThread = some .reading →
      (s.suspendThreadStep true).suspendThread = some .counted) ∧
    (s.suspendThread = some .counted →
      (s.suspendThreadStep true).suspendThread = some .suspending)

/-! ## What the functions do -/

theorem allocate_cases {c : TokenCaller} {tok : Option Nat}
    (h : s.evtchnAllocateSuspendToken c tok = some s') :
    (∃ node, tok = some node ∧ s' = { s with
      suspendTokenList := s.suspendTokenList ++ [node]
      allocating := (c, some node) :: s.allocating }) ∨
    (tok = none ∧ s' = { s with
      anonymousTokenCount := s.anonymousTokenCount + 1
      allocating := (c, none) :: s.allocating }) := by
  unfold evtchnAllocateSuspendToken at h
  split at h
  · cases h
  · cases tok with
    | some node => exact Or.inl ⟨node, rfl, (Option.some.inj h).symm⟩
    | none => exact Or.inr ⟨rfl, (Option.some.inj h).symm⟩

theorem release_cases {c : TokenCaller} {tok : Option Nat}
    (h : s.evtchnReleaseSuspendToken c (.wrapped tok) = some s') :
    (∃ node, tok = some node ∧ s' = { s with
      suspendTokenList := s.suspendTokenList.erase node
      held := s.held.erase (some node) }) ∨
    (tok = none ∧ s' = { s with
      anonymousTokenCount := s.anonymousTokenCount + 1
      held := s.held.erase none }) := by
  cases tok with
  | some node =>
    rw [evtchnReleaseSuspendToken] at h
    split at h
    · cases h
    split at h
    · cases h
    exact Or.inl ⟨node, rfl, (Option.some.inj h).symm⟩
  | none =>
    rw [evtchnReleaseSuspendToken, if_neg (by simp)] at h
    split at h
    · cases h
    split at h
    · cases h
    exact Or.inr ⟨rfl, (Option.some.inj h).symm⟩

/-! ## The count and the list -/

/-- The part of the invariant about the count and the list. -/
structure Counts (s : TokenSys) : Prop where
  counted : s.anonymousTokenCount.toNat = s.outstanding.count none
  listed : s.suspendTokenList.Perm (s.outstanding.filterMap id)
  nodup : s.suspendTokenList.Nodup
  static : suspendCbToken ∉ s.suspendTokenList

theorem Counts.of_perm (h : s.Counts) (hcount : s'.anonymousTokenCount = s.anonymousTokenCount)
    (hlist : s'.suspendTokenList = s.suspendTokenList) (hperm : s'.outstanding.Perm s.outstanding) :
    s'.Counts := by
  obtain ⟨hcounted, hlisted, hnodup, hstatic⟩ := h
  refine ⟨?_, ?_, hlist ▸ hnodup, hlist ▸ hstatic⟩
  · rw [hcount, hperm.count_eq]
    exact hcounted
  · rw [hlist]
    exact hlisted.trans (hperm.filterMap id).symm

/-- A token that was taken is outstanding, whether the call has returned with it or not. -/
theorem perm_allocated {c : TokenCaller} {tok : Option Nat} (hmem : (c, tok) ∈ s.allocating) :
    ((s.allocating.erase (c, tok)).map Prod.snd ++ tok :: s.held).Perm s.outstanding := by
  have hmap := (List.perm_cons_erase hmem).map Prod.snd
  exact List.perm_middle.trans (hmap.symm.append_right s.held)

/-- A token that is released is not outstanding any more. -/
theorem perm_released {tok : Option Nat} (hmem : tok ∈ s.held) :
    (s.allocating.map Prod.snd ++ s.held.erase tok).Perm (s.outstanding.erase tok) := by
  have hout : tok ∈ s.outstanding := List.mem_append_right _ hmem
  have hcons : (tok :: (s.allocating.map Prod.snd ++ s.held.erase tok)).Perm s.outstanding :=
    List.perm_middle.symm.trans ((List.perm_cons_erase hmem).symm.append_left _)
  exact (hcons.trans (List.perm_cons_erase hout)).cons_inv

theorem filterMap_erase_node (l : List (Option Nat)) (node : Nat) :
    (l.erase (some node)).filterMap id = (l.filterMap id).erase node := by
  induction l with
  | nil => rfl
  | cons tok l ih =>
    cases tok with
    | none =>
      rw [List.erase_cons_tail (by simp)]
      exact ih
    | some m =>
      by_cases heq : m = node
      · rw [heq, List.erase_cons_head]
        exact (List.erase_cons_head ..).symm
      · rw [List.erase_cons_tail (by simpa using heq)]
        change m :: (l.erase (some node)).filterMap id = (m :: l.filterMap id).erase node
        rw [List.erase_cons_tail (by simpa using heq), ih]

theorem toNat_add_one {n : UInt32} (h : n ≠ 4294967295) : (n + 1).toNat = n.toNat + 1 := by
  have hlt := n.toNat_lt
  have hne : n.toNat ≠ 4294967295 := fun heq => h (UInt32.toNat_inj.mp heq)
  rw [UInt32.toNat_add, UInt32.toNat_one, Nat.mod_eq_of_lt (by omega)]

/-- A call takes a token. -/
theorem Counts.allocate (h : s.Counts) {c : TokenCaller} {tok : Option Nat}
    (henabled : s.Enabled (.allocate c tok)) (hok : s.NoneAnonymousReleased (.allocate c tok))
    (hstep : s.evtchnAllocateSuspendToken c tok = some s') : s'.Counts := by
  obtain ⟨hcounted, hlisted, hnodup, hstatic⟩ := h
  rcases allocate_cases hstep with ⟨node, rfl, rfl⟩ | ⟨rfl, rfl⟩
  · obtain ⟨hcb, hfresh⟩ := henabled node rfl
    refine ⟨?_, ?_, ?_, ?_⟩
    · exact hcounted.trans (List.count_cons_of_ne (by simp)).symm
    · exact (List.perm_append_singleton ..).trans (hlisted.cons node)
    · exact (List.perm_append_singleton ..).nodup_iff.mpr (List.nodup_cons.mpr ⟨hfresh, hnodup⟩)
    · intro hmem
      rcases List.mem_append.mp hmem with hmem | hmem
      · exact hstatic hmem
      · exact hcb (List.mem_singleton.mp hmem).symm
  · refine ⟨?_, hlisted, hnodup, hstatic⟩
    calc (s.anonymousTokenCount + 1).toNat
        = s.outstanding.count none + 1 := by rw [toNat_add_one hok, hcounted]
      _ = (none :: s.outstanding).count none := List.count_cons_self.symm

/-- A node is released. -/
theorem Counts.release (h : s.Counts) {c : TokenCaller} {token : SuspendToken}
    (henabled : s.Enabled (.release c token)) (hok : s.NoneAnonymousReleased (.release c token))
    (hstep : s.evtchnReleaseSuspendToken c token = some s') : s'.Counts := by
  obtain ⟨hcounted, hlisted, hnodup, hstatic⟩ := h
  obtain ⟨tok, hmem, rfl⟩ := henabled
  rcases release_cases hstep with ⟨node, rfl, rfl⟩ | ⟨rfl, -⟩
  · have hperm := perm_released hmem
    refine ⟨?_, ?_, hnodup.erase node, fun hcb => hstatic (List.mem_of_mem_erase hcb)⟩
    · refine hcounted.trans (Eq.trans ?_ (hperm.count_eq none).symm)
      exact (List.count_erase_of_ne (by simp)).symm
    · refine (hlisted.erase node).trans ?_
      rw [← filterMap_erase_node]
      exact (hperm.filterMap id).symm
  · exact hok.elim

/-! ## The thread -/

/-- The part of the invariant about the thread: while it looks at the tokens no call returns, and
when it has found the count to be zero nobody holds an anonymous token. -/
structure Watched (s : TokenSys) : Prop where
  cleared : s.suspendThread = some .reading ∨ s.suspendThread = some .counted ∨
    s.suspendThread = some .suspending → s.suspendThreadIdle = false
  counted : s.suspendThread = some .counted → none ∉ s.held
  suspends : s.suspendThread = some .suspending → s.held = []

/-- Tokens that are held become fewer, or a call returns, while the thread is not looking. -/
theorem Watched.congr (h : s.Watched) (hthread : s'.suspendThread = s.suspendThread)
    (hidle : s'.suspendThreadIdle = s.suspendThreadIdle) (hheld : s'.held ⊆ s.held) :
    s'.Watched := by
  obtain ⟨hcleared, hcounted, hsuspends⟩ := h
  refine ⟨?_, ?_, ?_⟩
  · rw [hthread, hidle]
    exact hcleared
  · rw [hthread]
    exact fun hpc hmem => hcounted hpc (hheld hmem)
  · rw [hthread]
    exact fun hpc => List.subset_nil.mp (hsuspends hpc ▸ hheld)

theorem Watched.allocated (h : s.Watched) {c : TokenCaller} {tok : Option Nat}
    (henabled : s.Enabled (.allocated c tok)) (hthread : s'.suspendThread = s.suspendThread) :
    s'.Watched := by
  have hnot : ¬ (s.suspendThread = some .reading ∨ s.suspendThread = some .counted ∨
      s.suspendThread = some .suspending) := by
    intro hpc
    rcases henabled.2 with hnone | htrue
    · rw [hnone] at hpc
      rcases hpc with hpc | hpc | hpc <;> cases hpc
    · exact Bool.noConfusion ((h.cleared hpc).symm.trans htrue)
  rw [← hthread] at hnot
  exact ⟨fun hpc => absurd hpc hnot, fun hpc => absurd (Or.inr (Or.inl hpc)) hnot,
    fun hpc => absurd (Or.inr (Or.inr hpc)) hnot⟩

/-- The thread looks at the count, and then at the list. -/
theorem Watched.thread (h : s.Watched) (hcounts : s.Counts) (requested : Bool) :
    (s.suspendThreadStep requested).Watched := by
  have hheld : ∀ tok, tok ∈ s.held → tok ∈ s.outstanding := fun tok hmem =>
    List.mem_append_right _ hmem
  unfold suspendThreadStep
  cases hpc : s.suspendThread with
  | none => exact h
  | some pc =>
    cases pc with
    | cleaning => exact ⟨by simp, by simp, by simp⟩
    | waiting => exact ⟨fun _ => rfl, by simp, by simp⟩
    | reading =>
      have hidle := h.cleared (Or.inl hpc)
      refine ⟨fun _ => hidle, fun hcounted hmem => ?_, fun hsuspend => ?_⟩
      · dsimp only at hcounted hmem
        split at hcounted
        · next hzero =>
          have hcount := hcounts.counted
          rw [hzero.2] at hcount
          exact List.count_eq_zero.mp hcount.symm (hheld none hmem)
        · cases hcounted
      · dsimp only at hsuspend
        split at hsuspend <;> cases hsuspend
    | counted =>
      have hidle := h.cleared (Or.inr (Or.inl hpc))
      refine ⟨fun _ => hidle, fun hcounted => ?_, fun hsuspend => ?_⟩
      · dsimp only at hcounted
        split at hcounted <;> cases hcounted
      · dsimp only at hsuspend ⊢
        split at hsuspend
        · next hnil =>
          refine List.eq_nil_iff_forall_not_mem.mpr fun tok hmem => ?_
          cases tok with
          | none => exact h.counted hpc hmem
          | some node =>
            have hlisted := hcounts.listed
            rw [hnil] at hlisted
            have hnode : node ∈ s.outstanding.filterMap id :=
              List.mem_filterMap.mpr ⟨some node, hheld _ hmem, rfl⟩
            rw [hlisted.symm.eq_nil] at hnode
            cases hnode
        · cases hsuspend
    | suspending => exact ⟨by simp, by simp, by simp⟩

/-! ## Runs -/

/-- The states of all runs whose callers keep to the assertions and whose steps satisfy `ok`. -/
abbrev Reached (ok : TokenSys → TokenAct → Prop) : TokenSys → Prop :=
  Reachable (fun s => s = initial) (fun s a s' => s.Enabled a ∧ s.step a = some s')
    fun s a => CallersCareful a ∧ ok s a

/-- Everything that holds in these runs. -/
structure Inv (s : TokenSys) : Prop where
  counts : s.Counts
  watched : s.Watched

theorem inv_initial : initial.Inv :=
  ⟨⟨rfl, .refl _, List.nodup_nil, List.not_mem_nil⟩, ⟨by simp [initial], by simp [initial],
    by simp [initial]⟩⟩

theorem Inv.step (h : s.Inv) (hok : s.NoneAnonymousReleased a) (henabled : s.Enabled a)
    (hstep : s.step a = some s') : s'.Inv := by
  cases a with
  | allocate c tok =>
    refine ⟨h.counts.allocate henabled hok hstep, ?_⟩
    rcases allocate_cases hstep with ⟨node, -, rfl⟩ | ⟨-, rfl⟩
    · exact h.watched.congr rfl rfl (List.Subset.refl _)
    · exact h.watched.congr rfl rfl (List.Subset.refl _)
  | allocated c tok =>
    change s.allocatedSuspendToken c tok = some s' at hstep
    unfold allocatedSuspendToken at hstep
    split at hstep
    · cases hstep
    · obtain rfl := Option.some.inj hstep
      exact ⟨h.counts.of_perm rfl rfl (perm_allocated henabled.1), h.watched.allocated henabled rfl⟩
  | release c token =>
    refine ⟨h.counts.release henabled hok hstep, ?_⟩
    obtain ⟨tok, hmem, rfl⟩ := henabled
    rcases release_cases hstep with ⟨node, -, rfl⟩ | ⟨rfl, -⟩
    · exact h.watched.congr rfl rfl List.erase_subset
    · exact hok.elim
  | launch =>
    obtain rfl := Option.some.inj hstep
    refine ⟨h.counts.of_perm rfl rfl (.refl _), ?_⟩
    cases hpc : s.suspendThread with
    | none => exact ⟨by simp, by simp, by simp⟩
    | some pc => exact h.watched.congr hpc.symm rfl (List.Subset.refl _)
  | thread requested =>
    obtain rfl := Option.some.inj hstep
    refine ⟨?_, h.watched.thread h.counts requested⟩
    unfold suspendThreadStep
    cases s.suspendThread with
    | none => exact h.counts
    | some pc => cases pc <;> exact h.counts.of_perm rfl rfl (.refl _)

theorem Inv.accounted (h : s.Inv) : s.Accounted := by
  refine ⟨h.counts.counted, h.counts.listed, h.watched.suspends, fun hnil => ⟨fun hpc => ?_,
    fun hpc => ?_⟩⟩
  · have hzero : s.anonymousTokenCount = 0 := by
      have hcount := h.counts.counted
      rw [hnil] at hcount
      exact UInt32.toNat_inj.mp hcount
    simp [suspendThreadStep, hpc, hzero]
  · have hlist : s.suspendTokenList = [] := by
      have hlisted := h.counts.listed
      rw [hnil] at hlisted
      exact hlisted.eq_nil
    simp [suspendThreadStep, hpc, hlist]

theorem Reached.inv (h : Reached NoneAnonymousReleased s) : s.Inv :=
  h.invariant (fun _ hs => hs ▸ inv_initial) fun _ _ _ hinv hok hs => hinv.step hok.2 hs.1 hs.2

/-- No assertion fails. -/
theorem Inv.step_ne_none (h : s.Inv) (henabled : s.Enabled a) (hcareful : CallersCareful a) :
    s.step a ≠ none := by
  cases a with
  | allocate c tok =>
    have hthread : c.onSuspendThread = false := hcareful
    cases tok <;> simp [TokenSys.step, evtchnAllocateSuspendToken, hthread]
  | allocated c tok =>
    have hirql : ¬ dispatchLevel ≤ c.irql := Nat.not_le.mpr hcareful
    simp [TokenSys.step, allocatedSuspendToken, hirql]
  | release c token =>
    obtain ⟨tok, hmem, rfl⟩ := henabled
    have hirql : ¬ dispatchLevel < c.irql := Nat.not_lt.mpr hcareful
    have hout : tok ∈ s.outstanding := List.mem_append_right _ hmem
    cases tok with
    | none =>
      have hpos := List.count_pos_iff.mpr hout
      have hne : s.anonymousTokenCount ≠ 0 := by
        intro hzero
        have hcounted := h.counts.counted
        rw [hzero, UInt32.toNat_zero] at hcounted
        omega
      simp [TokenSys.step, evtchnReleaseSuspendToken, hirql, hne]
    | some node =>
      have hnode : node ∈ s.suspendTokenList :=
        h.counts.listed.mem_iff.mpr (List.mem_filterMap.mpr ⟨some node, hout, rfl⟩)
      have hstatic : node ≠ suspendCbToken := fun heq => h.counts.static (heq ▸ hnode)
      simp [TokenSys.step, evtchnReleaseSuspendToken, hirql, hstatic]
  | launch | thread => exact Option.some_ne_none _

/-- A step that does not meet the condition gets the count wrong. -/
theorem Inv.not_accounted (h : s.Inv) (hnot : ¬ s.NoneAnonymousReleased a) (henabled : s.Enabled a)
    (hstep : s.step a = some s') : ¬ s'.Accounted := by
  intro hacc
  have hcounted := h.counts.counted
  have hcounted' := hacc.counted
  cases a with
  | allocate c tok =>
    rcases allocate_cases hstep with ⟨node, rfl, -⟩ | ⟨rfl, rfl⟩
    · exact hnot trivial
    · have hmax : s.anonymousTokenCount = 4294967295 := not_not.mp hnot
      rw [hmax] at hcounted'
      exact Nat.succ_ne_zero _ (List.count_cons_self.symm.trans hcounted'.symm)
  | release c token =>
    obtain ⟨tok, hmem, rfl⟩ := henabled
    rcases release_cases hstep with ⟨node, rfl, -⟩ | ⟨rfl, rfl⟩
    · exact hnot trivial
    · have hless : s.outstanding.count none - 1 = (s.anonymousTokenCount + 1).toNat := by
        refine Eq.trans ?_ hcounted'.symm
        exact (List.count_erase_self.symm).trans ((perm_released hmem).count_eq none).symm
      have hpos := List.count_pos_iff.mpr (List.mem_append_right (s.allocating.map Prod.snd) hmem)
      have hlt := s.anonymousTokenCount.toNat_lt
      change 0 < s.outstanding.count none at hpos
      rw [UInt32.toNat_add, UInt32.toNat_one] at hless
      omega
  | allocated | launch | thread => exact hnot trivial

/-- **Tokens are accounted for as long as no anonymous one is released**, and the first step that
releases one (or takes the `2^32`-nd) gets the count wrong; until then no assertion fails. -/
theorem tokens_accounted (h : Reached NoneAnonymousReleased s) : s.Accounted ∧
    (∀ a, s.Enabled a → CallersCareful a → s.step a ≠ none) ∧
    ∀ a s', s.Enabled a → s.step a = some s' →
      (s'.Accounted ↔ s.NoneAnonymousReleased a) := by
  have hinv := h.inv
  refine ⟨hinv.accounted, fun a => hinv.step_ne_none, fun a s' henabled hstep => ?_⟩
  constructor
  · exact fun hacc => not_not.mp fun hnot => hinv.not_accounted hnot henabled hstep hacc
  · exact fun hok => (hinv.step hok henabled hstep).accounted

/-- The state in which somebody has a token with this node. -/
def heldToken (tok : Option Nat) (count : UInt32) (list : List Nat) : TokenSys :=
  ⟨count, list, false, none, [], [tok]⟩

theorem tokens_accounted_node : (heldToken (some 1) 0 [1]).Accounted := by
  have hfirst : Reached NoneAnonymousReleased ⟨0, [1], false, none, [(⟨false, 0⟩, some 1)], []⟩ :=
    .next (i := .allocate ⟨false, 0⟩ (some 1)) (.start rfl) ⟨rfl, trivial⟩ ⟨by
      intro node hnode
      obtain rfl := Option.some.inj hnode
      exact ⟨by decide, List.not_mem_nil⟩, rfl⟩
  have hheld : Reached NoneAnonymousReleased (heldToken (some 1) 0 [1]) :=
    .next (i := .allocated ⟨false, 0⟩ (some 1)) hfirst ⟨Nat.zero_lt_succ _, trivial⟩
      ⟨⟨List.mem_singleton_self _, Or.inl rfl⟩, by decide⟩
  exact (tokens_accounted hheld).1

/-- A token for which there was no memory is released: nothing is outstanding, and the count is 2. -/
theorem anonymous_release_not_accounted :
    ¬ ∀ s : TokenSys, Reached (fun _ _ => True) s → s.Accounted := by
  intro hall
  have hfirst : Reached (fun _ _ => True) ⟨1, [], false, none, [(⟨false, 0⟩, none)], []⟩ :=
    .next (i := .allocate ⟨false, 0⟩ none) (.start rfl) ⟨rfl, trivial⟩
      ⟨fun _ hnode => (nomatch hnode), rfl⟩
  have hheld : Reached (fun _ _ => True) (heldToken none 1 []) :=
    .next (i := .allocated ⟨false, 0⟩ none) hfirst ⟨Nat.zero_lt_succ _, trivial⟩
      ⟨⟨List.mem_singleton_self _, Or.inl rfl⟩, by decide⟩
  have hreleased : Reached (fun _ _ => True) ⟨2, [], false, none, [], []⟩ :=
    .next (i := .release ⟨false, 0⟩ (.wrapped none)) hheld ⟨Nat.zero_le _, trivial⟩
      ⟨⟨none, List.mem_singleton_self _, rfl⟩, by decide⟩
  exact absurd (hall _ hreleased).counted (by decide)

end TokenSys
end V4v.Xenutil
