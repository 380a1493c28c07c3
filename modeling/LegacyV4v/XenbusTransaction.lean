import LegacyV4v.GuardedRun
import Mathlib.Logic.Function.Basic

/-! # Failed transactions

A xenstore transaction records its first failure in `status`: an operation that fails in it, a call of
`xenbus_fail_transaction`, or a resume.  `__xenbus_transaction_end` then sends `F` in place of `T`,
and is to fail in the same way.  But it takes the status from the transaction only when xenstored
says that it has ended it; an error of the end request goes to the caller in its place.  And the
status is looked at before the request is made and after it is answered, with time in between.

Who runs which step does not matter here, so threads are left out: every access to a transaction is
a step. -/
namespace V4v.Xenutil
open GuardedRun

/-! ## Status codes -/

/-- An `NTSTATUS`. -/
abbrev Ntstatus : Type := UInt32

/-- `NT_SUCCESS`. -/
def ntSuccess (status : Ntstatus) : Bool := status < 0x80000000

def statusSuccess : Ntstatus := 0
def statusObjectNameExists : Ntstatus := 0x40000000
def statusDeviceBusy : Ntstatus := 0x80000011
def statusUnsuccessful : Ntstatus := 0xc0000001
def statusInvalidParameter : Ntstatus := 0xc000000d
def statusNoMemory : Ntstatus := 0xc0000017
def statusInvalidSystemService : Ntstatus := 0xc000001c
def statusAccessDenied : Ntstatus := 0xc0000022
def statusObjectNameNotFound : Ntstatus := 0xc0000034
def statusDataError : Ntstatus := 0xc000003e
def statusDiskFull : Ntstatus := 0xc000007f
def statusInsufficientResources : Ntstatus := 0xc000009a
def statusDeviceNotReady : Ntstatus := 0xc00000a3
def statusFileIsADirectory : Ntstatus := 0xc00000ba
def statusInternalError : Ntstatus := 0xc00000e5
def statusDirectoryNotEmpty : Ntstatus := 0xc0000101
def statusRetry : Ntstatus := 0xc000022d
def statusConnectionActive : Ntstatus := 0xc000023b

/-- `xsd_errors`. -/
def xsdErrors : List (Ntstatus × String) :=
  [(statusInvalidParameter, "EINVAL"),
    (statusAccessDenied, "EACCES"),
    (statusObjectNameExists, "EEXIST"),
    (statusFileIsADirectory, "EISDIR"),
    (statusObjectNameNotFound, "ENOENT"),
    (statusNoMemory, "ENOMEM"),
    (statusDiskFull, "ENOSPC"),
    (statusDataError, "EIO"),
    (statusDirectoryNotEmpty, "ENOTEMPTY"),
    (statusInvalidSystemService, "ENOSYS"),
    (statusInternalError, "EROFS"),
    (statusDeviceBusy, "EBUSY"),
    (statusRetry, "EAGAIN"),
    (statusConnectionActive, "EISCONN"),
    (statusDiskFull, "E2BIG")]

/-- `get_error`. -/
def getError (msg : String) : Ntstatus :=
  match xsdErrors.find? fun e => msg = e.2 with
  | some e => e.1
  | none => statusInternalError

/-- How `submit_request_and_await_result` ends: paravirtual drivers are off; operations are not
allowed; xenstored replies with a payload, or with an error, whose text may have found no memory. -/
inductive XsResult (α : Type) where
  | noParavirt
  | notReady
  | replied (payload : α)
  | error (msg : Option String)
  deriving DecidableEq, Repr

namespace XsResult
variable {α : Type}

/-- What `submit_request_and_await_result` returns. -/
def status : XsResult α → Ntstatus
  | .noParavirt => statusUnsuccessful
  | .notReady => statusDeviceNotReady
  | .replied _ => statusSuccess
  | .error (some msg) => getError msg
  | .error none => statusInsufficientResources

/-- The request has come to xenstored. -/
def asked : XsResult α → Bool
  | .noParavirt | .notReady => false
  | .replied _ | .error _ => true

end XsResult

/-! ## Transactions -/

/-- A call of `__xenbus_transaction_end`: `abort` as the caller has it, and, for the record, the first
failure when the status was looked at. -/
structure EndCall where
  abort : Bool
  atTest : Option Ntstatus
  deriving DecidableEq, Repr

/-- What is known of a request when it has been answered: whether it asked xenstored to commit, whether
it came to xenstored at all, and its status. -/
structure EndAnswer where
  commits : Bool
  asked : Bool
  answer : Ntstatus
  deriving DecidableEq, Repr

/-- Where a transaction is: its memory is not in use; its start has not been answered; it can be used;
its end has not been answered, with what `abort` is; it has; or the status has been read, with what
`res` is. -/
inductive TransactionPc where
  | absent
  | starting
  | started
  | ending (e : EndCall) (abort : Bool)
  | answered (e : EndCall) (r : EndAnswer)
  | decided (e : EndCall) (r : EndAnswer) (atRead : Option Ntstatus) (res : Ntstatus)
  deriving DecidableEq, Repr

/-- `struct xenbus_transaction`, with the number of operations whose answer is still to come and, for
the record, the first failure. -/
structure XenbusTransaction where
  status : Ntstatus
  transId : UInt32
  pc : TransactionPc
  pending : Nat
  failure : Option Ntstatus
  deriving DecidableEq, Repr

/-- A `xenbus_transaction_t`. -/
inductive XenbusTransactionT where
  | nil
  | null
  | wrapped (t : Nat)
  deriving DecidableEq, Repr

/-- What a call of `__xenbus_transaction_end` has done: its request, what it returned, and the first
failure recorded when the status was looked at, when it was read, and at the return. -/
structure EndRecord extends EndCall, EndAnswer where
  atRead : Option Ntstatus
  failure : Option Ntstatus
  returned : Ntstatus
  deriving DecidableEq, Repr

/-- The transactions, the list from `head_open_transaction`, and the ends, newest first. -/
structure TransactionSys where
  transaction : Nat → XenbusTransaction
  openTransactions : List Nat
  ended : List EndRecord

/-- A transaction is started, or its start is answered; an operation is begun in one, or is answered;
one is marked failed; all are aborted; the end is begun, is answered, looks at the status, and
returns. -/
inductive TransactionAct where
  | start (t : Nat)
  | startAnswered (t : Nat) (result : XsResult UInt32)
  | operation (xbt : XenbusTransactionT)
  | operationAnswered (t : Nat) (result : XsResult Unit)
  | fail (xbt : XenbusTransactionT) (status : Ntstatus)
  | abortAll
  | finish (xbt : XenbusTransactionT) (abort : Bool)
  | finishAnswered (t : Nat) (result : XsResult Unit)
  | finishRead (t : Nat)
  | finishReturn (t : Nat)
  deriving DecidableEq, Repr

/-- `InterlockedCompareExchange(&xbt->status, status, STATUS_SUCCESS)`, and the record of the first
failure. -/
def XenbusTransaction.fail (xbt : XenbusTransaction) (status : Ntstatus) : XenbusTransaction :=
  { xbt with
    status := if xbt.status = statusSuccess then status else xbt.status
    failure := xbt.failure.or (if ntSuccess status = true then none else some status) }

/-- What `abort_all_transactions` does to a transaction on the list. -/
def XenbusTransaction.abort (xbt : XenbusTransaction) : XenbusTransaction :=
  { xbt with
    status := if ntSuccess xbt.status = true then statusRetry else xbt.status
    failure := xbt.failure.or (some statusRetry) }

namespace TransactionSys
variable {s s' : TransactionSys} {a : TransactionAct} {t : Nat}

def set (s : TransactionSys) (t : Nat) (xbt : XenbusTransaction) : TransactionSys :=
  { s with transaction := Function.update s.transaction t xbt }

/-- `transaction_status`. -/
def transactionStatus (s : TransactionSys) : XenbusTransactionT → Ntstatus
  | .nil => statusSuccess
  | .null => statusInsufficientResources
  | .wrapped t => (s.transaction t).status

/-- `xenbus_fail_transaction`. -/
def xenbusFailTransaction (s : TransactionSys) (status : Ntstatus) :
    XenbusTransactionT → TransactionSys
  | .nil | .null => s
  | .wrapped t => s.set t ((s.transaction t).fail status)

/-- `abort_all_transactions`. -/
def abortAllTransactions (s : TransactionSys) : TransactionSys :=
  { s with transaction := fun t =>
      if t ∈ s.openTransactions then (s.transaction t).abort else s.transaction t }

/-- `__xenbus_transaction_start` up to its request. -/
def xenbusTransactionStart (s : TransactionSys) (t : Nat) : TransactionSys :=
  { s.set t ⟨statusSuccess, 0, .starting, 0, none⟩ with
    openTransactions := t :: s.openTransactions }

/-- The rest of `__xenbus_transaction_start`; `none` if there is no number in the reply. -/
def startAnswered (s : TransactionSys) (t : Nat) (result : XsResult UInt32) :
    Option TransactionSys :=
  let xbt := { s.transaction t with pc := .started }
  match result with
  | .replied transId =>
    some ((s.set t { xbt with transId := transId }).xenbusFailTransaction result.status (.wrapped t))
  | _ =>
    if ntSuccess result.status = true then none
    else some ((s.set t { xbt with transId := 0x66778899 }).xenbusFailTransaction result.status
      (.wrapped t))

/-- An operation such as `xenbus_write_bin` begins. -/
def operation (s : TransactionSys) : XenbusTransactionT → TransactionSys
  | .nil | .null => s
  | .wrapped t =>
    if ntSuccess (s.transactionStatus (.wrapped t)) = true then
      s.set t { s.transaction t with pending := (s.transaction t).pending + 1 }
    else s

/-- It is answered. -/
def operationAnswered (s : TransactionSys) (t : Nat) (result : XsResult Unit) : TransactionSys :=
  let s := s.set t { s.transaction t with pending := (s.transaction t).pending - 1 }
  if ntSuccess result.status = true then s else s.xenbusFailTransaction result.status (.wrapped t)

/-- `__xenbus_transaction_end` up to its request; `none` if the assertion fails. -/
def xenbusTransactionEnd (s : TransactionSys) (abort : Bool) :
    XenbusTransactionT → Option TransactionSys
  | .nil => none
  | .null =>
    let res := statusInsufficientResources
    some { s with ended :=
      ⟨⟨abort, some res⟩, ⟨false, false, res⟩, some res, some res, res⟩ :: s.ended }
  | .wrapped t =>
    let xbt := s.transaction t
    some (s.set t { xbt with
      pc := .ending ⟨abort, xbt.failure⟩ (abort || !ntSuccess xbt.status) })

/-- The request of the end is answered.  It was `F` to abort and `T` to commit. -/
def endAnswered (s : TransactionSys) (t : Nat) (result : XsResult Unit) : TransactionSys :=
  match (s.transaction t).pc with
  | .ending e abort =>
    let r : EndAnswer := ⟨!abort && result.asked, result.asked, result.status⟩
    s.set t { s.transaction t with pc := .answered e r }
  | _ => s

/-- The status is read, if the request was successful. -/
def endRead (s : TransactionSys) (t : Nat) : TransactionSys :=
  let xbt := s.transaction t
  match xbt.pc with
  | .answered e r =>
    let res := if ntSuccess r.answer = true then xbt.status else r.answer
    s.set t { xbt with pc := .decided e r xbt.failure res }
  | _ => s

/-- The transaction is taken off the list and freed. -/
def endReturn (s : TransactionSys) (t : Nat) : TransactionSys :=
  let xbt := s.transaction t
  match xbt.pc with
  | .decided e r atRead res =>
    { s.set t { xbt with pc := .absent } with
      openTransactions := s.openTransactions.erase t
      ended := ⟨e, r, atRead, xbt.failure, res⟩ :: s.ended }
  | _ => s

/-- The result of a step; `none` if an assertion fails. -/
def step (s : TransactionSys) : TransactionAct → Option TransactionSys
  | .start t => some (s.xenbusTransactionStart t)
  | .startAnswered t result => s.startAnswered t result
  | .operation xbt => some (s.operation xbt)
  | .operationAnswered t result => some (s.operationAnswered t result)
  | .fail xbt status => some (s.xenbusFailTransaction status xbt)
  | .abortAll => some s.abortAllTransactions
  | .finish xbt abort => s.xenbusTransactionEnd abort xbt
  | .finishAnswered t result => some (s.endAnswered t result)
  | .finishRead t => some (s.endRead t)
  | .finishReturn t => some (s.endReturn t)

/-- A transaction that a caller has and has not ended. -/
def Usable (s : TransactionSys) : XenbusTransactionT → Prop
  | .nil | .null => True
  | .wrapped t => (s.transaction t).pc = .started

/-- What can happen: a transaction is started in memory that is not in use, used when its start has
been answered and ended once; it is marked with failures only, as every caller does. -/
def Enabled (s : TransactionSys) : TransactionAct → Prop
  | .start t => (s.transaction t).pc = .absent
  | .startAnswered t _ => (s.transaction t).pc = .starting
  | .operation xbt => s.Usable xbt
  | .operationAnswered t _ =>
    (s.transaction t).pending ≠ 0 ∧ (s.transaction t).pc ≠ .absent
  | .fail (.wrapped t) status => ntSuccess status = false ∧
      (s.transaction t).pc ≠ .absent ∧ (s.transaction t).pc ≠ .starting
  | .fail .nil status | .fail .null status => ntSuccess status = false
  | .abortAll => True
  | .finish xbt _ => s.Usable xbt
  | .finishAnswered .. | .finishRead _ | .finishReturn _ => True

/-- No transaction has been started. -/
def Start (s : TransactionSys) : Prop :=
  (∀ t, (s.transaction t).pc = .absent) ∧ s.openTransactions = [] ∧ s.ended = []

/-- The states of all runs. -/
abbrev Reached : TransactionSys → Prop :=
  Reachable Start (fun s a s' => s.Enabled a ∧ s.step a = some s') fun _ _ => True

end TransactionSys

/-! ## What is known of a transaction -/

/-- What is recorded at one time is still recorded at a later one. -/
def Earlier (a b : Option Ntstatus) : Prop := ∀ f, a = some f → b = some f

theorem Earlier.refl (a : Option Ntstatus) : Earlier a a := fun _ => id

theorem Earlier.trans {a b c : Option Ntstatus} (h : Earlier a b) (h' : Earlier b c) :
    Earlier a c :=
  fun f hf => h' f (h f hf)

theorem Earlier.or (a b : Option Ntstatus) : Earlier a (a.or b) := by
  rintro f rfl
  rfl

theorem Earlier.none {a : Option Ntstatus} (h : Earlier a none) : a = none := by
  cases a with
  | none => rfl
  | some f => exact nomatch h f rfl

/-- The request was `T` if the caller did not abort and nothing had been recorded. -/
def RequestOk (e : EndCall) (r : EndAnswer) : Prop :=
  r.commits = (!(e.abort || e.atTest.isSome) && r.asked)

/-- What `res` is. -/
def ResOk (r : EndAnswer) (atRead : Option Ntstatus) (res : Ntstatus) : Prop :=
  res = if ntSuccess r.answer = true then atRead.getD statusSuccess else r.answer

/-- What is known in `__xenbus_transaction_end`. -/
def PcOk (failure : Option Ntstatus) : TransactionPc → Prop
  | .absent | .starting | .started => True
  | .ending e abort => abort = (e.abort || e.atTest.isSome) ∧ Earlier e.atTest failure
  | .answered e r => RequestOk e r ∧ Earlier e.atTest failure
  | .decided e r atRead res =>
    RequestOk e r ∧ ResOk r atRead res ∧ Earlier e.atTest atRead ∧ Earlier atRead failure

/-- **What is known of a transaction.**  Its status is the first failure. -/
structure TransactionOk (xbt : XenbusTransaction) : Prop where
  status : xbt.status = xbt.failure.getD statusSuccess
  failing : ∀ f, xbt.failure = some f → ntSuccess f = false
  pc : PcOk xbt.failure xbt.pc

/-- What is known of an end. -/
structure RecordOk (r : EndRecord) : Prop where
  request : RequestOk r.toEndCall r.toEndAnswer
  res : ResOk r.toEndAnswer r.atRead r.returned
  test : Earlier r.atTest r.atRead
  read : Earlier r.atRead r.failure
  failing : ∀ f, r.failure = some f → ntSuccess f = false

theorem PcOk.later {a b : Option Ntstatus} {pc : TransactionPc} (h : PcOk a pc) (hab : Earlier a b) :
    PcOk b pc := by
  cases pc with
  | absent | starting | started => trivial
  | ending => exact ⟨h.1, h.2.trans hab⟩
  | answered => exact ⟨h.1, h.2.trans hab⟩
  | decided => exact ⟨h.1, h.2.1, h.2.2.1, h.2.2.2.trans hab⟩

theorem TransactionOk.success_iff {xbt : XenbusTransaction} (h : TransactionOk xbt) :
    ntSuccess xbt.status = true ↔ xbt.failure = none := by
  rw [h.status]
  cases hf : xbt.failure with
  | none => exact ⟨fun _ => rfl, fun _ => rfl⟩
  | some f =>
    rw [Option.getD_some, h.failing f hf]
    exact ⟨nofun, nofun⟩

/-- The first failure stays. -/
theorem TransactionOk.fail {xbt : XenbusTransaction} {status : Ntstatus} (h : TransactionOk xbt)
    (hs : ntSuccess status = false ∨ status = statusSuccess) : TransactionOk (xbt.fail status) := by
  have hpc : PcOk (xbt.fail status).failure xbt.pc := h.pc.later (Earlier.or _ _)
  have hst := h.status
  unfold XenbusTransaction.fail at hpc ⊢
  cases hf : xbt.failure with
  | none =>
    rw [hf] at hpc hst
    rcases hs with hs | rfl
    · rw [hs] at hpc ⊢
      refine ⟨if_pos hst, ?_, hpc⟩
      rintro f hfs
      obtain rfl := Option.some.inj hfs
      exact hs
    · refine ⟨?_, nofun, hpc⟩
      exact if_pos hst
  | some f =>
    rw [hf] at hpc hst
    have hne : xbt.status ≠ statusSuccess := by
      intro heq
      have hfail := h.failing f hf
      rw [show f = statusSuccess from hst.symm.trans heq] at hfail
      exact nomatch hfail
    refine ⟨?_, fun g hg => h.failing g (hf.trans hg), hpc⟩
    exact (if_neg hne).trans hst

theorem TransactionOk.abort {xbt : XenbusTransaction} (h : TransactionOk xbt) :
    TransactionOk xbt.abort := by
  have hpc : PcOk xbt.abort.failure xbt.pc := h.pc.later (Earlier.or _ _)
  have hst := h.status
  have hiff := h.success_iff
  unfold XenbusTransaction.abort at hpc ⊢
  cases hf : xbt.failure with
  | none =>
    rw [hf] at hpc
    refine ⟨if_pos (hiff.mpr hf), ?_, hpc⟩
    rintro f hfs
    obtain rfl := Option.some.inj hfs
    rfl
  | some f =>
    rw [hf] at hpc hst
    refine ⟨?_, fun g hg => h.failing g (hf.trans hg), hpc⟩
    refine (if_neg fun hs => ?_).trans hst
    exact nomatch hf.symm.trans (hiff.mp hs)

namespace TransactionSys
variable {s s' : TransactionSys} {a : TransactionAct} {t : Nat}

/-- **What holds at every step.** -/
structure Inv (s : TransactionSys) : Prop where
  transactions : ∀ t, (s.transaction t).pc ≠ .absent → TransactionOk (s.transaction t)
  listed : ∀ t, (s.transaction t).pc ≠ .absent → t ∈ s.openTransactions
  ended : ∀ r ∈ s.ended, RecordOk r

theorem set_transaction (xbt : XenbusTransaction) (u : Nat) :
    (s.set t xbt).transaction u = if u = t then xbt else s.transaction u :=
  Function.update_apply ..

/-- A transaction that is open changes. -/
theorem Inv.set {xbt : XenbusTransaction} (h : s.Inv) (hopen : (s.transaction t).pc ≠ .absent)
    (hok : TransactionOk xbt) : (s.set t xbt).Inv where
  transactions := by
    intro u hu
    rw [set_transaction] at hu ⊢
    split
    · exact hok
    · next hne =>
      rw [if_neg hne] at hu
      exact h.transactions u hu
  listed := by
    intro u hu
    rw [set_transaction] at hu
    split at hu
    · next heq => exact heq ▸ h.listed t hopen
    · exact h.listed u hu
  ended := h.ended

theorem Inv.fail {status : Ntstatus} (h : s.Inv) (hopen : (s.transaction t).pc ≠ .absent)
    (hs : ntSuccess status = false ∨ status = statusSuccess) :
    (s.xenbusFailTransaction status (.wrapped t)).Inv :=
  h.set hopen ((h.transactions t hopen).fail hs)

theorem inv_start {s : TransactionSys} (h : Start s) : s.Inv := by
  obtain ⟨habsent, -, hended⟩ := h
  refine ⟨fun t ht => absurd (habsent t) ht, fun t ht => absurd (habsent t) ht, ?_⟩
  intro r hr
  rw [hended] at hr
  exact nomatch hr

/-- A transaction is put on the list. -/
theorem inv_xenbusTransactionStart (h : s.Inv) : (s.xenbusTransactionStart t).Inv where
  transactions := by
    intro u hu
    change ((s.set t _).transaction u).pc ≠ _ at hu
    change TransactionOk ((s.set t _).transaction u)
    rw [set_transaction] at hu ⊢
    split
    · exact ⟨rfl, nofun, trivial⟩
    · next hne =>
      rw [if_neg hne] at hu
      exact h.transactions u hu
  listed := by
    intro u hu
    change ((s.set t _).transaction u).pc ≠ _ at hu
    rw [set_transaction] at hu
    split at hu
    · next heq => exact heq ▸ List.mem_cons_self
    · exact List.mem_cons_of_mem _ (h.listed u hu)
  ended := h.ended

/-- The start is answered. -/
theorem inv_startAnswered {result : XsResult UInt32} (h : s.Inv)
    (hpc : (s.transaction t).pc = .starting) (hs : s.startAnswered t result = some s') :
    s'.Inv := by
  have hopen : (s.transaction t).pc ≠ .absent := by
    rw [hpc]
    exact nofun
  have hstarted (transId : UInt32) :
      (s.set t { s.transaction t with pc := .started, transId := transId }).Inv := by
    obtain ⟨hstatus, hfailing, -⟩ := h.transactions t hopen
    exact h.set hopen ⟨hstatus, hfailing, trivial⟩
  have hopen' (transId : UInt32) :
      ((s.set t { s.transaction t with pc := .started, transId := transId }).transaction t).pc ≠
        .absent := by
    rw [set_transaction, if_pos rfl]
    exact nofun
  have hother (hs : (if ntSuccess result.status = true then none
      else some ((s.set t { s.transaction t with pc := .started, transId := 0x66778899 })
        |>.xenbusFailTransaction result.status (.wrapped t))) = some s') : s'.Inv := by
    split at hs
    · exact nomatch hs
    · next hfail =>
      obtain rfl := Option.some.inj hs
      exact (hstarted _).fail (hopen' _) (.inl (Bool.eq_false_iff.mpr hfail))
  cases result with
  | replied transId =>
    obtain rfl := Option.some.inj hs
    exact (hstarted _).fail (hopen' _) (.inr rfl)
  | noParavirt | notReady | error => exact hother hs

theorem inv_operation {xbt : XenbusTransactionT} (h : s.Inv) (husable : s.Usable xbt) :
    (s.operation xbt).Inv := by
  cases xbt with
  | nil | null => exact h
  | wrapped t =>
    have hopen : (s.transaction t).pc ≠ .absent := by
      rw [show (s.transaction t).pc = .started from husable]
      exact nofun
    unfold operation
    dsimp only
    split
    · obtain ⟨hstatus, hfailing, hpc⟩ := h.transactions t hopen
      exact h.set hopen ⟨hstatus, hfailing, hpc⟩
    · exact h

theorem inv_operationAnswered {result : XsResult Unit} (h : s.Inv)
    (hopen : (s.transaction t).pc ≠ .absent) : (s.operationAnswered t result).Inv := by
  have hset : (s.set t { s.transaction t with pending := (s.transaction t).pending - 1 }).Inv := by
    obtain ⟨hstatus, hfailing, hpc⟩ := h.transactions t hopen
    exact h.set hopen ⟨hstatus, hfailing, hpc⟩
  unfold operationAnswered
  dsimp only
  split
  · exact hset
  · next hfail =>
    refine hset.fail ?_ (.inl (Bool.eq_false_iff.mpr hfail))
    rw [set_transaction, if_pos rfl]
    exact hopen

theorem inv_abortAllTransactions (h : s.Inv) : s.abortAllTransactions.Inv where
  transactions := by
    intro u hu
    change (if u ∈ s.openTransactions then _ else _ : XenbusTransaction).pc ≠ _ at hu
    change TransactionOk (if u ∈ s.openTransactions then _ else _)
    split
    · next hmem =>
      rw [if_pos hmem] at hu
      exact (h.transactions u hu).abort
    · next hmem =>
      rw [if_neg hmem] at hu
      exact h.transactions u hu
  listed := by
    intro u hu
    change (if u ∈ s.openTransactions then _ else _ : XenbusTransaction).pc ≠ _ at hu
    split at hu
    · next hmem => exact hmem
    · exact h.listed u hu
  ended := h.ended

/-- The end is begun. -/
theorem inv_xenbusTransactionEnd {xbt : XenbusTransactionT} {abort : Bool} (h : s.Inv)
    (husable : s.Usable xbt) (hs : s.xenbusTransactionEnd abort xbt = some s') : s'.Inv := by
  cases xbt with
  | nil => exact nomatch hs
  | null =>
    obtain rfl := Option.some.inj hs
    refine ⟨h.transactions, h.listed, ?_⟩
    intro r hr
    rcases List.mem_cons.mp hr with rfl | hr
    · refine ⟨?_, rfl, Earlier.refl _, Earlier.refl _, ?_⟩
      · exact (Bool.and_false _).symm
      · rintro f hf
        obtain rfl := Option.some.inj hf
        rfl
    · exact h.ended r hr
  | wrapped t =>
    have hopen : (s.transaction t).pc ≠ .absent := by
      rw [show (s.transaction t).pc = .started from husable]
      exact nofun
    obtain rfl := Option.some.inj hs
    have hok := h.transactions t hopen
    refine h.set hopen ⟨hok.status, hok.failing, ?_, Earlier.refl _⟩
    change (abort || !ntSuccess (s.transaction t).status) = (abort || (s.transaction t).failure.isSome)
    congr 1
    cases hf : (s.transaction t).failure with
    | none => rw [hok.success_iff.mpr hf]; rfl
    | some f =>
      have hno : ntSuccess (s.transaction t).status = false := by
        apply Bool.eq_false_iff.mpr
        intro hyes
        exact nomatch hf.symm.trans (hok.success_iff.mp hyes)
      rw [hno]
      rfl

/-- The request of the end is answered. -/
theorem inv_endAnswered {result : XsResult Unit} (h : s.Inv) : (s.endAnswered t result).Inv := by
  unfold endAnswered
  split
  · next e abort hpc =>
    have hopen : (s.transaction t).pc ≠ .absent := by
      rw [hpc]
      exact nofun
    obtain ⟨hstatus, hfailing, hok⟩ := h.transactions t hopen
    rw [hpc] at hok
    refine h.set hopen ⟨hstatus, hfailing, ?_, hok.2⟩
    change (!abort && result.asked) = _
    rw [hok.1]
  · exact h

/-- The status is read. -/
theorem inv_endRead (h : s.Inv) : (s.endRead t).Inv := by
  unfold endRead
  dsimp only
  split
  · next e r hpc =>
    have hopen : (s.transaction t).pc ≠ .absent := by
      rw [hpc]
      exact nofun
    obtain ⟨hstatus, hfailing, hok⟩ := h.transactions t hopen
    rw [hpc] at hok
    refine h.set hopen ⟨hstatus, hfailing, hok.1, ?_, hok.2, Earlier.refl _⟩
    unfold ResOk
    rw [hstatus]
  · exact h

/-- The end returns. -/
theorem inv_endReturn (h : s.Inv) : (s.endReturn t).Inv := by
  unfold endReturn
  dsimp only
  split
  · next e r atRead res hpc =>
    have hopen : (s.transaction t).pc ≠ .absent := by
      rw [hpc]
      exact nofun
    obtain ⟨-, hfailing, hok⟩ := h.transactions t hopen
    rw [hpc] at hok
    refine ⟨?_, ?_, ?_⟩
    · intro u hu
      change ((s.set t _).transaction u).pc ≠ _ at hu
      change TransactionOk ((s.set t _).transaction u)
      rw [set_transaction] at hu ⊢
      split
      · next heq =>
        rw [if_pos heq] at hu
        exact absurd rfl hu
      · next hne =>
        rw [if_neg hne] at hu
        exact h.transactions u hu
    · intro u hu
      change ((s.set t _).transaction u).pc ≠ _ at hu
      rw [set_transaction] at hu
      split at hu
      · exact absurd rfl hu
      · next hne => exact (List.mem_erase_of_ne hne).mpr (h.listed u hu)
    · intro q hq
      rcases List.mem_cons.mp hq with rfl | hq
      · exact ⟨hok.1, hok.2.1, hok.2.2.1, hok.2.2.2, hfailing⟩
      · exact h.ended q hq
  · exact h

theorem inv_step (h : s.Inv) (hen : s.Enabled a) (hs : s.step a = some s') : s'.Inv := by
  cases a with
  | start t =>
    obtain rfl := Option.some.inj hs
    exact inv_xenbusTransactionStart h
  | startAnswered t result => exact inv_startAnswered h hen hs
  | operation xbt =>
    obtain rfl := Option.some.inj hs
    exact inv_operation h hen
  | operationAnswered t result =>
    obtain rfl := Option.some.inj hs
    exact inv_operationAnswered h hen.2
  | fail xbt status =>
    obtain rfl := Option.some.inj hs
    cases xbt with
    | nil | null => exact h
    | wrapped t => exact h.fail hen.2.1 (.inl hen.1)
  | abortAll =>
    obtain rfl := Option.some.inj hs
    exact inv_abortAllTransactions h
  | finish xbt abort => exact inv_xenbusTransactionEnd h hen hs
  | finishAnswered t result =>
    obtain rfl := Option.some.inj hs
    exact inv_endAnswered h
  | finishRead t =>
    obtain rfl := Option.some.inj hs
    exact inv_endRead h
  | finishReturn t =>
    obtain rfl := Option.some.inj hs
    exact inv_endReturn h

theorem Reached.inv (h : Reached s) : s.Inv :=
  Reachable.invariant h (fun _ => inv_start) fun _ _ _ hinv _ hs => inv_step hinv hs.1 hs.2

/-- A resume marks every transaction that is open. -/
theorem aborted_of_open (h : Reached s) (hopen : (s.transaction t).pc ≠ .absent) :
    (s.abortAllTransactions.transaction t).failure ≠ none := by
  have hmem := h.inv.listed t hopen
  change (if t ∈ s.openTransactions then _ else _ : XenbusTransaction).failure ≠ none
  rw [if_pos hmem]
  change (s.transaction t).failure.or (some statusRetry) ≠ none
  cases (s.transaction t).failure <;> exact nofun

end TransactionSys

/-! ## The end -/

/-- What the end of a transaction is to do: it fails as the transaction has, without asking xenstored
to commit, and otherwise returns xenstored's own answer. -/
def EndRecord.Sticky (r : EndRecord) : Prop :=
  (∀ f, r.failure = some f → r.returned = f ∧ r.commits = false) ∧
    (r.failure = none → r.returned = r.answer)

/-- The first failure was there before the status was looked at (or the caller aborts, or xenstored is
not asked), and before it was read, and xenstored answers that it has ended the transaction, or with
the same failure.  If there was none, xenstored does not answer `EEXIST`, which is no failure. -/
def EndRecord.InTime (r : EndRecord) : Prop :=
  match r.failure with
  | some f => (r.abort = true ∨ r.atTest = some f ∨ r.asked = false) ∧
      if ntSuccess r.answer = true then r.atRead = some f else r.answer = f
  | none => ntSuccess r.answer = true → r.answer = statusSuccess

/-- Nothing was recorded. -/
theorem RecordOk.sticky_none {r : EndRecord} (h : RecordOk r) (hnone : r.failure = none) :
    r.Sticky ↔ r.InTime := by
  have hread : r.atRead = none := (hnone ▸ h.read).none
  have hres := h.res
  unfold ResOk at hres
  rw [hread] at hres
  unfold EndRecord.Sticky EndRecord.InTime
  rw [hnone]
  constructor
  · rintro ⟨-, hreturned⟩ hyes
    rw [if_pos hyes] at hres
    exact (hreturned rfl).symm.trans hres
  · intro hanswer
    refine ⟨nofun, fun _ => ?_⟩
    rw [hres]
    split
    · next hyes => exact (hanswer hyes).symm
    · rfl

/-- What is returned. -/
theorem RecordOk.returned_iff {r : EndRecord} {f : Ntstatus} (h : RecordOk r)
    (hsome : r.failure = some f) : r.returned = f ↔
      if ntSuccess r.answer = true then r.atRead = some f else r.answer = f := by
  have hres := h.res
  unfold ResOk at hres
  rw [hres]
  split
  · cases hread : r.atRead with
    | none =>
      have hfail := h.failing f hsome
      constructor
      · rintro rfl
        exact nomatch hfail
      · exact nofun
    | some g =>
      constructor
      · rintro rfl
        rfl
      · rintro heq
        exact Option.some.inj heq
  · exact Iff.rfl

/-- What is asked. -/
theorem RecordOk.commits_iff {r : EndRecord} {f : Ntstatus} (h : RecordOk r)
    (hsome : r.failure = some f) :
    r.commits = false ↔ r.abort = true ∨ r.atTest = some f ∨ r.asked = false := by
  have htest : r.atTest.isSome = true ↔ r.atTest = some f := by
    constructor
    · intro hyes
      obtain ⟨g, hg⟩ := Option.isSome_iff_exists.mp hyes
      rw [hg]
      exact (h.read g (h.test g hg)).symm.trans hsome
    · intro heq
      rw [heq]
      rfl
  rw [show r.commits = _ from h.request, ← htest]
  cases r.abort <;> cases r.atTest.isSome <;> cases r.asked <;> decide

namespace TransactionSys

/-- **When a failed transaction ends as it has failed.** -/
theorem transaction_end_sticky_iff {s : TransactionSys} (h : Reached s) :
    ∀ r ∈ s.ended, r.Sticky ↔ r.InTime := by
  intro r hr
  have hok := h.inv.ended r hr
  cases hf : r.failure with
  | none => exact hok.sticky_none hf
  | some f =>
    unfold EndRecord.Sticky EndRecord.InTime
    rw [hf]
    dsimp only
    rw [← hok.commits_iff hf, ← hok.returned_iff hf]
    constructor
    · rintro ⟨hsome, -⟩
      exact (hsome f rfl).symm
    · rintro ⟨hcommits, hreturned⟩
      refine ⟨?_, nofun⟩
      rintro g hg
      exact Option.some.inj hg ▸ ⟨hreturned, hcommits⟩

/-- Nothing has been started. -/
def initial : TransactionSys := ⟨fun _ => ⟨0, 0, .absent, 0, none⟩, [], []⟩

instance (s : TransactionSys) (a : TransactionAct) : Decidable (s.Enabled a) := by
  cases a with
  | fail xbt => cases xbt <;> unfold Enabled <;> infer_instance
  | operation xbt | finish xbt =>
    cases xbt <;> unfold Enabled Usable <;> infer_instance
  | _ => unfold Enabled; infer_instance

/-- An operation is refused, and the end fails in the same way. -/
theorem transaction_end_sticky_iff_refused : ∃ r : EndRecord,
    r.failure = some statusAccessDenied ∧ r.returned = statusAccessDenied ∧ r.commits = false := by
  have hrun : ∃ s, Reached s ∧ (s.ended.any fun r => r.failure = some statusAccessDenied ∧
      r.atTest = some statusAccessDenied ∧ r.atRead = some statusAccessDenied ∧
        r.answer = statusSuccess) = true :=
    exists_reachable_of_follow initial
      [.start 0, .startAnswered 0 (.replied 7), .operation (.wrapped 0),
        .operationAnswered 0 (.error (some "EACCES")), .finish (.wrapped 0) false,
        .finishAnswered 0 (.replied ()), .finishRead 0, .finishReturn 0]
      ⟨fun _ => rfl, rfl, rfl⟩ (by decide)
  obtain ⟨s, h, hs⟩ := hrun
  obtain ⟨r, hr, hdec⟩ := List.any_eq_true.mp hs
  obtain ⟨hfail, htest, hread, hanswer⟩ := of_decide_eq_true hdec
  have htime : r.InTime := by
    unfold EndRecord.InTime
    rw [hfail, hanswer]
    refine ⟨.inr (.inl htest), ?_⟩
    rw [if_pos (by decide)]
    exact hread
  obtain ⟨hreturned, hcommits⟩ := ((transaction_end_sticky_iff h r hr).mpr htime).1 _ hfail
  exact ⟨r, hfail, hreturned, hcommits⟩

/-- A transaction is aborted by a resume, and xenstored does not know it any more: the caller does not
get to see that it is to retry. -/
theorem retry_lost : ¬ ∀ s : TransactionSys, Reached s → ∀ r ∈ s.ended, r.Sticky := by
  intro hall
  have hrun : ∃ s, Reached s ∧ (s.ended.any fun r => r.failure = some statusRetry ∧
      r.returned = statusObjectNameNotFound) = true :=
    exists_reachable_of_follow initial
      [.start 0, .startAnswered 0 (.replied 7), .abortAll, .finish (.wrapped 0) false,
        .finishAnswered 0 (.error (some "ENOENT")), .finishRead 0, .finishReturn 0]
      ⟨fun _ => rfl, rfl, rfl⟩ (by decide)
  obtain ⟨s, h, hs⟩ := hrun
  obtain ⟨r, hr, hdec⟩ := List.any_eq_true.mp hs
  obtain ⟨hfail, hreturned⟩ := of_decide_eq_true hdec
  have hretry := ((hall s h r hr).1 _ hfail).1
  exact absurd (hreturned.symm.trans hretry) (by decide)

end TransactionSys
end V4v.Xenutil
