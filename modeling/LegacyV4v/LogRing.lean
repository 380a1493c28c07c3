import Mathlib.Algebra.Group.Nat.Defs
import Mathlib.Data.List.DropRight
import LegacyV4v.IndexedRing

/-! # The log of the Windows drivers

`logging.c`: a message is made into a line and sent to the places its level says, one of them a
ring of the last bytes, which crash dumps and the event log read.  The results say what those
readers find, after any run of the operations. -/
namespace V4v.Xenutil
open IndexedRing

/-! ## Where a message goes -/

/-- The size of the ring. -/
abbrev LOG_MSG_BUFFER_SIZE : UInt32 := 8192

def XENTRACE_KD : BitVec 32 := 1 <<< 0
def XENTRACE_XEN : BitVec 32 := 1 <<< 1
def XENTRACE_LOG : BitVec 32 := 1 <<< 2
def XENTRACE_DOM0 : BitVec 32 := 1 <<< 3
def XENTRACE_WPP : BitVec 32 := 1 <<< 4
def XENTRACE_BUGCHECK : BitVec 32 := 1 <<< 5

/-- `XEN_TRACE_LEVEL`, as an index of the table. -/
abbrev Level := Fin 11

namespace Level
def debug : Level := 0
def verbose : Level := 1
def info : Level := 2
def notice : Level := 3
def warning : Level := 4
def error : Level := 5
def critical : Level := 6
def bugCheck : Level := 7
def profile : Level := 9
def internal : Level := 10
end Level

/-- How many levels `XenTraceSetLevels` and `XenTraceSetBugcheckLevels` go over. -/
abbrev XenTraceLevels : Nat := 8

/-- `XenTraceDispositions` as it is at the start. -/
def xenTraceDispositions : Level → BitVec 32
  | 0 => XENTRACE_WPP ||| XENTRACE_LOG
  | 1 => XENTRACE_WPP ||| XENTRACE_LOG ||| XENTRACE_KD
  | 2 => XENTRACE_WPP ||| XENTRACE_LOG ||| XENTRACE_KD ||| XENTRACE_XEN
  | 3 | 4 | 5 | 6 =>
    XENTRACE_WPP ||| XENTRACE_LOG ||| XENTRACE_KD ||| XENTRACE_XEN ||| XENTRACE_DOM0
  | 7 =>
    XENTRACE_WPP ||| XENTRACE_LOG ||| XENTRACE_KD ||| XENTRACE_XEN ||| XENTRACE_DOM0 |||
      XENTRACE_BUGCHECK
  | 8 => 0
  | 9 => XENTRACE_WPP
  | 10 => XENTRACE_DOM0 ||| XENTRACE_XEN

/-- The loop of `XenTraceSetMtcLevels`. -/
def setMtcLevels (d : Level → BitVec 32) : Level → BitVec 32 := fun x =>
  d x &&& ~~~(XENTRACE_WPP ||| XENTRACE_LOG ||| XENTRACE_KD)

/-- The loop of `XenTraceSetLevels`. -/
def setLevels (levels : Fin XenTraceLevels → BitVec 32) (d : Level → BitVec 32) :
    Level → BitVec 32 := fun x =>
  if h : x.val < XenTraceLevels then levels ⟨x.val, h⟩ &&& ~~~XENTRACE_BUGCHECK else d x

/-- The loop of `XenTraceSetBugcheckLevels`. -/
def setBugcheckLevels (d : Level → BitVec 32) : Level → BitVec 32 := fun x =>
  if x.val < XenTraceLevels then XENTRACE_LOG ||| XENTRACE_XEN ||| XENTRACE_DOM0 else d x

/-- The static variables of `logging.c`, and what the ports and the trace function have been
given. -/
structure Log where
  buffer : Nat → UInt8
  ptr : UInt32
  dispositions : Level → BitVec 32
  /-- `dom0_debug_port` is not 0 -/
  dom0_debug_port : Bool
  /-- `WppTrace` is set -/
  wppTrace : Bool
  xen : List UInt8
  dom0 : List UInt8
  wpp : List (Level × List UInt8)
  bugcheck : List (List UInt8)

/-- The variables when the driver is loaded. -/
def Log.start (dom0_debug_port wppTrace : Bool) : Log where
  buffer := fun _ => 0
  ptr := 0
  dispositions := xenTraceDispositions
  dom0_debug_port := dom0_debug_port
  wppTrace := wppTrace
  xen := []
  dom0 := []
  wpp := []
  bugcheck := []

/-! ## Lines -/

/-- A string literal. -/
def literal (s : String) : List UInt8 := s.toList.map fun c => c.toNat.toUInt8

/-- The name of a driver, short enough for the line to begin with it. -/
structure ModuleName where
  chars : List UInt8
  short : chars.length + 12 < 256

/-- `_DEFINE_PREFIX` -/
def levelPrefix (level : Level) : List UInt8 :=
  if level = Level.warning then literal "WARNING"
  else if level = Level.error then literal "ERROR"
  else if level = Level.critical then literal "CRITICAL"
  else if level = Level.bugCheck then literal "BUG: "
  else []

/-- What `___XenTrace` puts in front of the text. -/
def lineHead (level : Level) (module : ModuleName) : List UInt8 :=
  if level = Level.internal then []
  else
    List.replicate (8 - module.chars.length) 32 ++ module.chars ++ literal ": " ++
      (if levelPrefix level = [] then [] else levelPrefix level ++ literal ": ")

/-- `buf`, as a string: the text is cut where the 256 bytes end. -/
def line (level : Level) (module : ModuleName) (text : List UInt8) : List UInt8 :=
  ((lineHead level module ++ text).take 255).takeWhile (· ≠ 0)

namespace Log

/-! ## Sending -/

def putCharToRing (l : Log) (c : UInt8) : Log :=
  { l with
    buffer := Function.update l.buffer (l.ptr % LOG_MSG_BUFFER_SIZE).toNat c
    ptr := l.ptr + 1 }

def sendMessageToRing (l : Log) (msg : List UInt8) : Log :=
  let l := (l.putCharToRing 62).putCharToRing 32
  (msg.foldl putCharToRing l).putCharToRing 0

def putCharToXen (l : Log) (c : UInt8) : Log := { l with xen := l.xen ++ [c] }

def sendMessageToXen (l : Log) (msg : List UInt8) : Log := msg.foldl putCharToXen l

def putCharToDom0 (l : Log) (c : UInt8) : Log :=
  if l.dom0_debug_port then { l with dom0 := l.dom0 ++ [c] } else l

def sendMessageToDom0 (l : Log) (msg : List UInt8) : Log := msg.foldl putCharToDom0 l

def sendMessageToWpp (l : Log) (level : Level) (msg : List UInt8) : Log :=
  if l.wppTrace then { l with wpp := l.wpp ++ [(level, msg)] } else l

/-- `___XenTrace`, in a build without `DBG`; `text` is what `fmt` and `args` print. -/
def xenTrace (l : Log) (level : Level) (module : ModuleName) (text : List UInt8) : Log :=
  if l.dispositions level = 0 then l
  else
    let buf := line level module text
    let disposition := l.dispositions level
    let l := if disposition &&& XENTRACE_XEN ≠ 0 then l.sendMessageToXen buf else l
    let l := if disposition &&& XENTRACE_LOG ≠ 0 then l.sendMessageToRing buf else l
    let l :=
      if disposition &&& XENTRACE_DOM0 ≠ 0 ∧ l.dom0_debug_port then l.sendMessageToDom0 buf else l
    let l := if disposition &&& XENTRACE_WPP ≠ 0 then l.sendMessageToWpp level buf else l
    if disposition &&& XENTRACE_BUGCHECK ≠ 0 then { l with bugcheck := l.bugcheck ++ [buf] } else l


/-! ## Reading -/

def hvmGetLogRingSize (l : Log) : UInt32 :=
  if l.ptr ≥ LOG_MSG_BUFFER_SIZE then LOG_MSG_BUFFER_SIZE else l.ptr

/-- `none` is `STATUS_INVALID_USER_BUFFER`. -/
def hvmGetLogRing (l : Log) (size : UInt32) : Option (List UInt8) :=
  let ptr := l.ptr
  if ptr > LOG_MSG_BUFFER_SIZE then
    if size ≠ LOG_MSG_BUFFER_SIZE then none
    else
      let ptr := ptr % LOG_MSG_BUFFER_SIZE
      some (peek l.buffer ptr.toNat (LOG_MSG_BUFFER_SIZE - ptr).toNat ++ peek l.buffer 0 ptr.toNat)
  else if size ≠ ptr then none
  else some (peek l.buffer 0 ptr.toNat)

/-- Where the tail of the log starts. -/
def tailStart (l : Log) (max_size : UInt32) : UInt32 :=
  let max_size := if max_size > LOG_MSG_BUFFER_SIZE then LOG_MSG_BUFFER_SIZE else max_size
  if l.ptr > max_size then l.ptr - max_size else 0

def xmExtractTailOfLog (l : Log) (max_size : UInt32) : List UInt8 × UInt32 :=
  let stop := l.ptr
  let start := l.tailStart max_size
  let outbuf :=
    if start / LOG_MSG_BUFFER_SIZE = stop / LOG_MSG_BUFFER_SIZE then
      peek l.buffer (start % LOG_MSG_BUFFER_SIZE).toNat (stop - start).toNat
    else
      peek l.buffer (start % LOG_MSG_BUFFER_SIZE).toNat
          (LOG_MSG_BUFFER_SIZE - start % LOG_MSG_BUFFER_SIZE).toNat ++
        peek l.buffer 0 (stop % LOG_MSG_BUFFER_SIZE).toNat
  (outbuf, stop - start)

/-- The loop of `XenTraceFlush`. -/
def flushLoop (l : Log) (x stop : UInt32) : Log :=
  if x < stop then
    let c := l.buffer (x % LOG_MSG_BUFFER_SIZE).toNat
    let l := if c ≠ 0 then (l.putCharToXen c).putCharToDom0 c else l
    flushLoop l (x + 1) stop
  else l
termination_by stop.toNat - x.toNat
decreasing_by
  have hlt : x.toNat < stop.toNat := by assumption
  have hstop := stop.toNat_lt
  have hnext : (x + 1).toNat = x.toNat + 1 := by
    rw [UInt32.toNat_add]
    exact Nat.mod_eq_of_lt (by have : (1 : UInt32).toNat = 1 := rfl; omega)
  omega

def xenTraceFlush (l : Log) : Log :=
  let ptr := l.ptr
  let l := l.sendMessageToXen (literal "Log messages:\n")
  let l := l.sendMessageToDom0 (literal "Log messages:\n")
  let l := l.flushLoop ptr (ptr + LOG_MSG_BUFFER_SIZE)
  let l := l.sendMessageToXen (literal "\n")
  l.sendMessageToDom0 (literal "\n")

end Log

/-- What the rest of the drivers does with the log. -/
inductive LogCall where
  | trace (level : Level) (module : ModuleName) (text : List UInt8)
  | setMtcLevels
  | setLevels (levels : Fin XenTraceLevels → BitVec 32)
  | setBugcheckLevels
  | flush

def Log.call (l : Log) : LogCall → Log
  | .trace level module text => l.xenTrace level module text
  | .setMtcLevels => { l with dispositions := Xenutil.setMtcLevels l.dispositions }
  | .setLevels levels => { l with dispositions := Xenutil.setLevels levels l.dispositions }
  | .setBugcheckLevels => { l with dispositions := Xenutil.setBugcheckLevels l.dispositions }
  | .flush => l.xenTraceFlush

/-! ## What should be in the ring -/

/-- A message as the ring has it. -/
def frame (msg : List UInt8) : List UInt8 := 62 :: 32 :: (msg ++ [0])

/-- What a call adds. -/
def logged (d : Level → BitVec 32) : LogCall → List UInt8
  | .trace level module text =>
    if d level &&& XENTRACE_LOG ≠ 0 then frame (line level module text) else []
  | .setMtcLevels | .setLevels _ | .setBugcheckLevels | .flush => []

/-- The table after a call. -/
def levelsAfter (d : Level → BitVec 32) : LogCall → Level → BitVec 32
  | .setMtcLevels => setMtcLevels d
  | .setLevels levels => setLevels levels d
  | .setBugcheckLevels => setBugcheckLevels d
  | .trace .. | .flush => d

/-- What a run of calls adds. -/
def loggedAll (d : Level → BitVec 32) : List LogCall → List UInt8
  | [] => []
  | c :: cs => logged d c ++ loggedAll (levelsAfter d c) cs

/-- What a flush gives to a port; it gives nothing when the pointer is in the last ring's worth of
numbers, where `x < ptr + LOG_MSG_BUFFER_SIZE` fails at once. -/
def flushed (hist : List UInt8) : List UInt8 :=
  literal "Log messages:\n" ++
    (if hist.length % 2 ^ 32 + 8192 < 2 ^ 32 then (hist.rtake 8192).filter (· ≠ 0) else []) ++
      literal "\n"

/-- The line never runs over its buffer before the text begins. -/
theorem length_lineHead (level : Level) (module : ModuleName) :
    (lineHead level module).length < 256 := by
  have hshort := module.short
  have hprefix : (levelPrefix level).length ≤ 8 := by
    rw [levelPrefix]
    split_ifs <;> decide
  have hcolon : (literal ": ").length = 2 := by decide
  rw [lineHead]
  split
  · decide
  · rw [List.length_append, List.length_append, List.length_append, List.length_replicate, hcolon]
    split
    · rw [List.length_nil]
      omega
    · rw [List.length_append, hcolon]
      omega

namespace Log

variable {l l' : Log} {hist : List UInt8} {k : Nat}

/-! ## What the ring has -/

/-- The ring has the end of `hist`. -/
structure Holds (l : Log) (hist : List UInt8) : Prop where
  ring : Remembers 8192 l.buffer (List.replicate 8192 0 ++ hist)
  ptr : l.ptr = UInt32.ofNat hist.length

theorem holds_start (dom0_debug_port wppTrace : Bool) :
    (start dom0_debug_port wppTrace).Holds [] where
  ring := by
    rw [List.append_nil]
    exact remembers_replicate
  ptr := rfl

theorem Holds.of_eq (h : l.Holds hist) (hbuffer : l'.buffer = l.buffer) (hptr : l'.ptr = l.ptr) :
    l'.Holds hist where
  ring := hbuffer ▸ h.ring
  ptr := hptr.trans h.ptr

theorem Holds.toNat_ptr (h : l.Holds hist) : l.ptr.toNat = hist.length % 2 ^ 32 := by
  rw [h.ptr]
  exact UInt32.toNat_ofNat'

/-- The place of the pointer in the ring is that of the history: the ring's size divides `2 ^ 32`. -/
theorem Holds.ptr_mod (h : l.Holds hist) : l.ptr.toNat % 8192 = hist.length % 8192 := by
  rw [h.toNat_ptr, Nat.mod_mod_of_dvd]
  decide

theorem Holds.putCharToRing (h : l.Holds hist) (c : UInt8) :
    (l.putCharToRing c).Holds (hist ++ [c]) where
  ring := by
    have hcell : (l.ptr % LOG_MSG_BUFFER_SIZE).toNat = (List.replicate 8192 0 ++ hist).length % 8192 := by
      rw [UInt32.toNat_mod, List.length_append, List.length_replicate, Nat.add_mod_left]
      exact h.ptr_mod
    rw [Log.putCharToRing, hcell, ← List.append_assoc]
    exact h.ring.push c
  ptr := by
    rw [Log.putCharToRing, h.ptr, List.length_append, List.length_singleton, UInt32.ofNat_add]
    rfl

theorem Holds.foldl_putCharToRing (h : l.Holds hist) (msg : List UInt8) :
    (msg.foldl Log.putCharToRing l).Holds (hist ++ msg) := by
  induction msg generalizing l hist with
  | nil => rwa [List.append_nil]
  | cons c msg ih =>
    rw [← List.singleton_append, ← List.append_assoc]
    exact ih (h.putCharToRing c)

theorem Holds.sendMessageToRing (h : l.Holds hist) (msg : List UInt8) :
    (l.sendMessageToRing msg).Holds (hist ++ frame msg) := by
  have hall := (((h.putCharToRing 62).putCharToRing 32).foldl_putCharToRing msg).putCharToRing 0
  rwa [List.append_assoc, List.append_assoc, List.append_assoc] at hall

/-! ## What the calls do to the ring -/

/-- What the other places a message goes to leave alone. -/
def ringOf (l : Log) : (Nat → UInt8) × UInt32 × (Level → BitVec 32) :=
  (l.buffer, l.ptr, l.dispositions)

theorem Holds.of_ringOf (h : l.Holds hist) (hring : l'.ringOf = l.ringOf) : l'.Holds hist := by
  obtain ⟨hbuffer, hptr, -⟩ : l'.buffer = l.buffer ∧ l'.ptr = l.ptr ∧ _ := by
    simpa only [ringOf, Prod.mk.injEq] using hring
  exact h.of_eq hbuffer hptr

/-- A loop over a message keeps what its step keeps. -/
theorem foldl_keeps {β : Type} (f : Log → β) (put : Log → UInt8 → Log)
    (hput : ∀ l c, f (put l c) = f l) (l : Log) (msg : List UInt8) : f (msg.foldl put l) = f l := by
  induction msg generalizing l with
  | nil => rfl
  | cons c msg ih => rw [List.foldl_cons, ih, hput]

theorem ringOf_putCharToDom0 (l : Log) (c : UInt8) : (l.putCharToDom0 c).ringOf = l.ringOf := by
  rw [putCharToDom0]
  split <;> rfl

@[simp] theorem ringOf_sendMessageToXen (msg : List UInt8) :
    (l.sendMessageToXen msg).ringOf = l.ringOf :=
  foldl_keeps ringOf putCharToXen (fun _ _ => rfl) l msg

@[simp] theorem ringOf_sendMessageToDom0 (msg : List UInt8) :
    (l.sendMessageToDom0 msg).ringOf = l.ringOf :=
  foldl_keeps ringOf putCharToDom0 ringOf_putCharToDom0 l msg

@[simp] theorem ringOf_sendMessageToWpp (level : Level) (msg : List UInt8) :
    (l.sendMessageToWpp level msg).ringOf = l.ringOf := by
  rw [sendMessageToWpp]
  split <;> rfl

@[simp] theorem ringOf_flushLoop (x stop : UInt32) : (l.flushLoop x stop).ringOf = l.ringOf := by
  fun_induction l.flushLoop x stop with
  | case1 l x hlt c l₁ ih =>
    have hone : l₁.ringOf = l.ringOf := by
      dsimp only [l₁]
      split
      · rw [ringOf_putCharToDom0]
        rfl
      · rfl
    rw [ih, hone]
  | case2 => rfl

@[simp] theorem ringOf_xenTraceFlush : l.xenTraceFlush.ringOf = l.ringOf := by
  simp [xenTraceFlush]

theorem dispositions_of_ringOf (hring : l'.ringOf = l.ringOf) : l'.dispositions = l.dispositions :=
  congrArg (·.2.2) hring

theorem dispositions_sendMessageToRing (msg : List UInt8) :
    (l.sendMessageToRing msg).dispositions = l.dispositions :=
  foldl_keeps dispositions putCharToRing (fun _ _ => rfl) ((l.putCharToRing 62).putCharToRing 32) msg

/-- A message leaves the table, and adds its line to the ring if its level says so. -/
theorem Holds.xenTrace (h : l.Holds hist) (level : Level) (module : ModuleName)
    (text : List UInt8) :
    (l.xenTrace level module text).Holds
        (hist ++ logged l.dispositions (.trace level module text)) ∧
      (l.xenTrace level module text).dispositions = l.dispositions := by
  rw [Log.xenTrace, logged]
  by_cases hzero : l.dispositions level = 0
  · rw [if_pos hzero, hzero, if_neg (by decide), List.append_nil]
    exact ⟨h, rfl⟩
  rw [if_neg hzero]
  -- `l₁` has been to the Xen port, `l₂` to the ring, `l₃` to the port of domain 0, `l₄` to WPP
  extract_lets buf disposition l₁ l₂ l₃ l₄
  have h₁ : l₁.ringOf = l.ringOf := by
    dsimp only [l₁]
    split
    · exact ringOf_sendMessageToXen buf
    · rfl
  have h₂ : l₂.Holds (hist ++ if disposition &&& XENTRACE_LOG ≠ 0 then frame buf else []) ∧
      l₂.dispositions = l₁.dispositions := by
    dsimp only [l₂]
    split
    · exact ⟨(h.of_ringOf h₁).sendMessageToRing buf, dispositions_sendMessageToRing buf⟩
    · rw [List.append_nil]
      exact ⟨h.of_ringOf h₁, rfl⟩
  have h₃ : l₃.ringOf = l₂.ringOf := by
    dsimp only [l₃]
    split
    · exact ringOf_sendMessageToDom0 buf
    · rfl
  have h₄ : l₄.ringOf = l₃.ringOf := by
    dsimp only [l₄]
    split
    · exact ringOf_sendMessageToWpp level buf
    · rfl
  have h₅ : (if disposition &&& XENTRACE_BUGCHECK ≠ 0 then
      { l₄ with bugcheck := l₄.bugcheck ++ [buf] } else l₄).ringOf = l₂.ringOf := by
    rw [← h₃, ← h₄]
    split <;> rfl
  refine ⟨h₂.1.of_ringOf h₅, ?_⟩
  rw [dispositions_of_ringOf h₅, h₂.2, dispositions_of_ringOf h₁]

/-- One call. -/
theorem Holds.call (h : l.Holds hist) (c : LogCall) :
    (l.call c).Holds (hist ++ logged l.dispositions c) ∧
      (l.call c).dispositions = levelsAfter l.dispositions c := by
  cases c with
  | trace level module text => exact h.xenTrace level module text
  | flush =>
    rw [logged, List.append_nil]
    exact ⟨h.of_ringOf ringOf_xenTraceFlush, dispositions_of_ringOf ringOf_xenTraceFlush⟩
  | setMtcLevels | setLevels _ | setBugcheckLevels =>
    rw [logged, List.append_nil]
    exact ⟨h.of_eq rfl rfl, rfl⟩

/-- A run of calls. -/
theorem Holds.foldl_call (h : l.Holds hist) (cs : List LogCall) :
    (cs.foldl Log.call l).Holds (hist ++ loggedAll l.dispositions cs) := by
  induction cs generalizing l hist with
  | nil => rwa [loggedAll, List.append_nil]
  | cons c cs ih =>
    obtain ⟨hone, htable⟩ := h.call c
    have hall := ih hone
    rwa [htable, List.append_assoc] at hall

/-! ## What the readers find -/

/-- The cells up to the pointer are the end of the history. -/
theorem Holds.get (h : l.Holds hist) (hk : k ≤ 8192) (hlen : k ≤ hist.length) :
    IndexedRing.get 8192 l.buffer (hist.length - k) k = hist.rtake k := by
  have hend := h.ring.get hk (by rw [List.length_append, List.length_replicate]; omega)
  rw [List.length_append, List.length_replicate, List.drop_append, List.length_replicate,
    List.drop_eq_nil_of_le (by rw [List.length_replicate]; omega), List.nil_append] at hend
  rw [List.rtake.eq_1, get_congr (j := 8192 + hist.length - k) (by omega), hend]
  exact congrArg (hist.drop ·) (by omega)

/-- How much of the history the readers are given. -/
def kept (hist : List UInt8) : Nat := min 8192 (hist.length % 2 ^ 32)

theorem Holds.toNat_ringSize (h : l.Holds hist) : l.hvmGetLogRingSize.toNat = kept hist := by
  rw [kept, ← h.toNat_ptr, hvmGetLogRingSize]
  split
  case isTrue hge =>
    have hge' : 8192 ≤ l.ptr.toNat := hge
    exact (Nat.min_eq_left hge').symm
  case isFalse hlt =>
    have hlt' : ¬ 8192 ≤ l.ptr.toNat := hlt
    omega

/-- From the first cell, when the pointer has not gone round. -/
theorem Holds.peek_zero (h : l.Holds hist) (hle : l.ptr.toNat ≤ 8192) :
    peek l.buffer 0 l.ptr.toNat = hist.rtake l.ptr.toNat := by
  have hlen : l.ptr.toNat ≤ hist.length := by
    rw [h.toNat_ptr]
    exact Nat.mod_le _ _
  have hmod := h.ptr_mod
  rw [← h.get hle hlen, get_congr (j := 0) (by omega), ← peek_append_peek (by decide) hle,
    Nat.sub_zero, Nat.min_eq_left hle, Nat.sub_self]
  exact (List.append_nil _).symm

/-- The whole ring, from the pointer on. -/
theorem Holds.get_ptr (h : l.Holds hist) (hlen : 8192 ≤ hist.length) :
    IndexedRing.get 8192 l.buffer l.ptr.toNat 8192 = hist.rtake 8192 := by
  have hmod := h.ptr_mod
  rw [← h.get (Nat.le_refl _) hlen]
  exact get_congr (by omega)

/-- `HvmGetLogRing` wants the size that `HvmGetLogRingSize` tells, ... -/
theorem Holds.hvmGetLogRing (h : l.Holds hist) (size : UInt32) :
    l.hvmGetLogRing size =
      if size = l.hvmGetLogRingSize then some (hist.rtake (kept hist)) else none := by
  have hkept := h.toNat_ringSize
  have hptr := h.toNat_ptr
  have hmod := Nat.mod_le hist.length (2 ^ 32)
  rw [Log.hvmGetLogRing]
  by_cases hround : l.ptr > LOG_MSG_BUFFER_SIZE
  · have hround' : 8192 < l.ptr.toNat := hround
    have hsize : l.hvmGetLogRingSize = LOG_MSG_BUFFER_SIZE := if_pos (UInt32.le_of_lt hround)
    rw [if_pos hround, ← hkept, hsize]
    by_cases heq : size = LOG_MSG_BUFFER_SIZE
    · have hplace : l.ptr.toNat % 8192 < 8192 := Nat.mod_lt _ (by decide)
      have hrest : (LOG_MSG_BUFFER_SIZE - l.ptr % LOG_MSG_BUFFER_SIZE).toNat =
          8192 - l.ptr.toNat % 8192 := by
        rw [UInt32.toNat_sub_of_le, UInt32.toNat_mod]
        · rfl
        · rw [UInt32.le_iff_toNat_le, UInt32.toNat_mod]
          exact Nat.le_of_lt hplace
      have htwo := peek_append_peek (m := l.buffer) hplace (Nat.le_refl 8192)
      rw [Nat.min_eq_right (Nat.sub_le _ _), Nat.sub_sub_self (Nat.le_of_lt hplace),
        get_congr (j := l.ptr.toNat) (Nat.mod_mod _ _), h.get_ptr (by omega)] at htwo
      rw [if_neg (not_not_intro heq), if_pos heq]
      dsimp only
      rw [hrest, UInt32.toNat_mod]
      exact congrArg some htwo
    · rw [if_pos heq, if_neg heq]
  · have hround' : ¬ 8192 < l.ptr.toNat := hround
    have hsize : l.hvmGetLogRingSize = l.ptr := by
      rw [hvmGetLogRingSize]
      split
      case isTrue hge =>
        have hge' : 8192 ≤ l.ptr.toNat := hge
        exact UInt32.toNat.inj (show 8192 = _ by omega)
      case isFalse => rfl
    rw [if_neg hround, ← hkept, hsize, ← h.peek_zero (Nat.le_of_not_lt hround')]
    by_cases heq : size = l.ptr
    · rw [if_neg (not_not_intro heq), if_pos heq]
    · rw [if_pos heq, if_neg heq]

/-- How far the tail goes back. -/
theorem toNat_tailStart (max_size : UInt32) :
    (l.tailStart max_size).toNat =
      l.ptr.toNat - min max_size.toNat (min 8192 l.ptr.toNat) := by
  unfold tailStart
  extract_lets max_size'
  have hcap : max_size'.toNat = min max_size.toNat 8192 := by
    dsimp only [max_size']
    split
    case isTrue hgt =>
      have hgt' : 8192 < max_size.toNat := hgt
      exact (Nat.min_eq_right (Nat.le_of_lt hgt')).symm
    case isFalse hle =>
      have hle' : ¬ 8192 < max_size.toNat := hle
      exact (Nat.min_eq_left (Nat.le_of_not_lt hle')).symm
  split
  case isTrue hgt =>
    rw [UInt32.toNat_sub_of_le _ _ (UInt32.le_of_lt hgt), hcap]
    have hgt' := UInt32.lt_iff_toNat_lt.mp hgt
    omega
  case isFalse hle =>
    have hle' : ¬ max_size'.toNat < l.ptr.toNat := fun h => hle (UInt32.lt_iff_toNat_lt.mpr h)
    rw [hcap] at hle'
    rw [UInt32.toNat_zero]
    omega

/-- ... and a crash dump gets as much of the end as it has room for. -/
theorem Holds.xmExtractTailOfLog (h : l.Holds hist) (max_size : UInt32) :
    (l.xmExtractTailOfLog max_size).1 = hist.rtake (min max_size.toNat (kept hist)) ∧
      (l.xmExtractTailOfLog max_size).2.toNat = min max_size.toNat (kept hist) := by
  have hlen := Nat.mod_le hist.length (2 ^ 32)
  have hstart := toNat_tailStart (l := l) max_size
  have hmod := h.ptr_mod
  rw [kept, ← h.toNat_ptr]
  rw [← h.toNat_ptr] at hlen
  generalize hk : min max_size.toNat (min 8192 l.ptr.toNat) = k at hstart ⊢
  have hback : (l.ptr - l.tailStart max_size).toNat = k := by
    rw [UInt32.toNat_sub_of_le, hstart]
    · omega
    · rw [UInt32.le_iff_toNat_le, hstart]
      exact Nat.sub_le _ _
  refine ⟨?_, hback⟩
  have htwo := peek_append_peek (m := l.buffer) (Nat.mod_lt (l.ptr.toNat - k) (by decide : 0 < 8192))
    (k := k) (by omega)
  rw [get_congr (j := hist.length - k) (by omega), h.get (by omega) (by omega)] at htwo
  rw [← htwo, Log.xmExtractTailOfLog]
  -- whether the tail stays in one block of the ring
  by_cases hblock : (l.tailStart max_size) / LOG_MSG_BUFFER_SIZE = l.ptr / LOG_MSG_BUFFER_SIZE
  · have hblock' : (l.ptr.toNat - k) / 8192 = l.ptr.toNat / 8192 := by
      have := congrArg UInt32.toNat hblock
      rwa [UInt32.toNat_div, UInt32.toNat_div, hstart] at this
    have hone : min k (8192 - (l.ptr.toNat - k) % 8192) = k := by omega
    rw [if_pos hblock, hback, UInt32.toNat_mod, hstart, hone, Nat.sub_self]
    exact (List.append_nil _).symm
  · have hblock' : (l.ptr.toNat - k) / 8192 ≠ l.ptr.toNat / 8192 := by
      intro heq
      refine hblock (UInt32.toNat.inj ?_)
      rw [UInt32.toNat_div, UInt32.toNat_div, hstart]
      exact heq
    have hplace : (l.ptr.toNat - k) % 8192 < 8192 := Nat.mod_lt _ (by decide)
    have hfirst : (LOG_MSG_BUFFER_SIZE - l.tailStart max_size % LOG_MSG_BUFFER_SIZE).toNat =
        min k (8192 - (l.ptr.toNat - k) % 8192) := by
      rw [UInt32.toNat_sub_of_le, UInt32.toNat_mod, hstart]
      · exact (Nat.min_eq_right (show 8192 - (l.ptr.toNat - k) % 8192 ≤ k by omega)).symm
      · rw [UInt32.le_iff_toNat_le, UInt32.toNat_mod, hstart]
        exact Nat.le_of_lt hplace
    have hsecond : (l.ptr % LOG_MSG_BUFFER_SIZE).toNat =
        k - min k (8192 - (l.ptr.toNat - k) % 8192) := by
      rw [UInt32.toNat_mod]
      show l.ptr.toNat % 8192 = _
      omega
    rw [if_neg hblock, hfirst, hsecond, UInt32.toNat_mod, hstart]
    rfl

/-- All of the ring, with the cells that have not been written. -/
theorem Holds.filter_get (h : l.Holds hist) :
    (IndexedRing.get 8192 l.buffer l.ptr.toNat 8192).filter (· ≠ 0) =
      (hist.rtake 8192).filter (· ≠ 0) := by
  have hmod := h.ptr_mod
  have hend := h.ring.get (Nat.le_refl _) (by rw [List.length_append, List.length_replicate]; omega)
  rw [List.length_append, List.length_replicate, Nat.add_sub_cancel_left, List.drop_append,
    List.length_replicate, List.drop_replicate] at hend
  rw [get_congr (j := hist.length) hmod, hend, List.filter_append, List.rtake.eq_1]
  -- the cells that have not been written are 0
  rw [List.filter_eq_nil_iff.mpr, List.nil_append]
  intro c hc
  rw [(List.mem_replicate.mp hc).2]
  decide

theorem xen_putCharToDom0 (l : Log) (c : UInt8) : (l.putCharToDom0 c).xen = l.xen := by
  rw [putCharToDom0]
  split <;> rfl

theorem dom0_debug_port_putCharToDom0 (l : Log) (c : UInt8) :
    (l.putCharToDom0 c).dom0_debug_port = l.dom0_debug_port := by
  rw [putCharToDom0]
  split <;> rfl

/-- The port of domain 0 is written when there is one. -/
theorem dom0_putCharToDom0 (l : Log) (c : UInt8) :
    (l.putCharToDom0 c).dom0 = l.dom0 ++ if l.dom0_debug_port then [c] else [] := by
  rw [putCharToDom0]
  split
  · rfl
  · exact (List.append_nil _).symm

/-- What the ports and the ring are after a message has gone to the ports, or a flush. -/
structure Prints (l l' : Log) (msg : List UInt8) : Prop where
  xen : l'.xen = l.xen ++ msg
  dom0 : l'.dom0 = l.dom0 ++ if l.dom0_debug_port then msg else []
  port : l'.dom0_debug_port = l.dom0_debug_port

theorem Prints.refl : Prints l l [] where
  xen := (List.append_nil _).symm
  dom0 := by rw [ite_self, List.append_nil]
  port := rfl

theorem Prints.trans {l'' : Log} {msg msg' : List UInt8} (h : Prints l l' msg)
    (h' : Prints l' l'' msg') : Prints l l'' (msg ++ msg') where
  xen := by rw [h'.xen, h.xen, List.append_assoc]
  dom0 := by
    rw [h'.dom0, h.port, h.dom0, List.append_assoc]
    split
    · rfl
    · rw [List.append_nil, List.append_nil]
  port := h'.port.trans h.port

/-- One character to both ports. -/
theorem Prints.putChar (l : Log) (c : UInt8) : Prints l ((l.putCharToXen c).putCharToDom0 c) [c] where
  xen := xen_putCharToDom0 _ c
  dom0 := dom0_putCharToDom0 _ c
  port := dom0_debug_port_putCharToDom0 _ c

theorem xen_sendMessageToXen (l : Log) (msg : List UInt8) :
    (l.sendMessageToXen msg).xen = l.xen ++ msg := by
  induction msg generalizing l with
  | nil => exact (List.append_nil _).symm
  | cons c msg ih => exact (ih (l.putCharToXen c)).trans (List.append_assoc ..)

theorem dom0_sendMessageToDom0 (l : Log) (msg : List UInt8) :
    (l.sendMessageToDom0 msg).dom0 = l.dom0 ++ if l.dom0_debug_port then msg else [] := by
  induction msg generalizing l with
  | nil =>
    rw [ite_self, List.append_nil]
    rfl
  | cons c msg ih =>
    refine (ih (l.putCharToDom0 c)).trans ?_
    rw [dom0_putCharToDom0, dom0_debug_port_putCharToDom0, List.append_assoc]
    split <;> rfl

/-- A message to both ports. -/
theorem Prints.sendMessage (l : Log) (msg : List UInt8) :
    Prints l ((l.sendMessageToXen msg).sendMessageToDom0 msg) msg where
  xen := (foldl_keeps Log.xen putCharToDom0 xen_putCharToDom0 _ msg).trans
    (xen_sendMessageToXen l msg)
  dom0 := by
    rw [dom0_sendMessageToDom0, show (l.sendMessageToXen msg).dom0 = l.dom0 from
      foldl_keeps Log.dom0 putCharToXen (fun _ _ => rfl) l msg,
      show (l.sendMessageToXen msg).dom0_debug_port = l.dom0_debug_port from
        foldl_keeps Log.dom0_debug_port putCharToXen (fun _ _ => rfl) l msg]
  port := (foldl_keeps Log.dom0_debug_port putCharToDom0 dom0_debug_port_putCharToDom0 _ msg).trans
    (foldl_keeps Log.dom0_debug_port putCharToXen (fun _ _ => rfl) l msg)

/-- The loop prints the cells from `x` up to `stop`. -/
theorem Prints.flushLoop (l : Log) (x stop : UInt32) :
    Prints l (l.flushLoop x stop)
      ((IndexedRing.get 8192 l.buffer x.toNat (stop.toNat - x.toNat)).filter (· ≠ 0)) := by
  fun_induction l.flushLoop x stop with
  | case1 l x hlt c l₁ ih =>
    have hlt' := UInt32.lt_iff_toNat_lt.mp hlt
    have hstop := stop.toNat_lt
    have hnext : (x + 1).toNat = x.toNat + 1 := by
      rw [UInt32.toNat_add]
      exact Nat.mod_eq_of_lt (by have : (1 : UInt32).toNat = 1 := rfl; omega)
    have hcell : l.buffer (x.toNat % 8192) = c := by
      dsimp only [c]
      rw [UInt32.toNat_mod]
      rfl
    obtain ⟨d, hd⟩ : ∃ d, stop.toNat - x.toNat = d + 1 := ⟨stop.toNat - x.toNat - 1, by omega⟩
    have hbuffer : l₁.buffer = l.buffer := by
      dsimp only [l₁]
      split
      · exact congrArg Prod.fst (ringOf_putCharToDom0 (l.putCharToXen c) c)
      · rfl
    have hone : Prints l l₁ ([c].filter (· ≠ 0)) := by
      dsimp only [l₁]
      split
      case isTrue hc =>
        have hkeep : [c].filter (· ≠ 0) = [c] := List.filter_cons_of_pos (decide_eq_true hc)
        rw [hkeep]
        exact .putChar l c
      case isFalse hc =>
        have hdrop : [c].filter (· ≠ 0) = [] :=
          List.filter_cons_of_neg fun h => hc (of_decide_eq_true h)
        rw [hdrop]
        exact .refl
    rw [hbuffer, hnext, show stop.toNat - (x.toNat + 1) = d by omega] at ih
    rw [hd, get_succ, hcell, ← List.singleton_append, List.filter_append]
    exact hone.trans ih
  | case2 l x hge =>
    have hge' := fun h => hge (UInt32.lt_iff_toNat_lt.mpr h)
    rw [Nat.sub_eq_zero_of_le (Nat.le_of_not_lt hge')]
    exact .refl

theorem Holds.xenTraceFlush (h : l.Holds hist) : Prints l l.xenTraceFlush (flushed hist) := by
  unfold flushed Log.xenTraceFlush
  extract_lets ptr l₁ l₂ l₃ l₄
  have hring : l₂.ringOf = l.ringOf := by
    dsimp only [l₂, l₁]
    rw [ringOf_sendMessageToDom0, ringOf_sendMessageToXen]
  have h₂ := h.of_ringOf hring
  have hloop := Prints.flushLoop l₂ ptr (ptr + LOG_MSG_BUFFER_SIZE)
  have hsize : LOG_MSG_BUFFER_SIZE.toNat = 8192 := rfl
  have hptr : ptr = l₂.ptr := h.ptr.trans h₂.ptr.symm
  have hlt := ptr.toNat_lt
  have hcells : (IndexedRing.get 8192 l₂.buffer ptr.toNat
      ((ptr + LOG_MSG_BUFFER_SIZE).toNat - ptr.toNat)).filter (· ≠ 0) =
      if hist.length % 2 ^ 32 + 8192 < 2 ^ 32 then (hist.rtake 8192).filter (· ≠ 0) else [] := by
    rw [← h₂.toNat_ptr, ← hptr, UInt32.toNat_add, hsize]
    split
    case isTrue hroom =>
      rw [Nat.mod_eq_of_lt hroom, Nat.add_sub_cancel_left, hptr]
      exact h₂.filter_get
    case isFalse hround =>
      rw [Nat.mod_eq_sub_mod (by omega), Nat.mod_eq_of_lt (by omega), Nat.sub_eq_zero_of_le (by omega)]
      rfl
  rw [hcells] at hloop
  exact ((Prints.sendMessage l _).trans hloop).trans (Prints.sendMessage l₃ _)

end Log

/-- After any run of the calls, the readers find the end of what was to be logged. -/
theorem log_readers (dom0_debug_port wppTrace : Bool) (calls : List LogCall) :
    let l := calls.foldl Log.call (Log.start dom0_debug_port wppTrace)
    let hist := loggedAll xenTraceDispositions calls
    let kept := min 8192 (hist.length % 2 ^ 32)
    (∀ size, l.hvmGetLogRing size =
        if size.toNat = kept then some (hist.rtake kept) else none) ∧
      l.hvmGetLogRingSize.toNat = kept ∧
      (∀ max_size, (l.xmExtractTailOfLog max_size).1 = hist.rtake (min max_size.toNat kept) ∧
        (l.xmExtractTailOfLog max_size).2.toNat = min max_size.toNat kept) ∧
      l.xenTraceFlush.xen = l.xen ++ flushed hist ∧
      l.xenTraceFlush.dom0 = l.dom0 ++ (if l.dom0_debug_port then flushed hist else []) := by
  intro l hist kept
  have h : l.Holds hist := (Log.holds_start dom0_debug_port wppTrace).foldl_call calls
  have hsize : l.hvmGetLogRingSize.toNat = kept := h.toNat_ringSize
  refine ⟨fun size => ?_, hsize, h.xmExtractTailOfLog, h.xenTraceFlush.xen, h.xenTraceFlush.dom0⟩
  rw [h.hvmGetLogRing, ← hsize]
  exact if_congr UInt32.toNat_inj.symm (congrArg some (congrArg hist.rtake hsize.symm)) rfl

end V4v.Xenutil
