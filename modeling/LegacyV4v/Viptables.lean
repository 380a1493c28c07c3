import LegacyV4v.RingFormat

/-! # VIPTables

The rules of the v4v firewall.  Xen keeps them in a circular list, `viprules`, which
is a plain list here: the list head is where it starts and ends. -/
namespace V4v
open MachineWord

/-- `struct v4v_viptables_rule`. -/
structure Rule where
  src : Addr
  dst : Addr
  accept : UInt32
  deriving DecidableEq, Repr

/-- Xen's `DOMID_INVALID`, which stands for any domain in a rule.  It is not
`V4V_DOMID_INVALID`. -/
def domidInvalid : DomId := 0x7ff4

/-- The port `-1`, which stands for any port in a rule. -/
def anyPort : UInt32 := 0xffffffff

/-- `V4V_VIPTABLES_LIST_SIZE`. -/
def viptablesListSize : Nat := 8

/-- Walk `position` rules on, or to the last rule, and insert behind it. -/
def insertAt (new : Rule) : List Rule → (position : Int) → List Rule
  | [], _ => [new]
  | x :: l, position =>
    if position = 0 then new :: x :: l else x :: insertAt new l (i32 (position - 1))

/-- `v4v_viptables_add`: rules are numbered from 1.  `rule` is `none` when one of its
fields cannot be copied.  The allocation is not checked; if it fails, Xen copies
through `NULL` (`none`). -/
def viptablesAdd (rules : List Rule) (alloc : Bool) (rule : Option Rule) (position : Int) :
    Option (Int × List Rule) :=
  if !alloc then none
  else
    match rule with
    | none => some (-efault, rules)
    | some new => some (0, insertAt new rules (i32 (position - 1)))

/-- Walk `position` rules on from the list head, and remove the rule there, if the
walk came that far and moved at all. -/
def removeAt : List Rule → (position : Int) → List Rule
  | [], _ => []
  | x :: l, position =>
    if position = 0 then x :: l
    else if i32 (position - 1) = 0 then l
    else x :: removeAt l (i32 (position - 1))

/-- The rule names the same source and destination; `accept` is not compared. -/
def Rule.sameAddrs (r node : Rule) : Bool := node.src = r.src ∧ node.dst = r.dst

/-- `v4v_viptables_del`: by number, by rule (`position = -1`), or all of them
(`position = -1` and a null handle, the outer `none`). -/
def viptablesDel (rules : List Rule) (alloc : Bool) (rule : Option (Option Rule))
    (position : Int) : Option (Int × List Rule) :=
  if position ≠ -1 then some (0, removeAt rules position)
  else
    match rule with
    | none => some (0, [])
    | some rule =>
      if !alloc then none
      else
        match rule with
        | none => some (-efault, rules)
        | some r => some (0, rules.eraseP r.sameAddrs)

/-- `v4v_viptables_list`: up to eight rules from number `nb_rules` on, counted from 0.
`none` for what the guest receives if nothing is copied out. -/
def viptablesList (rules : List Rule) (nbRules : Option UInt32) (written : Bool) :
    Int × Option (List Rule) :=
  match nbRules with
  | none => (-efault, none)
  | some n =>
    -- the walk stops at the last rule, so `n` has to be below their number, or 0
    if n.toNat ≠ 0 ∧ rules.length ≤ n.toNat then (-efault, none)
    else if !written then (-efault, none)
    else (0, some ((rules.drop n.toNat).take viptablesListSize))

/-- The rule speaks about messages from `src` to `dst`. -/
def Rule.applies (node : Rule) (src dst : Addr) : Bool :=
  (node.src.domain = domidInvalid ∨ node.src.domain = src.domain) ∧
    (node.src.port = anyPort ∨ node.src.port = src.port) ∧
    (node.dst.domain = domidInvalid ∨ node.dst.domain = dst.domain) ∧
    (node.dst.port = anyPort ∨ node.dst.port = dst.port)

/-- `v4v_viptables_check (src, dst) != 0`: the first rule that applies refuses the
message.  Without one it is accepted. -/
def viptablesCheck (rules : List Rule) (src dst : Addr) : Bool :=
  match rules.find? fun node => node.applies src dst with
  | some node => node.accept = 0
  | none => false

end V4v
