import Mathlib.Logic.Function.Basic

/-!
# Jovian — comms (`Comm`, `CommManager`)

A comm is a C++ object that the manager's map points to under its id: a constructor puts it there, a
move or a copy puts the new object there, the destructor takes the id out, unless the object has been
moved from. A comm points to its target, an element of the manager's other map, and reaches the
manager through it.

Comms and targets are at addresses, which are used again. What is done through a pointer to a target
that is no more is undefined; here it does nothing. `isOpen` is what the maps are about, and is no
field of the source's: the comm has been registered, and has neither been moved from nor closed since.
-/

namespace Jovian.Comms

abbrev Guid := Nat
abbrev Address := Nat

structure Comm where
  /-- `m_id` -/
  id : Guid
  /-- `p_target` -/
  target : Address
  /-- `m_movedFrom` -/
  movedFrom : Bool
  /-- The id under which its handlers look for what R does with a message, if they are Elara's. -/
  handlers : Option Guid := none
  /-- It is not one of those that `commOpen` makes or Elara keeps. -/
  loose : Bool := false
  isOpen : Bool := true
deriving DecidableEq

/-- What is left of a comm that was moved from. -/
def Comm.husk (c : Comm) : Comm := { c with movedFrom := true, handlers := none, isOpen := false }

structure Manager where
  /-- `m_comms` -/
  comms : Guid → Option Address := fun _ => none
  /-- `m_targets`: where a name's target is. -/
  targets : String → Option Address := fun _ => none
  /-- The targets there are, by their address: their names. -/
  nodes : Address → Option String := fun _ => none
  /-- The comms there are. -/
  heap : Address → Option Comm := fun _ => none
  /-- Where there has been a comm, and the ids there have been. -/
  allocated : List Address := []
  used : List Guid := []

namespace Manager

/-! ## Targets -/

/-- A name that is there keeps its element, and gets a new callback. -/
def registerCommTarget (m : Manager) (name : String) (node : Address) : Manager :=
  match m.targets name with
  | some _ => m
  | none =>
    { m with
      targets := Function.update m.targets name (some node)
      nodes := Function.update m.nodes node (some name) }

def unregisterCommTarget (m : Manager) (name : String) : Manager :=
  match m.targets name with
  | some node =>
    { m with
      targets := Function.update m.targets name none
      nodes := Function.update m.nodes node none }
  | none => m

/-! ## Comms -/

/-- Through the target. -/
def registerComm (m : Manager) (target : Address) (id : Guid) (a : Address) : Manager :=
  if m.nodes target = none then m else { m with comms := Function.update m.comms id (some a) }

def unregisterComm (m : Manager) (target : Address) (id : Guid) : Manager :=
  if m.nodes target = none then m else { m with comms := Function.update m.comms id none }

def put (m : Manager) (a : Address) (c : Comm) : Manager :=
  { m with
    heap := Function.update m.heap a (some c)
    allocated := a :: m.allocated
    used := c.id :: m.used }

/-- `Comm(const CommTarget*, Guid)`, which leaves `m_movedFrom` what it happens to be. -/
def construct (m : Manager) (a target : Address) (id : Guid) (movedFrom loose : Bool) : Manager :=
  (m.put a { id, target, movedFrom, loose }).registerComm target id a

/-- `Comm(Comm&&)`, at `b`. -/
def moveConstruct (m : Manager) (b a : Address) : Manager :=
  match m.heap a with
  | none => m
  | some c =>
    ((m.put a c.husk).put b { c with movedFrom := false, isOpen := true }).registerComm
      c.target c.id b

/-- `Comm(const Comm&)`, at `b`: without the handlers, and with an id of its own. -/
def copyConstruct (m : Manager) (b a : Address) (id : Guid) : Manager :=
  match m.heap a with
  | none => m
  | some c => m.construct b c.target id false c.loose

/-- `operator=(Comm&&)` of the comm at `a`. -/
def moveAssign (m : Manager) (a b : Address) : Manager :=
  match m.heap a, m.heap b with
  | some d, some c =>
    let dropped := m.unregisterComm c.target d.id
    ((dropped.put a { c with movedFrom := false, loose := d.loose, isOpen := true }).put b
      c.husk).registerComm c.target c.id a
  | _, _ => m

/-- `operator=(const Comm&)` of the comm at `a`, which keeps its handlers. -/
def copyAssign (m : Manager) (a b : Address) (id : Guid) : Manager :=
  match m.heap a, m.heap b with
  | some d, some c =>
    let dropped := m.unregisterComm c.target d.id
    (dropped.put a { d with id, target := c.target, movedFrom := false, isOpen := true }).registerComm
      c.target id a
  | _, _ => m

/-- `~Comm()` -/
def destroy (m : Manager) (a : Address) : Manager :=
  match m.heap a with
  | none => m
  | some c =>
    let dropped := if c.movedFrom then m else m.unregisterComm c.target c.id
    { dropped with heap := Function.update dropped.heap a none }

/-! ## Requests -/

/-- The comm a `comm_msg` or `comm_close` for `id` is handled by, where it is found and is there. -/
def recipient (m : Manager) (id : Guid) : Option Address :=
  (m.comms id).filter fun a => (m.heap a).isSome

/-- The end of `commClose`. -/
def forget (m : Manager) (id : Guid) : Manager :=
  let closed :=
    match m.comms id with
    | none => m.heap
    | some a => Function.update m.heap a ((m.heap a).map fun c => { c with isOpen := false })
  { m with comms := Function.update m.comms id none, heap := closed }

/-- The reply to a `comm_info_request`: the target names of the comms in the map, by their ids. -/
def commInfo (m : Manager) (targetName : String) (id : Guid) : Option String :=
  ((((m.comms id).bind m.heap).map Comm.target).bind m.nodes).filter fun name =>
    targetName = "" ∨ name = targetName

/-! ## Where targets are -/

/-- The map's elements are the targets there are. -/
def Named (m : Manager) : Prop := ∀ name node, m.targets name = some node ↔ m.nodes node = some name

theorem Named.register {m : Manager} (h : m.Named) {name : String} {node : Address}
    (hfree : m.nodes node = none) : (m.registerCommTarget name node).Named := by
  unfold registerCommTarget
  split
  · exact h
  rename_i hnone
  intro name' node'
  show Function.update m.targets name (some node) name' = some node' ↔
    Function.update m.nodes node (some name) node' = some name'
  by_cases hname : name' = name <;> by_cases hnode : node' = node
  · simp [hname, hnode]
  · subst hname
    rw [Function.update_self, Function.update_of_ne hnode, ← h, hnone]
    exact iff_of_false (fun heq => hnode (Option.some.inj heq).symm) fun heq => by cases heq
  · subst hnode
    rw [Function.update_of_ne hname, Function.update_self, h, hfree]
    exact iff_of_false (fun heq => by cases heq) fun heq => hname (Option.some.inj heq).symm
  · rw [Function.update_of_ne hname, Function.update_of_ne hnode]
    exact h name' node'

theorem Named.unregister {m : Manager} (h : m.Named) (name : String) :
    (m.unregisterCommTarget name).Named := by
  unfold unregisterCommTarget
  split
  case h_2 => exact h
  rename_i node hnode
  have hback := (h name node).mp hnode
  intro name' node'
  show Function.update m.targets name none name' = some node' ↔
    Function.update m.nodes node none node' = some name'
  by_cases hname' : name' = name <;> by_cases hnode' : node' = node
  · simp [hname', hnode']
  · subst hname'
    rw [Function.update_self, Function.update_of_ne hnode', ← h, hnode]
    exact iff_of_false (fun heq => by cases heq) fun heq => hnode' (Option.some.inj heq).symm
  · subst hnode'
    rw [Function.update_of_ne hname', Function.update_self, h, hback]
    exact iff_of_false (fun heq => hname' (Option.some.inj heq).symm) fun heq => by cases heq
  · rw [Function.update_of_ne hname', Function.update_of_ne hnode']
    exact h name' node'

theorem Named.congr {m m' : Manager} (h : m.Named) (htargets : m'.targets = m.targets)
    (hnodes : m'.nodes = m.nodes) : m'.Named := by
  unfold Named
  rw [htargets, hnodes]
  exact h

theorem registerCommTarget_frame (m : Manager) (name : String) (node : Address) :
    (m.registerCommTarget name node).comms = m.comms ∧
      (m.registerCommTarget name node).heap = m.heap ∧
      (m.registerCommTarget name node).allocated = m.allocated ∧
      (m.registerCommTarget name node).used = m.used := by
  unfold registerCommTarget
  split <;> exact ⟨rfl, rfl, rfl, rfl⟩

theorem unregisterCommTarget_frame (m : Manager) (name : String) :
    (m.unregisterCommTarget name).comms = m.comms ∧
      (m.unregisterCommTarget name).heap = m.heap ∧
      (m.unregisterCommTarget name).allocated = m.allocated ∧
      (m.unregisterCommTarget name).used = m.used := by
  unfold unregisterCommTarget
  split <;> exact ⟨rfl, rfl, rfl, rfl⟩

end Manager

end Jovian.Comms
