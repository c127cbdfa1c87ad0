import Mathlib.Data.Finset.Card
import Vyasa.Mirror.Basic

/-! The statements one internal buffer is used in, the calls
`InjectBufferCopiesForSingleBuffer` puts around them from what it tracks of the dirty flags,
and the runtime those calls reach. -/
namespace Vyasa.BufferCopies

inductive DeviceAPI
  | None | Host | Default_GPU | CUDA | OpenCL | GLSL | OpenGLCompute | Metal | Hexagon
  | HexagonDma | D3D12Compute
  deriving DecidableEq

/-- The variables in scope. -/
abbrev Env : Type := String → Int

def Env.bind (env : Env) (name : String) (value : Int) : Env :=
  fun x => if x = name then value else env x

variable {M V : Type}

/-- A value some host code computes from the variables in scope and the rest of the memory,
and perhaps from the contents of the buffer. -/
inductive Value (M V α : Type)
  | free (value : Env → M → α)
  | loading (value : Env → M → V → α)

def Value.loads {α : Type} : Value M V α → Bool
  | .free _ => false
  | .loading _ => true

/-- What a leaf does with the buffer. A store changes a part of it, so what it leaves also
depends on what was there. -/
inductive Access (M V : Type)
  | none (effect : Env → M → M)
  | load (effect : Env → M → V → M)
  | store (effect : Env → M → V → M × V)

def Access.touches : Access M V → Bool
  | .none _ => false
  | .load _ | .store _ => true

def Access.writes : Access M V → Bool
  | .none _ | .load _ => false
  | .store _ => true

/-- A `For` is a leaf: the copies stay at the loop level of the allocation. `undefined` is the
undefined `Stmt`, which stands for a missing else case. -/
inductive Stmt (M V : Type)
  | undefined
  | Store (access : Access M V)
  | Evaluate (access : Access M V)
  | AssertStmt (condition : Value M V Bool)
  | For (device_api : DeviceAPI) (access : Access M V)
  | Block (first rest : Stmt M V)
  | LetStmt (name : String) (value : Value M V Int) (body : Stmt M V)
  | ProducerConsumer (name : String) (is_producer : Bool) (body : Stmt M V)
  | IfThenElse (condition : Value M V Bool) (then_case else_case : Stmt M V)

/-! ### Sniffing the usage -/

/-- The sets `FindBufferUsage` fills in. -/
structure Usage where
  devices_touched : Finset DeviceAPI := ∅
  devices_writing : Finset DeviceAPI := ∅
  deriving DecidableEq

def Usage.union (u v : Usage) : Usage :=
  ⟨u.devices_touched ∪ v.devices_touched, u.devices_writing ∪ v.devices_writing⟩

def Access.usage (current_device_api : DeviceAPI) (a : Access M V) : Usage where
  devices_touched := if a.touches then {current_device_api} else ∅
  devices_writing := if a.writes then {current_device_api} else ∅

def Value.usage {α : Type} (current_device_api : DeviceAPI) (v : Value M V α) : Usage where
  devices_touched := if v.loads then {current_device_api} else ∅

/-- The device the body of a loop runs on. -/
def loopDevice (device_api current_device_api : DeviceAPI) : DeviceAPI :=
  if device_api ≠ .None then device_api else current_device_api

/-- `Default_GPU` has been replaced by an actual device at this stage. -/
def FindBufferUsage (current_device_api : DeviceAPI) : Stmt M V → Usage
  | .undefined => {}
  | .Store a | .Evaluate a => a.usage current_device_api
  | .AssertStmt c => c.usage current_device_api
  | .For device_api a => a.usage (loopDevice device_api current_device_api)
  | .Block first rest =>
      (FindBufferUsage current_device_api first).union (FindBufferUsage current_device_api rest)
  | .LetStmt _ value body =>
      (value.usage current_device_api).union (FindBufferUsage current_device_api body)
  | .ProducerConsumer _ _ body => FindBufferUsage current_device_api body
  | .IfThenElse condition then_case else_case =>
      (condition.usage current_device_api).union
        ((FindBufferUsage current_device_api then_case).union
          (FindBufferUsage current_device_api else_case))

def HasLoops : Stmt M V → Bool
  | .For _ _ => true
  | .Block first rest => HasLoops first || HasLoops rest
  | .LetStmt _ _ body | .ProducerConsumer _ _ body => HasLoops body
  | .IfThenElse _ then_case else_case => HasLoops then_case || HasLoops else_case
  | _ => false

/-! ### The tracked state -/

inductive FlagState
  | Unknown | False | True
  deriving DecidableEq

structure State where
  device_dirty : FlagState := .Unknown
  host_dirty : FlagState := .Unknown
  device_allocation_exists : FlagState := .Unknown
  current_device : DeviceAPI := .None
  deriving DecidableEq

/-- What is known of a fresh allocation. -/
def State.internal : State where
  device_dirty := .False
  host_dirty := .False
  device_allocation_exists := .False
  current_device := .None

def State.union_with (s other : State) : State where
  device_dirty := if s.device_dirty ≠ other.device_dirty then .Unknown else s.device_dirty
  host_dirty := if s.host_dirty ≠ other.host_dirty then .Unknown else s.host_dirty
  device_allocation_exists :=
    if s.device_allocation_exists ≠ other.device_allocation_exists ∨
        other.current_device ≠ s.current_device then .Unknown
    else s.device_allocation_exists
  current_device :=
    if s.device_allocation_exists ≠ other.device_allocation_exists ∨
        other.current_device ≠ s.current_device then .None
    else s.current_device

/-! ### The injected calls -/

inductive Call
  | device_malloc (target_device_api : DeviceAPI)
  | copy_to_host
  | copy_to_device (target_device_api : DeviceAPI)
  | host_dirty
  | device_dirty
  | device_free
  deriving DecidableEq

/-- The statement the mutator returns. A leaf stays as it was. -/
inductive Injected (M V : Type)
  | undefined
  | leaf (s : Stmt M V)
  | call (c : Call)
  | Block (first rest : Injected M V)
  | LetStmt (name : String) (value : Value M V Int) (body : Injected M V)
  | ProducerConsumer (name : String) (is_producer : Bool) (body : Injected M V)
  | IfThenElse (condition : Value M V Bool) (then_case else_case : Injected M V)

/-- `Block::make` of a sequence of calls and what follows them. -/
def callsThen (calls : List Call) (last : Injected M V) : Injected M V :=
  calls.foldr (fun c rest => .Block (.call c) rest) last

def thenCalls (first : Injected M V) : List Call → Injected M V
  | [] => first
  | c :: calls => .Block first (thenCalls (.call c) calls)

/-- What `do_copies` works out of the usage of a leaf. -/
structure Needs where
  touching_device : DeviceAPI
  device_malloc : Bool
  device_flip : Bool
  copy_to_device : Bool
  copy_to_host : Bool
  host_dirty : Bool
  device_dirty : Bool

def all_device_apis : List DeviceAPI :=
  [.None, .Host, .Default_GPU, .CUDA, .OpenCL, .GLSL, .OpenGLCompute, .Metal, .Hexagon,
    .HexagonDma, .D3D12Compute]

/-- The body of the loop that looks for the touching device: a second one is an internal
error. -/
def findTouching (touching_device d : DeviceAPI) : Option DeviceAPI :=
  if d = .Host then some touching_device
  else if touching_device = .None then some d
  else none

def touchingDevice (devices_touched : Finset DeviceAPI) : Option DeviceAPI :=
  (all_device_apis.filter (· ∈ devices_touched)).foldlM findTouching .None

def needs (state : State) (finder : Usage) : Option Needs := do
  let touched_on_host := decide (.Host ∈ finder.devices_touched)
  let touched_on_device :=
    decide (finder.devices_touched.card > if touched_on_host then 1 else 0)
  let written_on_host := decide (.Host ∈ finder.devices_writing)
  let written_on_device :=
    decide (finder.devices_writing.card > if touched_on_host then 1 else 0)
  let touching_device ← touchingDevice finder.devices_touched
  let needs_device_malloc := touched_on_device && state.device_allocation_exists != .True
  let needs_device_flip := state.device_allocation_exists != .False &&
    state.current_device != touching_device && state.current_device != .None &&
    touching_device != .None
  let needs_copy_to_device := touched_on_device && (state.host_dirty != .False || needs_device_flip)
  some {
    touching_device
    -- `halide_copy_to_device` already allocates
    device_malloc := needs_device_malloc && !needs_copy_to_device
    device_flip := needs_device_flip
    copy_to_device := needs_copy_to_device
    copy_to_host := (touched_on_host || needs_device_flip) && state.device_dirty != .False
    host_dirty := written_on_host && state.host_dirty != .True
    device_dirty := written_on_device && state.device_dirty != .True }

/-- The calls before the leaf, with what is known after each. -/
def Needs.before (n : Needs) (state : State) : List Call × State :=
  let stmts := []
  let (stmts, state) :=
    if n.copy_to_host then (stmts ++ [.copy_to_host], { state with device_dirty := .False })
    else (stmts, state)
  let (stmts, state) :=
    if n.device_flip then
      (stmts ++ [.host_dirty, .device_free],
        { state with device_allocation_exists := .False, device_dirty := .False })
    else (stmts, state)
  let (stmts, state) :=
    if n.copy_to_device then
      (stmts ++ [.copy_to_device n.touching_device],
        { state with
          host_dirty := .False
          device_allocation_exists := .True
          current_device := n.touching_device })
    else (stmts, state)
  if n.device_malloc then
    (stmts ++ [.device_malloc n.touching_device],
      { state with
        device_allocation_exists := .True
        current_device := n.touching_device })
  else (stmts, state)

/-- The marks after the leaf. -/
def Needs.after (n : Needs) (state : State) : List Call × State :=
  let stmts := []
  let (stmts, state) :=
    if n.host_dirty then (stmts ++ [Call.host_dirty], { state with host_dirty := .True })
    else (stmts, state)
  if n.device_dirty then (stmts ++ [.device_dirty], { state with device_dirty := .True })
  else (stmts, state)

def do_copies (state : State) (s : Stmt M V) : Option (Injected M V × State) := do
  let n ← needs state (FindBufferUsage .Host s)
  let (before, state) := n.before state
  let (after, state) := n.after state
  some (callsThen before (thenCalls (.leaf s) after), state)

/-- `InjectBufferCopiesForSingleBuffer::mutate`. Nothing here looks at the condition of an
`IfThenElse`. -/
def mutate : Stmt M V → State → Option (Injected M V × State)
  | .undefined, state => some (.undefined, state)
  | .LetStmt name value body, state =>
      if (value.usage .Host).devices_touched = ∅ then do
        let (body', state) ← mutate body state
        some (.LetStmt name value body', state)
      else do_copies state (.LetStmt name value body)
  | .Block first rest, state =>
      if HasLoops (.Block first rest) then do
        let (first', state) ← mutate first state
        let (rest', state) ← mutate rest state
        some (.Block first' rest', state)
      else do_copies state (.Block first rest)
  | .ProducerConsumer name is_producer body, state => do
      let (body', state) ← mutate body state
      some (.ProducerConsumer name is_producer body', state)
  | .IfThenElse condition then_case else_case, old => do
      let (then', then_state) ← mutate then_case old
      let (else', state) ← mutate else_case old
      some (.IfThenElse condition then' else', state.union_with then_state)
  | s, state => do_copies state s

def inject (s : Stmt M V) : Option (Injected M V × State) := mutate s .internal

/-! ### The runtime -/

/-- The host copy is the near one, the device allocation the far one. -/
abbrev Buffer (V : Type) : Type := Mirror DeviceAPI V

inductive RuntimeError
  | host_and_device_dirty | copy_to_host_failed | copy_to_device_failed | no_device_interface
  | incompatible_device_interface | assertion_failed | kernel_without_allocation
  deriving DecidableEq

def debug_log_and_validate_buf (buf : Buffer V) : Except RuntimeError Unit :=
  if buf.near_dirty && buf.far_dirty then .error .host_and_device_dirty else .ok ()

def copy_to_host_already_locked (buf : Buffer V) : Except RuntimeError (Buffer V) :=
  if !buf.far_dirty then .ok buf
  else if buf.near_dirty then .error .copy_to_host_failed
  else if buf.far.isNone then .error .no_device_interface
  else .ok buf.pull

def halide_copy_to_host (buf : Buffer V) : Except RuntimeError (Buffer V) := do
  debug_log_and_validate_buf buf
  copy_to_host_already_locked buf

section

variable [Inhabited V]

/-- Memory nobody has written holds `default`. An allocation that exists is kept. -/
def halide_device_malloc (buf : Buffer V) (device_interface : DeviceAPI) :
    Except RuntimeError (Buffer V) := do
  debug_log_and_validate_buf buf
  match buf.far with
  | some (current, _) =>
      if current ≠ device_interface then .error .incompatible_device_interface else .ok buf
  | none => .ok (buf.alloc default device_interface)

def halide_copy_to_device (buf : Buffer V) (device_interface : DeviceAPI) :
    Except RuntimeError (Buffer V) := do
  debug_log_and_validate_buf buf
  if (buf.far.map Prod.fst).any (· ≠ device_interface) then
    .error .incompatible_device_interface
  else
    let buf ← if buf.far.isNone then halide_device_malloc buf device_interface else .ok buf
    if buf.near_dirty then
      if buf.far_dirty then .error .copy_to_device_failed else .ok buf.push
    else .ok buf

def halide_device_free (buf : Buffer V) : Except RuntimeError (Buffer V) := do
  debug_log_and_validate_buf buf
  if buf.far.isSome then .ok buf.drop else .ok { buf with far_dirty := false }

def Call.perform (buf : Buffer V) : Call → Except RuntimeError (Buffer V)
  | .device_malloc d => halide_device_malloc buf d
  | .copy_to_host => halide_copy_to_host buf
  | .copy_to_device d => halide_copy_to_device buf d
  | .host_dirty => .ok buf.markNear
  | .device_dirty => .ok buf.markFar
  | .device_free => halide_device_free buf

end

/-! ### Runs -/

/-- One use of the buffer: what was seen of it, and what a single copy would hold. -/
structure Event (V : Type) where
  seen : Option V
  latest : V
  deriving DecidableEq

structure Run (M V : Type) where
  mem : M
  buf : Buffer V
  trace : List (Event V)
  deriving DecidableEq

def Run.start [Inhabited V] (mem : M) : Run M V := ⟨mem, .fresh default, []⟩

/-- A run that stops early keeps what it did until then. -/
abbrev Outcome (M V : Type) : Type := Except (RuntimeError × Run M V) (Run M V)

/-- The contents code on `d` sees. -/
def Run.sees (r : Run M V) (d : DeviceAPI) : Option V :=
  if d = .Host then some r.buf.near
  else r.buf.far.bind fun c => if c.1 = d then some c.2 else Option.none

def Run.note (r : Run M V) (d : DeviceAPI) : Run M V :=
  { r with trace := ⟨r.sees d, r.buf.latest⟩ :: r.trace }

def Value.run {α : Type} (env : Env) (r : Run M V) : Value M V α → α × Run M V
  | .free value => (value env r.mem, r)
  | .loading value => (value env r.mem r.buf.near, r.note .Host)

def Run.write (r : Run M V) (d : DeviceAPI) (update : V → V) : Buffer V :=
  if d = .Host then r.buf.writeNear update else r.buf.writeFar update

def Access.run (d : DeviceAPI) (env : Env) (r : Run M V) : Access M V → Outcome M V
  | .none effect => .ok { r with mem := effect env r.mem }
  | .load effect =>
      match r.sees d with
      | Option.none => .error (.kernel_without_allocation, r.note d)
      | some v => .ok { r.note d with mem := effect env r.mem v }
  | .store effect =>
      match r.sees d with
      | Option.none => .error (.kernel_without_allocation, r.note d)
      | some v => .ok { r.note d with
          mem := (effect env r.mem v).1
          buf := r.write d fun w => (effect env r.mem w).2 }

/-- A statement as it stands, with no calls around its parts. -/
def Stmt.run (env : Env) (r : Run M V) : Stmt M V → Outcome M V
  | .undefined => .ok r
  | .Store a | .Evaluate a => a.run .Host env r
  | .AssertStmt c =>
      let (holds, r) := c.run env r
      if holds then .ok r else .error (.assertion_failed, r)
  | .For device_api a => a.run (loopDevice device_api .Host) env r
  | .Block first rest =>
      match first.run env r with
      | .error e => .error e
      | .ok r => rest.run env r
  | .LetStmt name value body =>
      let (x, r) := value.run env r
      body.run (env.bind name x) r
  | .ProducerConsumer _ _ body => body.run env r
  | .IfThenElse condition then_case else_case =>
      let (taken, r) := condition.run env r
      if taken then then_case.run env r else else_case.run env r

def Injected.run [Inhabited V] (env : Env) (r : Run M V) : Injected M V → Outcome M V
  | .undefined => .ok r
  | .leaf s => s.run env r
  | .call c =>
      match c.perform r.buf with
      | .error e => .error (e, r)
      | .ok buf => .ok { r with buf := buf }
  | .Block first rest =>
      match first.run env r with
      | .error e => .error e
      | .ok r => rest.run env r
  | .LetStmt name value body =>
      let (x, r) := value.run env r
      body.run (env.bind name x) r
  | .ProducerConsumer _ _ body => body.run env r
  | .IfThenElse condition then_case else_case =>
      let (taken, r) := condition.run env r
      if taken then then_case.run env r else else_case.run env r

end Vyasa.BufferCopies
