import Mathlib.Data.Option.Basic

/-! Copies between buffers that may live in host memory, on a device or on both. A device interface
is known by what its calls return; the contents of a buffer are those on the region of the
destination. -/
namespace Vyasa.DeviceInterface

universe u v

/-- What one call of a device interface answers: its error code, and what it leaves in the memory
that it writes to when it does not succeed. -/
structure Reply (α : Type v) where
  code : Int
  leftover : α

/-- The calls of the interfaces in the order they are made. -/
abbrev Impl (α : Type v) := Nat → Reply α

structure halide_buffer_t (ι : Type u) (α : Type v) where
  host : Option α
  device : Option α
  device_interface : Option ι
  host_dirty : Bool
  device_dirty : Bool
deriving DecidableEq

def halide_error_code_copy_to_host_failed : Int := -14
def halide_error_code_copy_to_device_failed : Int := -15
def halide_error_code_device_malloc_failed : Int := -16
def halide_error_code_no_device_interface : Int := -19
def halide_error_code_host_is_null : Int := -34
def halide_error_code_device_interface_no_device : Int := -36
def halide_error_code_host_and_device_dirty : Int := -37
def halide_error_code_incompatible_device_interface : Int := -42

variable {ι : Type u} {α : Type v} [DecidableEq ι]

namespace halide_buffer_t

/-- The contents that a copy from the buffer has to take. -/
def recent (buf : halide_buffer_t ι α) : Option α :=
  if buf.device_dirty then buf.device <|> buf.host else buf.host <|> buf.device

/-- Overwrite what one side holds, where that side exists. -/
def write (buf : halide_buffer_t ι α) (to_device : Bool) (x : α) : halide_buffer_t ι α :=
  if to_device then { buf with device := buf.device.map fun _ => x }
  else { buf with host := buf.host.map fun _ => x }

end halide_buffer_t

def debug_log_and_validate_buf (buf : halide_buffer_t ι α) : Int :=
  if buf.device.isSome && buf.device_interface.isNone then halide_error_code_no_device_interface
  else if buf.device_interface.isSome && buf.device.isNone then
    halide_error_code_device_interface_no_device
  else if buf.host_dirty && buf.device_dirty then halide_error_code_host_and_device_dirty
  else 0

variable (impl : Impl α)

/-- The number `n` of the calls made so far comes in and goes out. -/
def copy_to_host_already_locked (n : Nat) (buf : halide_buffer_t ι α) :
    Int × Nat × halide_buffer_t ι α :=
  if !buf.device_dirty then (0, n, buf)
  else if buf.host_dirty then (halide_error_code_copy_to_host_failed, n, buf)
  else if buf.device_interface.isNone then (halide_error_code_no_device_interface, n, buf)
  else if (impl n).code ≠ 0 then
    (halide_error_code_copy_to_host_failed, n + 1, buf.write false (impl n).leftover)
  else
    (0, n + 1, { buf.write false (buf.device.getD (impl n).leftover) with device_dirty := false })

/-- An allocation that succeeds leaves memory of unknown contents on the device. -/
def halide_device_malloc (n : Nat) (buf : halide_buffer_t ι α) (device_interface : ι) :
    Int × Nat × halide_buffer_t ι α :=
  if debug_log_and_validate_buf buf ≠ 0 then (debug_log_and_validate_buf buf, n, buf)
  else if buf.device_interface.isSome && buf.device_interface ≠ some device_interface then
    (halide_error_code_incompatible_device_interface, n, buf)
  else if (impl n).code ≠ 0 then (halide_error_code_device_malloc_failed, n + 1, buf)
  else (0, n + 1,
    { buf with device := some (impl n).leftover, device_interface := some device_interface })

/-- The copy of dirty host memory, after the device memory is there. -/
def copy_dirty_host (n : Nat) (buf : halide_buffer_t ι α) : Int × Nat × halide_buffer_t ι α :=
  if !buf.host_dirty then (0, n, buf)
  else if buf.device_dirty then (halide_error_code_copy_to_device_failed, n, buf)
  else if (impl n).code ≠ 0 then
    (halide_error_code_copy_to_device_failed, n + 1, buf.write true (impl n).leftover)
  else (0, n + 1, { buf.write true (buf.host.getD (impl n).leftover) with host_dirty := false })

def copy_to_device_already_locked (n : Nat) (buf : halide_buffer_t ι α) (device_interface : Option ι) :
    Int × Nat × halide_buffer_t ι α :=
  if debug_log_and_validate_buf buf ≠ 0 then (debug_log_and_validate_buf buf, n, buf)
  else match device_interface <|> buf.device_interface with
  | none => (halide_error_code_no_device_interface, n, buf)
  | some device_interface =>
    if buf.device.isSome && buf.device_interface ≠ some device_interface then
      (halide_error_code_incompatible_device_interface, n, buf)
    else if buf.device.isNone then
      match halide_device_malloc impl n buf device_interface with
      | (result, n, buf) => if result ≠ 0 then (result, n, buf) else copy_dirty_host impl n buf
    else copy_dirty_host impl n buf

/-- The calls made so far and the two buffers, which are different objects. -/
structure State (ι : Type u) (α : Type v) where
  calls : Nat
  src : halide_buffer_t ι α
  dst : halide_buffer_t ι α

namespace State

/-- `impl->buffer_copy` of an interface: on success the side of the destination holds what the source
held. -/
def buffer_copy (to_device : Bool) (s : State ι α) : Int × State ι α :=
  ((impl s.calls).code,
    { s with
      calls := s.calls + 1
      dst := s.dst.write to_device <|
        if (impl s.calls).code = 0 then s.src.recent.getD (impl s.calls).leftover
        else (impl s.calls).leftover })

def copy_to_host (s : State ι α) : Int × State ι α :=
  match copy_to_host_already_locked impl s.calls s.src with
  | (err, n, src) => (err, { s with calls := n, src := src })

def copy_to_device (device_interface : Option ι) (s : State ι α) : Int × State ι α :=
  match copy_to_device_already_locked impl s.calls s.dst device_interface with
  | (err, n, dst) => (err, { s with calls := n, dst := dst })

def device_malloc (device_interface : ι) (s : State ι α) : Int × State ι α :=
  match halide_device_malloc impl s.calls s.dst device_interface with
  | (err, n, dst) => (err, { s with calls := n, dst := dst })

/-- The copy inside host memory. -/
def copy_memory (s : State ι α) : State ι α :=
  match s.src.host with
  | none => s
  | some x => { s with dst := s.dst.write false x }

/-- The flags of the destination after a copy. -/
def mark (dst_device_interface : Option ι) (err : Int) (s : State ι α) : State ι α :=
  if err = 0 then
    { s with dst :=
      { s.dst with
        host_dirty := dst_device_interface.isNone
        device_dirty := dst_device_interface.isSome } }
  else s

end State

/-- How a call ends: with an error code, or at a null interface that it reads through. -/
inductive Outcome where
  | returned (err : Int)
  | null_interface
deriving DecidableEq

/-- The switch of interfaces that is not supported, and the allocation on the device of the
destination. -/
def prepare (s : State ι α) : Option ι → Int × State ι α
  | none => (0, s)
  | some dst_device_interface =>
    if s.dst.device_interface.isSome && s.dst.device_interface ≠ some dst_device_interface then
      (halide_error_code_incompatible_device_interface, s)
    else if s.dst.device.isNone then s.device_malloc impl dst_device_interface
    else (0, s)

section

variable (src : halide_buffer_t ι α)

def from_device_valid : Bool := src.device.isSome && (src.host.isNone || !src.host_dirty)

def from_host_valid : Bool :=
  src.host.isSome && (!src.device_dirty || src.device_interface.isNone)

end

/-- From one device to another through the host memory of the destination, or through that of the
source. -/
def through_host (dst_device_interface : ι) (s : State ι α) : Outcome × State ι α :=
  if from_device_valid s.src && s.dst.host.isSome then
    if s.src.device_interface.isNone then (.null_interface, s)
    else
      match s.buffer_copy impl false with
      | (err, s) =>
        if err ≠ 0 then (.returned err, s)
        else
          match { s with dst := { s.dst with host_dirty := true } }.copy_to_device impl
            (some dst_device_interface) with
          | (err, s) => (.returned err, s.mark (some dst_device_interface) err)
  else
    match s.copy_to_host impl with
    | (err, s) =>
      if err ≠ 0 then (.returned err, s)
      else
        match s.buffer_copy impl true with
        | (err, s) => (.returned err, s.mark (some dst_device_interface) err)

/-- To host memory. The only call that is made again is that to the function itself, after the source
was copied to its host memory; with no fuel left there is no result. -/
def to_host (s : State ι α) : Nat → Option (Outcome × State ι α)
  | 0 => none
  | fuel + 1 =>
    if s.dst.host.isNone then some (.returned halide_error_code_host_is_null, s)
    else if from_host_valid s.src then some (.returned 0, s.copy_memory.mark none 0)
    else if s.src.device_interface.isNone then some (.null_interface, s)
    else
      match s.buffer_copy impl false with
      | (err, s) =>
        if err ≠ halide_error_code_incompatible_device_interface then
          some (.returned err, s.mark none err)
        else
          match s.copy_to_host impl with
          | (err, s) => if err ≠ 0 then some (.returned err, s) else to_host s fuel

def to_device (dst_device_interface : ι) (s : State ι α) : Outcome × State ι α :=
  match if from_device_valid s.src then s.buffer_copy impl true
    else (halide_error_code_incompatible_device_interface, s) with
  | (err, s) =>
    if err ≠ halide_error_code_incompatible_device_interface then
      (.returned err, s.mark (some dst_device_interface) err)
    else if s.src.host.isNone && s.dst.host.isNone then
      (.returned halide_error_code_incompatible_device_interface, s)
    else through_host impl dst_device_interface s

def halide_buffer_copy_already_locked (s : State ι α) (dst_device_interface : Option ι) (fuel : Nat) :
    Option (Outcome × State ι α) :=
  match prepare impl s dst_device_interface with
  | (err, s) =>
    if err ≠ 0 then some (.returned err, s)
    else match dst_device_interface with
    | none => to_host impl s fuel
    | some dst_device_interface => some (to_device impl dst_device_interface s)

/-- The copy under the lock. Holding and releasing the modules of the two interfaces changes neither
buffer. -/
def halide_buffer_copy (s : State ι α) (dst_device_interface : Option ι) (fuel : Nat) :
    Option (Outcome × State ι α) :=
  halide_buffer_copy_already_locked impl s dst_device_interface fuel

end Vyasa.DeviceInterface
