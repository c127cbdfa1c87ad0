import Vyasa.DeviceInterface.BufferCopy
import Mathlib.Tactic.Common

/-! When a copy between buffers returns, and that its dirty bits then say where the contents are. -/
namespace Vyasa.DeviceInterface

universe u v

variable {ι : Type u} {α : Type v} {impl : Impl α} {s s' : State ι α} {err : Int}
  {buf : halide_buffer_t ι α}

/-- What the checks of the runtime ask of a buffer. -/
structure halide_buffer_t.Valid (buf : halide_buffer_t ι α) : Prop where
  device_iff : buf.device.isSome = buf.device_interface.isSome
  not_both : (buf.host_dirty && buf.device_dirty) = false

/-- A side that a successful call marks holds what the source held, and a failed call marks no side
that it has not written. -/
structure Honest (s : State ι α) (dst_device_interface : Option ι) (err : Int) (s' : State ι α) :
    Prop where
  contents : err = 0 → ∀ x, s.src.recent = some x →
    (if dst_device_interface.isSome then s'.dst.device else s'.dst.host) = some x
  marks : err = 0 → s'.dst.host_dirty = dst_device_interface.isNone ∧
    s'.dst.device_dirty = dst_device_interface.isSome
  host_written : err ≠ 0 → s'.dst.host_dirty = true →
    s.dst.host_dirty = true ∨ ∀ x, s.src.recent = some x → s'.dst.host = some x
  device_written : err ≠ 0 → s'.dst.device_dirty = true → s.dst.device_dirty = true

/-- The call returns and its dirty bits are right. -/
def Settles [DecidableEq ι] (impl : Impl α) (s : State ι α) (dst_device_interface : Option ι) : Prop :=
  ∃ fuel err s', halide_buffer_copy impl s dst_device_interface fuel = some (.returned err, s') ∧
    Honest s dst_device_interface err s'

/-- From call `n` on, the interface of the source never agrees to write to host memory, also after the
source counts as copied to its own host memory. -/
def Refuses (impl : Impl α) (n : Nat) (device_dirty : Bool) : Prop :=
  if device_dirty then
    (impl n).code = halide_error_code_incompatible_device_interface ∧ (impl (n + 1)).code = 0 ∧
      ∀ k, (impl (n + 2 + k)).code = halide_error_code_incompatible_device_interface
  else ∀ k, (impl (n + k)).code = halide_error_code_incompatible_device_interface

/-- A copy to host memory from a source without host memory makes no progress. -/
def Stuck (impl : Impl α) (s : State ι α) (dst_device_interface : Option ι) : Prop :=
  dst_device_interface = none ∧ s.dst.host.isSome = true ∧ s.src.host = none ∧
    (s.src.device_interface = none ∨ Refuses impl s.calls s.src.device_dirty)

theorem incompatible_ne_zero : halide_error_code_incompatible_device_interface ≠ 0 := by decide

theorem no_device_interface_ne_zero : halide_error_code_no_device_interface ≠ 0 := by decide

theorem copy_to_host_failed_ne_zero : halide_error_code_copy_to_host_failed ≠ 0 := by decide

theorem copy_to_device_failed_ne_zero : halide_error_code_copy_to_device_failed ≠ 0 := by decide

theorem device_malloc_failed_ne_zero : halide_error_code_device_malloc_failed ≠ 0 := by decide

section Flags

/-- A failed call that changed no flag. -/
theorem Honest.of_flags {d : Option ι} (hErr : err ≠ 0) (hHost : s'.dst.host_dirty = s.dst.host_dirty)
    (hDevice : s'.dst.device_dirty = s.dst.device_dirty) : Honest s d err s' where
  contents h := absurd h hErr
  marks h := absurd h hErr
  host_written _ h := .inl (hHost ▸ h)
  device_written _ h := hDevice ▸ h

/-- A successful call marks the side that it wrote. -/
theorem Honest.of_mark {d : Option ι}
    (h : ∀ x, s.src.recent = some x → (if d.isSome then s'.dst.device else s'.dst.host) = some x) :
    Honest s d 0 (s'.mark d 0) where
  contents _ := h
  marks _ := ⟨rfl, rfl⟩
  host_written h := absurd rfl h
  device_written h := absurd rfl h

/-- Earlier steps that keep the flags and what the source holds can be put in front. -/
theorem Honest.of_same {t : State ι α} {d : Option ι} (h : Honest t d err s')
    (hRecent : t.src.recent = s.src.recent) (hHost : t.dst.host_dirty = s.dst.host_dirty)
    (hDevice : t.dst.device_dirty = s.dst.device_dirty) : Honest s d err s' where
  contents := hRecent ▸ h.contents
  marks := h.marks
  host_written := hRecent ▸ hHost ▸ h.host_written
  device_written := hDevice ▸ h.device_written

end Flags

namespace halide_buffer_t

variable {to_device : Bool} {x : α}

@[simp] theorem write_host_dirty : (buf.write to_device x).host_dirty = buf.host_dirty := by
  cases to_device <;> rfl

@[simp] theorem write_device_dirty : (buf.write to_device x).device_dirty = buf.device_dirty := by
  cases to_device <;> rfl

@[simp] theorem write_device_interface :
    (buf.write to_device x).device_interface = buf.device_interface := by
  cases to_device <;> rfl

@[simp] theorem write_false_host : (buf.write false x).host = buf.host.map fun _ => x := rfl

@[simp] theorem write_false_device : (buf.write false x).device = buf.device := rfl

@[simp] theorem write_true_host : (buf.write true x).host = buf.host := rfl

@[simp] theorem write_true_device : (buf.write true x).device = buf.device.map fun _ => x := rfl

theorem map_const {a : Option α} (h : a.isSome = true) : (a.map fun _ => x) = some x := by
  obtain ⟨y, rfl⟩ := Option.isSome_iff_exists.mp h
  rfl

theorem recent_of_device_none (h : buf.device = none) : buf.recent = buf.host := by
  rw [recent, h]
  split <;> cases buf.host <;> rfl

end halide_buffer_t

section Steps

theorem recent_getD {x y : α} (h : buf.recent = some x) : buf.recent.getD y = x := by
  rw [h]
  rfl

/-- A copy by an interface touches only the destination, and not its flags. -/
theorem buffer_copy_honest (impl : Impl α) {d : Option ι} (hSide : (if d.isSome then s.dst.device.isSome
      else s.dst.host.isSome) = true) :
    Honest s d (s.buffer_copy impl d.isSome).1
      ((s.buffer_copy impl d.isSome).2.mark d (s.buffer_copy impl d.isSome).1) := by
  by_cases hCode : (impl s.calls).code = 0
  · simp only [State.buffer_copy, hCode]
    apply Honest.of_mark
    intro x hx
    cases d with
    | none =>
      change (s.dst.host.map fun _ => _) = some x
      rw [halide_buffer_t.map_const hSide, recent_getD hx]
      rfl
    | some d =>
      change (s.dst.device.map fun _ => _) = some x
      rw [halide_buffer_t.map_const hSide, recent_getD hx]
      rfl
  · rw [State.mark, if_neg (show (s.buffer_copy impl d.isSome).1 ≠ 0 from hCode)]
    exact Honest.of_flags hCode halide_buffer_t.write_host_dirty halide_buffer_t.write_device_dirty

/-- What is dirty in host memory reaches the device, or the flags stay. -/
theorem copy_dirty_host_spec (impl : Impl α) (buf : halide_buffer_t ι α) (n : Nat) :
    (copy_dirty_host impl n buf).2.2.host = buf.host ∧
    (copy_dirty_host impl n buf).2.2.device_dirty = buf.device_dirty ∧
    ((copy_dirty_host impl n buf).1 = 0 → buf.host_dirty = true → buf.device.isSome = true →
      ∀ x, buf.host = some x → (copy_dirty_host impl n buf).2.2.device = some x) := by
  unfold copy_dirty_host
  split_ifs with hClean hDevice hCode
  · refine ⟨rfl, rfl, fun _ h => ?_⟩
    rw [h] at hClean
    cases hClean
  · exact ⟨rfl, rfl, fun h => absurd h copy_to_device_failed_ne_zero⟩
  · exact ⟨rfl, halide_buffer_t.write_device_dirty, fun h => absurd h copy_to_device_failed_ne_zero⟩
  · refine ⟨rfl, halide_buffer_t.write_device_dirty, fun _ _ h x hx => ?_⟩
    rw [halide_buffer_t.write_true_device, hx]
    exact halide_buffer_t.map_const h

/-- The copy to a device whose memory is there. -/
theorem copy_to_device_spec (impl : Impl α) [DecidableEq ι] {d : Option ι} (hDevice : s.dst.device.isSome = true) :
    (s.copy_to_device impl d).2.src = s.src ∧
    (s.copy_to_device impl d).2.dst.host = s.dst.host ∧
    (s.copy_to_device impl d).2.dst.device_dirty = s.dst.device_dirty ∧
    ((s.copy_to_device impl d).1 = 0 → s.dst.host_dirty = true →
      ∀ x, s.dst.host = some x → (s.copy_to_device impl d).2.dst.device = some x) := by
  have hSpec := copy_dirty_host_spec impl s.dst s.calls
  have hThere : s.dst.device.isNone = false := by rw [← Option.not_isSome, hDevice]; rfl
  refine ⟨rfl, ?_⟩
  simp only [State.copy_to_device, copy_to_device_already_locked, hThere, Bool.false_eq_true, if_false]
  by_cases hValid : debug_log_and_validate_buf s.dst ≠ 0
  · rw [if_pos hValid]
    exact ⟨rfl, rfl, fun h => absurd h hValid⟩
  · rw [if_neg hValid]
    cases d <|> s.dst.device_interface with
    | none => exact ⟨rfl, rfl, fun h => absurd h no_device_interface_ne_zero⟩
    | some d =>
      dsimp only
      split_ifs
      · exact ⟨rfl, rfl, fun h => absurd h incompatible_ne_zero⟩
      · exact ⟨hSpec.1, hSpec.2.1, fun h hHost => hSpec.2.2 h hHost hDevice⟩

/-- A copy of the source to its own host memory keeps its contents. -/
theorem copy_to_host_spec (impl : Impl α) (hValid : s.src.Valid) :
    (s.copy_to_host impl).2.dst = s.dst ∧
    ((s.copy_to_host impl).1 = 0 → (s.copy_to_host impl).2.src.recent = s.src.recent ∧
      (s.copy_to_host impl).2.src.device_dirty = false ∧
      (s.copy_to_host impl).2.src.device_interface = s.src.device_interface ∧
      (s.copy_to_host impl).2.src.host.isSome = s.src.host.isSome) := by
  refine ⟨rfl, ?_⟩
  simp only [State.copy_to_host, copy_to_host_already_locked]
  split_ifs with hClean hBoth hNull hCode
  · exact fun _ => ⟨rfl, by simpa using hClean, rfl, rfl⟩
  · exact fun h => absurd h copy_to_host_failed_ne_zero
  · exact fun h => absurd h no_device_interface_ne_zero
  · exact fun h => absurd h copy_to_host_failed_ne_zero
  · intro _
    have hDirty : s.src.device_dirty = true := by simpa using hClean
    have hDevice : s.src.device.isSome = true := by
      rw [hValid.device_iff, Option.isSome_iff_ne_none]
      simpa using hNull
    obtain ⟨y, hy⟩ := Option.isSome_iff_exists.mp hDevice
    refine ⟨?_, rfl, halide_buffer_t.write_device_interface, ?_⟩
    · simp only [halide_buffer_t.recent, halide_buffer_t.write_false_host,
        halide_buffer_t.write_false_device, hDirty, hy]
      cases s.src.host <;> rfl
    · exact Option.isSome_map

/-- The allocation changes no contents and no flag, and the memory is there when it succeeds. -/
theorem prepare_spec (impl : Impl α) [DecidableEq ι] (d : Option ι) :
    (prepare impl s d).2.src = s.src ∧ (prepare impl s d).2.dst.host = s.dst.host ∧
    (prepare impl s d).2.dst.host_dirty = s.dst.host_dirty ∧
    (prepare impl s d).2.dst.device_dirty = s.dst.device_dirty ∧
    ((prepare impl s d).1 = 0 → d.isSome = true → (prepare impl s d).2.dst.device.isSome = true) := by
  cases d with
  | none => exact ⟨rfl, rfl, rfl, rfl, fun _ h => absurd h Bool.false_ne_true⟩
  | some d =>
    simp only [prepare, State.device_malloc, halide_device_malloc]
    split_ifs with hSwitch hDevice hValid hCode
    · exact ⟨rfl, rfl, rfl, rfl, fun h => absurd h incompatible_ne_zero⟩
    · exact ⟨rfl, rfl, rfl, rfl, fun h => absurd h hValid⟩
    · exact ⟨rfl, rfl, rfl, rfl, fun h => absurd h device_malloc_failed_ne_zero⟩
    · exact ⟨rfl, rfl, rfl, rfl, fun _ _ => rfl⟩
    · refine ⟨rfl, rfl, rfl, rfl, fun _ _ => ?_⟩
      rw [Option.isSome_iff_ne_none]
      simpa using hDevice

end Steps

section ToDevice

variable [DecidableEq ι] {d : ι}

theorem through_host_honest (impl : Impl α) (hSrc : s.src.Valid) (hDevice : s.dst.device.isSome = true) :
    ∃ err s', through_host impl d s = (.returned err, s') ∧ Honest s (some d) err s' := by
  unfold through_host
  by_cases hDst : (from_device_valid s.src && s.dst.host.isSome) = true
  · obtain ⟨hFrom, hHost⟩ := Bool.and_eq_true_iff.mp hDst
    have hInterface : s.src.device_interface.isNone = false := by
      rw [← Option.not_isSome, ← hSrc.device_iff, (Bool.and_eq_true_iff.mp hFrom).1]
      rfl
    rw [if_pos hDst, hInterface]
    by_cases hCode : (impl s.calls).code = 0
    · -- the contents are in host memory now, whatever the second copy does
      have hWritten : ∀ x, s.src.recent = some x → (s.buffer_copy impl false).2.dst.host = some x := by
        intro x hx
        simp only [State.buffer_copy, if_pos hCode, halide_buffer_t.write_false_host, recent_getD hx]
        exact halide_buffer_t.map_const hHost
      generalize hMid : (s.buffer_copy impl false).2 = t at hWritten
      have hFlag : t.dst.device_dirty = s.dst.device_dirty := by
        rw [← hMid]
        exact halide_buffer_t.write_device_dirty
      have hThere : t.dst.device.isSome = true := by
        rw [← hMid]
        exact hDevice
      have hSpec := copy_to_device_spec impl (s := { t with dst := { t.dst with host_dirty := true } })
        (d := some d) hThere
      generalize hLast : State.copy_to_device impl (some d)
        { t with dst := { t.dst with host_dirty := true } } = r at hSpec
      obtain ⟨err, s'⟩ := r
      obtain ⟨hSpecSrc, hSpecHost, hSpecDirty, hSpecDevice⟩ := hSpec
      refine ⟨err, s'.mark (some d) err, ?_, ?_⟩
      · have hPair : s.buffer_copy impl false = (0, t) := Prod.ext hCode hMid
        rw [hPair]
        simp only [Bool.false_eq_true, if_false, ne_eq, not_true_eq_false, hLast]
      · by_cases hErr : err = 0
        · subst hErr
          exact Honest.of_mark fun x hx => hSpecDevice rfl rfl x (hWritten x hx)
        · rw [State.mark, if_neg hErr]
          exact
            { contents := fun h => absurd h hErr
              marks := fun h => absurd h hErr
              host_written := fun _ _ => .inr fun x hx => hSpecHost.trans (hWritten x hx)
              device_written := fun _ h => hFlag ▸ hSpecDirty ▸ h }
    · refine ⟨(impl s.calls).code, (s.buffer_copy impl false).2, ?_, ?_⟩
      · simp only [State.buffer_copy, Bool.false_eq_true, if_false, ne_eq, hCode, not_false_eq_true, if_true]
      · exact Honest.of_flags hCode halide_buffer_t.write_host_dirty halide_buffer_t.write_device_dirty
  · rw [if_neg hDst]
    obtain ⟨hSame, hSpec⟩ := copy_to_host_spec impl hSrc
    generalize s.copy_to_host impl = r at hSame hSpec
    obtain ⟨err, t⟩ := r
    dsimp only at hSame hSpec ⊢
    by_cases hErr : err = 0
    · rw [if_neg (not_not_intro hErr)]
      have hHonest := buffer_copy_honest impl (s := t) (d := some d) (hSame ▸ hDevice)
      exact ⟨_, _, rfl, hHonest.of_same (hSpec hErr).1 (by rw [hSame]) (by rw [hSame])⟩
    · rw [if_pos hErr]
      exact ⟨err, t, rfl, Honest.of_flags hErr (by rw [hSame]) (by rw [hSame])⟩

theorem to_device_honest (impl : Impl α) (hSrc : s.src.Valid) (hDevice : s.dst.device.isSome = true) :
    ∃ err s', to_device impl d s = (.returned err, s') ∧ Honest s (some d) err s' := by
  have hRest : ∀ t : State ι α, t.src = s.src → t.dst.device.isSome = true →
      t.dst.host_dirty = s.dst.host_dirty → t.dst.device_dirty = s.dst.device_dirty →
      ∃ err s', (if (t.src.host.isNone && t.dst.host.isNone) = true then
        (Outcome.returned halide_error_code_incompatible_device_interface, t)
        else through_host impl d t) = (.returned err, s') ∧ Honest s (some d) err s' := by
    intro t ht hThere hHost hDirty
    split_ifs
    · exact ⟨_, t, rfl, Honest.of_flags incompatible_ne_zero hHost hDirty⟩
    · obtain ⟨err, s', h, hHonest⟩ := through_host_honest impl (d := d) (s := t) (ht ▸ hSrc) hThere
      exact ⟨err, s', h, hHonest.of_same (by rw [ht]) hHost hDirty⟩
  unfold to_device
  by_cases hFrom : from_device_valid s.src = true
  · rw [if_pos hFrom]
    by_cases hCode : (impl s.calls).code = halide_error_code_incompatible_device_interface
    · dsimp only
      rw [if_neg (show ¬(s.buffer_copy impl true).1 ≠ _ from not_not_intro hCode)]
      refine hRest (s.buffer_copy impl true).2 rfl ?_ halide_buffer_t.write_host_dirty
        halide_buffer_t.write_device_dirty
      exact Option.isSome_map.trans hDevice
    · dsimp only
      rw [if_pos (show (s.buffer_copy impl true).1 ≠ _ from hCode)]
      exact ⟨_, _, rfl, buffer_copy_honest impl (s := s) (d := some d) hDevice⟩
  · rw [if_neg hFrom]
    exact hRest s rfl hDevice rfl rfl

end ToDevice

section ToHost

/-- A step of the copy to host memory that leaves the source without valid host memory. -/
theorem to_host_succ (impl : Impl α) (fuel : Nat) (hDst : s.dst.host.isSome = true) (hFrom : from_host_valid s.src = false)
    (hInterface : s.src.device_interface.isSome = true)
    (hCode : (impl s.calls).code = halide_error_code_incompatible_device_interface) :
    to_host impl s (fuel + 1) =
      if ((s.buffer_copy impl false).2.copy_to_host impl).1 ≠ 0 then
        some (.returned ((s.buffer_copy impl false).2.copy_to_host impl).1,
          ((s.buffer_copy impl false).2.copy_to_host impl).2)
      else to_host impl ((s.buffer_copy impl false).2.copy_to_host impl).2 fuel := by
  have hNone : s.dst.host.isNone = false := by rw [← Option.not_isSome, hDst]; rfl
  have hNull : s.src.device_interface.isNone = false := by rw [← Option.not_isSome, hInterface]; rfl
  rw [to_host, hNone, hFrom, hNull]
  simp only [Bool.false_eq_true, if_false]
  rw [if_neg (show ¬(s.buffer_copy impl false).1 ≠ _ from not_not_intro hCode)]

/-- The interface of the source settles the copy with its next answer. -/
theorem to_host_of_answer {fuel : Nat} (hDst : s.dst.host.isSome = true)
    (hFrom : from_host_valid s.src = false) (hInterface : s.src.device_interface.isSome = true)
    (hCode : (impl s.calls).code ≠ halide_error_code_incompatible_device_interface) :
    ∃ err s', to_host impl s (fuel + 1) = some (.returned err, s') ∧ Honest s none err s' := by
  have hNone : s.dst.host.isNone = false := by rw [← Option.not_isSome, hDst]; rfl
  have hNull : s.src.device_interface.isNone = false := by rw [← Option.not_isSome, hInterface]; rfl
  rw [to_host, hNone, hFrom, hNull]
  simp only [Bool.false_eq_true, if_false]
  rw [if_pos (show (s.buffer_copy impl false).1 ≠ _ from hCode)]
  exact ⟨_, _, rfl, buffer_copy_honest impl (s := s) (d := none) hDst⟩

theorem recent_of_clean (hHost : buf.host.isSome = true) (hClean : buf.device_dirty = false) :
    buf.recent = buf.host := by
  obtain ⟨y, hy⟩ := Option.isSome_iff_exists.mp hHost
  rw [halide_buffer_t.recent, hClean, hy]
  rfl

theorem recent_of_from_host_valid (hValid : buf.Valid) (hFrom : from_host_valid buf = true) :
    buf.recent = buf.host := by
  obtain ⟨hHost, hClean⟩ := Bool.and_eq_true_iff.mp hFrom
  rcases Bool.or_eq_true_iff.mp hClean with hDirty | hNull
  · exact recent_of_clean hHost ((Bool.not_eq_true' _).mp hDirty)
  · have hDevice : buf.device = none := by
      rw [← Option.not_isSome_iff_eq_none, hValid.device_iff, Option.isNone_iff_eq_none.mp hNull]
      exact Bool.false_ne_true
    exact halide_buffer_t.recent_of_device_none hDevice

theorem to_host_of_host (hDst : s.dst.host.isSome = true) (hFrom : from_host_valid s.src = true)
    (hRecent : s.src.recent = s.src.host) :
    ∃ fuel err s', to_host impl s fuel = some (.returned err, s') ∧ Honest s none err s' := by
  have hNone : s.dst.host.isNone = false := by rw [← Option.not_isSome, hDst]; rfl
  refine ⟨1, 0, s.copy_memory.mark none 0, ?_, Honest.of_mark fun x hx => ?_⟩
  · rw [to_host, hNone, hFrom]
    rfl
  · rw [hRecent] at hx
    simp only [State.copy_memory, hx]
    exact halide_buffer_t.map_const hDst

/-- Steps of an interface that refuses leave the state as it was, but for what is in the destination. -/
theorem refused_step (hClean : s.src.device_dirty = false) :
    (s.buffer_copy impl false).2.copy_to_host impl = (0, (s.buffer_copy impl false).2) := by
  simp only [State.copy_to_host, copy_to_host_already_locked, State.buffer_copy, hClean]
  rfl

theorem from_host_valid_of_none (hHost : s.src.host = none) : from_host_valid s.src = false := by
  rw [from_host_valid, hHost]
  rfl

/-- The second call for a dirty source is its copy to host memory. -/
theorem copied_calls (impl : Impl α) (hSrc : s.src.Valid) (hInterface : s.src.device_interface.isSome = true)
    (hDirty : s.src.device_dirty = true) :
    ((s.buffer_copy impl false).2.copy_to_host impl).2.calls = s.calls + 2 ∧
      (((s.buffer_copy impl false).2.copy_to_host impl).1 = 0 ↔ (impl (s.calls + 1)).code = 0) := by
  have hNull : s.src.device_interface.isNone = false := by rw [← Option.not_isSome, hInterface]; rfl
  have hClean : s.src.host_dirty = false := by simpa only [hDirty, Bool.and_true] using hSrc.not_both
  simp only [State.copy_to_host, copy_to_host_already_locked, State.buffer_copy, hDirty, hNull, hClean,
    Bool.not_true, Bool.false_eq_true, if_false]
  by_cases hCode : (impl (s.calls + 1)).code = 0
  · simp only [hCode, ne_eq, not_true_eq_false, if_false, and_self]
  · simp only [hCode, ne_eq, not_false_eq_true, if_true, iff_false, true_and]
    exact copy_to_host_failed_ne_zero

/-- One answer of the interface is enough. -/
theorem to_host_of_later_answer : ∀ (k : Nat) {s : State ι α}, s.dst.host.isSome = true →
    s.src.host = none → s.src.device_interface.isSome = true → s.src.device_dirty = false →
    (impl (s.calls + k)).code ≠ halide_error_code_incompatible_device_interface →
    ∃ fuel err s', to_host impl s fuel = some (.returned err, s') ∧ Honest s none err s'
  | 0, s, hDst, hHost, hInterface, _, hCode =>
      ⟨1, to_host_of_answer hDst (from_host_valid_of_none hHost) hInterface hCode⟩
  | k + 1, s, hDst, hHost, hInterface, hClean, hCode => by
    by_cases hNow : (impl s.calls).code = halide_error_code_incompatible_device_interface
    · obtain ⟨fuel, err, s', h, hHonest⟩ := to_host_of_later_answer k
        (s := (s.buffer_copy impl false).2) (by
          change (s.dst.host.map fun _ => _).isSome = true
          rw [Option.isSome_map, hDst]) hHost hInterface hClean (by
          rw [show (s.buffer_copy impl false).2.calls + k = s.calls + (k + 1) from by
            change s.calls + 1 + k = _; omega]
          exact hCode)
      refine ⟨fuel + 1, err, s', ?_, hHonest.of_same rfl halide_buffer_t.write_host_dirty
        halide_buffer_t.write_device_dirty⟩
      rw [to_host_succ impl fuel hDst (from_host_valid_of_none hHost) hInterface hNow, refused_step hClean]
      exact h
    · exact ⟨1, to_host_of_answer hDst (from_host_valid_of_none hHost) hInterface hNow⟩

/-- With no answer there is no result for any fuel. -/
theorem to_host_eq_none : ∀ (fuel : Nat) {s : State ι α}, s.dst.host.isSome = true → s.src.host = none →
    s.src.device_interface.isSome = true → s.src.device_dirty = false →
    (∀ k, (impl (s.calls + k)).code = halide_error_code_incompatible_device_interface) →
    to_host impl s fuel = none
  | 0, _, _, _, _, _, _ => rfl
  | fuel + 1, s, hDst, hHost, hInterface, hClean, hCode => by
    rw [to_host_succ impl fuel hDst (from_host_valid_of_none hHost) hInterface (hCode 0), refused_step hClean]
    refine to_host_eq_none fuel (s := (s.buffer_copy impl false).2) ?_ hHost hInterface hClean fun k => ?_
    · change (s.dst.host.map fun _ => _).isSome = true
      rw [Option.isSome_map, hDst]
    · rw [show (s.buffer_copy impl false).2.calls + k = s.calls + (k + 1) from by
        change s.calls + 1 + k = _; omega]
      exact hCode (k + 1)

/-- The interface has refused, and the source is copied to its own host memory. -/
theorem to_host_of_copied (hDst : s.dst.host.isSome = true) (hSrc : s.src.Valid)
    (hFrom : from_host_valid s.src = false) (hInterface : s.src.device_interface.isSome = true)
    (hNow : (impl s.calls).code = halide_error_code_incompatible_device_interface)
    (hRest : ((s.buffer_copy impl false).2.copy_to_host impl).1 = 0 →
      ∃ fuel err s', to_host impl ((s.buffer_copy impl false).2.copy_to_host impl).2 fuel =
        some (.returned err, s') ∧
          Honest ((s.buffer_copy impl false).2.copy_to_host impl).2 none err s') :
    ∃ fuel err s', to_host impl s fuel = some (.returned err, s') ∧ Honest s none err s' := by
  obtain ⟨hSame, hSpec⟩ := copy_to_host_spec impl (s := (s.buffer_copy impl false).2) hSrc
  have hStep := fun fuel => to_host_succ impl fuel hDst hFrom hInterface hNow
  generalize (s.buffer_copy impl false).2.copy_to_host impl = r at hSame hSpec hStep hRest
  have hHost : r.2.dst.host_dirty = s.dst.host_dirty := hSame ▸ halide_buffer_t.write_host_dirty
  have hDevice : r.2.dst.device_dirty = s.dst.device_dirty := hSame ▸ halide_buffer_t.write_device_dirty
  by_cases hErr : r.1 = 0
  · obtain ⟨fuel, err, s', h, hHonest⟩ := hRest hErr
    refine ⟨fuel + 1, err, s', ?_, hHonest.of_same (hSpec hErr).1 hHost hDevice⟩
    rw [hStep, if_neg (not_not_intro hErr), h]
  · refine ⟨1, r.1, r.2, ?_, Honest.of_flags hErr hHost hDevice⟩
    rw [hStep, if_pos hErr]

/-- With host memory at the source, its copy to there is enough. -/
theorem to_host_of_src_host (hDst : s.dst.host.isSome = true) (hSrc : s.src.Valid)
    (hHost : s.src.host.isSome = true) :
    ∃ fuel err s', to_host impl s fuel = some (.returned err, s') ∧ Honest s none err s' := by
  by_cases hFrom : from_host_valid s.src = true
  · exact to_host_of_host hDst hFrom (recent_of_from_host_valid hSrc hFrom)
  rw [Bool.not_eq_true] at hFrom
  have hInterface : s.src.device_interface.isSome = true := by
    rw [from_host_valid, hHost, Bool.true_and, Bool.or_eq_false_iff] at hFrom
    rw [← Option.not_isNone, hFrom.2]
    rfl
  by_cases hNow : (impl s.calls).code = halide_error_code_incompatible_device_interface
  · refine to_host_of_copied hDst hSrc hFrom hInterface hNow fun hErr => ?_
    obtain ⟨hSame, hSpec⟩ := copy_to_host_spec impl (s := (s.buffer_copy impl false).2) hSrc
    obtain ⟨-, hClean, -, hThere⟩ := hSpec hErr
    have hThere := hThere.trans hHost
    refine to_host_of_host ?_ ?_ (recent_of_clean hThere hClean)
    · rw [hSame]
      exact Option.isSome_map.trans hDst
    · rw [from_host_valid, hThere, hClean]
      rfl
  · exact ⟨1, to_host_of_answer hDst hFrom hInterface hNow⟩

/-- Without host memory at the source, only an answer of its interface settles the copy. -/
theorem to_host_of_not_refuses (hDst : s.dst.host.isSome = true) (hSrc : s.src.Valid)
    (hHost : s.src.host = none) (hInterface : s.src.device_interface.isSome = true)
    (hAnswers : ¬Refuses impl s.calls s.src.device_dirty) :
    ∃ fuel err s', to_host impl s fuel = some (.returned err, s') ∧ Honest s none err s' := by
  have hFrom := from_host_valid_of_none hHost
  cases hDirty : s.src.device_dirty with
  | false =>
    rw [Refuses, hDirty, if_neg Bool.false_ne_true, not_forall] at hAnswers
    obtain ⟨k, hk⟩ := hAnswers
    exact to_host_of_later_answer k hDst hHost hInterface hDirty hk
  | true =>
    rw [Refuses, hDirty, if_pos rfl] at hAnswers
    by_cases hNow : (impl s.calls).code = halide_error_code_incompatible_device_interface
    · refine to_host_of_copied hDst hSrc hFrom hInterface hNow fun hErr => ?_
      obtain ⟨hSame, hSpec⟩ := copy_to_host_spec impl (s := (s.buffer_copy impl false).2) hSrc
      obtain ⟨-, hClean, hSameInterface, hThere⟩ := hSpec hErr
      obtain ⟨hCalls, hCode⟩ := copied_calls impl hSrc hInterface hDirty
      have hLater := mt (fun h => ⟨hNow, hCode.mp hErr, h⟩) hAnswers
      obtain ⟨k, hk⟩ := not_forall.mp hLater
      refine to_host_of_later_answer k ?_ ?_ (hSameInterface ▸ hInterface) hClean ?_
      · rw [hSame]
        exact Option.isSome_map.trans hDst
      · rw [← Option.not_isSome_iff_eq_none, hThere]
        change ¬s.src.host.isSome = true
        rw [hHost]
        exact Bool.false_ne_true
      · rw [hCalls]
        exact hk
    · exact ⟨1, to_host_of_answer hDst hFrom hInterface hNow⟩

end ToHost

section Main

/-- Nothing but a stuck copy to host memory keeps the call from its result. -/
theorem settles_of_not_stuck [DecidableEq ι] {d : Option ι} (hSrc : s.src.Valid) (hFree : ¬Stuck impl s d) :
    Settles impl s d := by
  obtain ⟨hSame, hHost, hHostFlag, hDeviceFlag, hThere⟩ := prepare_spec impl (s := s) d
  cases d with
  | none =>
    suffices h : ∃ fuel err s', to_host impl s fuel = some (.returned err, s') ∧ Honest s none err s' from h
    by_cases hDst : s.dst.host.isSome = true
    · cases hSrcHost : s.src.host with
      | some x => exact to_host_of_src_host hDst hSrc (hSrcHost ▸ rfl)
      | none =>
        cases hInterface : s.src.device_interface with
        | none => exact absurd ⟨rfl, hDst, hSrcHost, .inl hInterface⟩ hFree
        | some i =>
          exact to_host_of_not_refuses hDst hSrc hSrcHost (hInterface ▸ rfl) fun h =>
            hFree ⟨rfl, hDst, hSrcHost, .inr h⟩
    · refine ⟨1, halide_error_code_host_is_null, s, ?_, Honest.of_flags (by decide) rfl rfl⟩
      rw [to_host, ← Option.not_isSome, (Bool.not_eq_true _).mp hDst]
      rfl
  | some d =>
    unfold Settles halide_buffer_copy halide_buffer_copy_already_locked
    generalize prepare impl s (some d) = r at hSame hHost hHostFlag hDeviceFlag hThere
    by_cases hErr : r.1 = 0
    · obtain ⟨err, s', h, hHonest⟩ := to_device_honest impl (d := d) (s := r.2) (hSame ▸ hSrc)
        (hThere hErr rfl)
      refine ⟨0, err, s', ?_, hHonest.of_same (by rw [hSame]) hHostFlag hDeviceFlag⟩
      dsimp only
      rw [if_neg (not_not_intro hErr), h]
    · refine ⟨0, r.1, r.2, ?_, Honest.of_flags hErr hHostFlag hDeviceFlag⟩
      dsimp only
      rw [if_pos hErr]

/-- An interface that refuses leaves the call without a result for any fuel. -/
theorem to_host_of_refuses (hDst : s.dst.host.isSome = true) (hSrc : s.src.Valid)
    (hHost : s.src.host = none) (hInterface : s.src.device_interface.isSome = true)
    (hRefuses : Refuses impl s.calls s.src.device_dirty) (fuel : Nat) : to_host impl s fuel = none := by
  cases hDirty : s.src.device_dirty with
  | false =>
    rw [Refuses, hDirty, if_neg Bool.false_ne_true] at hRefuses
    exact to_host_eq_none fuel hDst hHost hInterface hDirty hRefuses
  | true =>
    rw [Refuses, hDirty, if_pos rfl] at hRefuses
    obtain ⟨hNow, hCode, hLater⟩ := hRefuses
    cases fuel with
    | zero => rfl
    | succ fuel =>
      obtain ⟨hCalls, hErr⟩ := copied_calls impl hSrc hInterface hDirty
      obtain ⟨hSame, hSpec⟩ := copy_to_host_spec impl (s := (s.buffer_copy impl false).2) hSrc
      obtain ⟨-, hClean, hSameInterface, hThere⟩ := hSpec (hErr.mpr hCode)
      rw [to_host_succ impl fuel hDst (from_host_valid_of_none hHost) hInterface hNow,
        if_neg (not_not_intro (hErr.mpr hCode))]
      refine to_host_eq_none fuel ?_ ?_ (hSameInterface ▸ hInterface) hClean fun k => ?_
      · rw [hSame]
        exact Option.isSome_map.trans hDst
      · rw [← Option.not_isSome_iff_eq_none, hThere]
        change ¬s.src.host.isSome = true
        rw [hHost]
        exact Bool.false_ne_true
      · rw [hCalls]
        exact hLater k

/-- A stuck copy has no result for any fuel, or ends at the null interface. -/
theorem not_settles_of_stuck [DecidableEq ι] {d : Option ι} (hSrc : s.src.Valid) (hStuck : Stuck impl s d) :
    ¬Settles impl s d := by
  obtain ⟨rfl, hDst, hHost, hStuck⟩ := hStuck
  rintro ⟨fuel, err, s', h, -⟩
  change to_host impl s fuel = _ at h
  cases hInterface : s.src.device_interface with
  | some i =>
    rw [hInterface, or_iff_right (Option.some_ne_none i)] at hStuck
    rw [to_host_of_refuses hDst hSrc hHost (hInterface ▸ rfl) hStuck] at h
    cases h
  | none =>
    have hNone : s.dst.host.isNone = false := by rw [← Option.not_isSome, hDst]; rfl
    cases fuel with
    | zero => cases h
    | succ fuel =>
      rw [to_host, hNone, from_host_valid_of_none hHost, hInterface] at h
      cases h

/-- A copy settles unless it goes to host memory from a source that has none and whose interface is
null or refuses for ever. -/
theorem settles_iff [DecidableEq ι] {d : Option ι} (hSrc : s.src.Valid) : Settles impl s d ↔ ¬Stuck impl s d :=
  ⟨fun h hStuck => not_settles_of_stuck hSrc hStuck h, settles_of_not_stuck hSrc⟩

end Main

section Points

/-- A buffer with the given memory and clean flags. -/
private def clean (host device : Option Int) : halide_buffer_t Unit Int where
  host := host
  device := device
  device_interface := device.map fun _ => ()
  host_dirty := false
  device_dirty := false

/-- A copy between two devices through host memory. -/
theorem settles_iff_through_host :
    Settles (fun k => ⟨if k = 0 then -42 else 0, 9⟩) ⟨0, clean none (some 5), clean (some 1) (some 2)⟩
      (some ()) :=
  (settles_iff ⟨rfl, rfl⟩).mpr fun h => Option.some_ne_none _ h.1

/-- An empty source is read through its null interface, and a source on a device whose interface does
not copy to host memory is asked for ever. -/
theorem not_settles :
    (halide_buffer_copy (fun _ => ⟨0, 9⟩) ⟨0, clean none none, clean (some 1) none⟩ none 1).map Prod.fst =
      some .null_interface ∧
    ∀ fuel, halide_buffer_copy (fun _ => ⟨-42, 9⟩) ⟨0, clean none (some 5), clean (some 1) none⟩ none fuel =
      none :=
  ⟨rfl, to_host_of_refuses rfl ⟨rfl, rfl⟩ rfl rfl fun _ => rfl⟩

end Points

end Vyasa.DeviceInterface
