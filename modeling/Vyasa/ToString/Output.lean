import Mathlib.Data.List.Basic
import Mathlib.Data.List.TakeWhile
import Mathlib.Order.MinMax

/-! The destination of the runtime's formatters, and the copy of a string that each of them ends with. -/
namespace Vyasa.ToString

def nul : Char := Char.ofNat 0

/-- The bytes from `start` to `end`, and the place of `dst` among them. -/
structure Output where
  bytes : List Char
  dst : ℕ

/-- There is nothing to write to outside of the bytes. -/
def write (bytes : List Char) (i : ℕ) (c : Char) : Option (List Char) :=
  if i < bytes.length then some (bytes.set i c) else none

/-- `dst[-1] = 0` -/
def terminate (out : Output) : Option Output :=
  match out.dst with
  | 0 => none
  | dst + 1 => do
    let bytes ← write out.bytes dst nul
    some ⟨bytes, dst + 1⟩

/-- The loop over the string. What ends the list is the NUL behind it. -/
def copy : List Char → Output → Option Output
  | [], out =>
    if out.dst = out.bytes.length then terminate out
    else do
      let bytes ← write out.bytes out.dst nul
      some ⟨bytes, out.dst⟩
  | c :: arg, out =>
    if out.dst = out.bytes.length then terminate out
    else do
      let bytes ← write out.bytes out.dst c
      if c = nul then some ⟨bytes, out.dst⟩ else copy arg ⟨bytes, out.dst + 1⟩

def halide_string_to_string (out : Output) (arg : List Char) : Option Output :=
  if out.dst ≥ out.bytes.length then some out else copy arg out

/-- What a string reads as: the characters before its NUL. -/
def cText (arg : List Char) : List Char := arg.takeWhile (· ≠ nul)

theorem cText_of_clean {s : List Char} (h : nul ∉ s) : cText s = s :=
  List.takeWhile_eq_self_iff.mpr fun _ hc => decide_eq_true fun hEq => h (hEq ▸ hc)

theorem nul_not_mem_cText (s : List Char) : nul ∉ cText s := by
  intro h
  have hNot := List.mem_takeWhile_imp (p := fun c => decide (c ≠ nul)) h
  exact of_decide_eq_true hNot rfl

/-- What stands behind the NUL is not read. -/
theorem copy_cText (s : List Char) (out : Output) : copy (cText s) out = copy s out := by
  induction s generalizing out with
  | nil => rfl
  | cons c s ih =>
    by_cases hc : c = nul
    · rw [cText, List.takeWhile_cons_of_neg (by simpa using hc), copy, copy, hc]
      split
      · rfl
      · simp only [if_true]
    · have hCons : cText (c :: s) = c :: cText s := List.takeWhile_cons_of_pos (by simpa using hc)
      rw [hCons, copy, copy]
      simp only [if_neg hc, ih]

theorem string_cText (s : List Char) (out : Output) :
    halide_string_to_string out (cText s) = halide_string_to_string out s := by
  rw [halide_string_to_string, halide_string_to_string, copy_cText]

/-! ### What the bytes hold -/

variable {n : ℕ} {T s : List Char} {out : Output} {c : Char}

/-- A text has been written as far as it fits. -/
structure Begun (n : ℕ) (T : List Char) (out : Output) : Prop where
  length : out.bytes.length = n
  dst : out.dst = min T.length n
  text : out.bytes.take (min T.length (n - 1)) = T.take (n - 1)

/-- And a NUL behind it. -/
structure Holds (n : ℕ) (T : List Char) (out : Output) : Prop extends Begun n T out where
  ended : out.bytes[min T.length (n - 1)]? = some nul

/-- The last byte has been written, and it is no NUL. -/
structure Broken (n : ℕ) (out : Output) : Prop where
  length : out.bytes.length = n
  dst : out.dst = n
  unterminated : nul ∉ out.bytes

theorem Begun.append (h : Begun n T out) (hFull : n ≤ T.length) (s : List Char) : Begun n (T ++ s) out where
  length := h.length
  dst := by
    rw [h.dst, List.length_append, min_eq_right hFull, min_eq_right (le_trans hFull (Nat.le_add_right _ _))]
  text := by
    have hText := h.text
    rw [min_eq_right ((Nat.sub_le n 1).trans hFull)] at hText
    rw [List.length_append, min_eq_right ((Nat.sub_le n 1).trans (le_trans hFull (Nat.le_add_right _ _))), hText,
      List.take_append_of_le_length ((Nat.sub_le n 1).trans hFull)]

theorem Holds.append (h : Holds n T out) (hFull : n ≤ T.length) (s : List Char) : Holds n (T ++ s) out where
  toBegun := h.toBegun.append hFull s
  ended := by
    have hEnded := h.ended
    rw [min_eq_right ((Nat.sub_le n 1).trans hFull)] at hEnded
    rwa [List.length_append, min_eq_right ((Nat.sub_le n 1).trans (le_trans hFull (Nat.le_add_right _ _)))]

/-- While there is room, the text is all there. -/
theorem begun_iff (hRoom : T.length < n) :
    Begun n T out ↔ out.bytes.length = n ∧ out.dst = T.length ∧ out.bytes.take T.length = T := by
  have hLe : T.length ≤ n - 1 := Nat.le_sub_one_of_lt hRoom
  constructor
  · rintro ⟨hLength, hDst, hText⟩
    rw [min_eq_left hLe, List.take_of_length_le hLe] at hText
    exact ⟨hLength, hDst.trans (min_eq_left hRoom.le), hText⟩
  · rintro ⟨hLength, hDst, hText⟩
    refine ⟨hLength, hDst.trans (min_eq_left hRoom.le).symm, ?_⟩
    rwa [min_eq_left hLe, List.take_of_length_le hLe]

theorem take_set {l : List Char} {k : ℕ} (hk : k < l.length) (c : Char) : (l.set k c).take (k + 1) = l.take k ++ [c] := by
  rw [List.take_add_one, List.take_set_of_le (le_refl k), List.getElem?_set_self hk]
  rfl

/-- A character that fits is written behind the text, and becomes a part of it. -/
theorem write_spec (h : Begun n T out) (hRoom : T.length < n) (c : Char) : ∃ bytes,
    write out.bytes out.dst c = some bytes ∧ bytes.length = n ∧ bytes.take (T.length + 1) = T ++ [c] ∧
      bytes[T.length]? = some c := by
  obtain ⟨hLength, hDst, hText⟩ := (begun_iff hRoom).mp h
  have hIn : T.length < out.bytes.length := hLength.symm ▸ hRoom
  refine ⟨out.bytes.set T.length c, ?_, ?_, ?_, ?_⟩
  · rw [write, hDst, if_pos hIn]
  · rw [List.length_set, hLength]
  · rw [take_set hIn, hText]
  · exact List.getElem?_set_self hIn

theorem ended_of_room (h : Begun n T out) (hRoom : T.length < n) : ∃ bytes,
    write out.bytes out.dst nul = some bytes ∧ Holds n T ⟨bytes, out.dst⟩ := by
  obtain ⟨bytes, hWrite, hLength, hText, hNul⟩ := write_spec h hRoom nul
  obtain ⟨-, hDst, -⟩ := (begun_iff hRoom).mp h
  have hTake : bytes.take T.length = T := by
    have hShorter := congrArg (List.take T.length) hText
    rwa [List.take_take, min_eq_left (Nat.le_succ _), List.take_left] at hShorter
  refine ⟨bytes, hWrite, (begun_iff hRoom).mpr ⟨hLength, hDst, hTake⟩, ?_⟩
  rwa [min_eq_left (Nat.le_sub_one_of_lt hRoom)]

/-- The text up to the last byte gets its NUL there. -/
theorem terminate_spec (hPos : 0 < n) (hLength : out.bytes.length = n) (hDst : out.dst = n) (hText : out.bytes = T) :
    ∃ out', terminate out = some out' ∧ Holds n T out' := by
  obtain ⟨k, rfl⟩ := Nat.exists_eq_succ_of_ne_zero hPos.ne'
  have hIn : k < out.bytes.length := hLength.symm ▸ Nat.lt_succ_self k
  have hCount : T.length = k + 1 := by rw [← hText, hLength]
  refine ⟨⟨out.bytes.set k nul, k + 1⟩, ?_, ⟨?_, ?_, ?_⟩, ?_⟩
  · rw [terminate, hDst]
    simp only [write, if_pos hIn, Option.bind_eq_bind, Option.bind_some]
  · rw [List.length_set, hLength]
  · rw [hCount, min_self]
  · rw [hCount, Nat.succ_sub_one, min_eq_right (Nat.le_succ k), List.take_set_of_le (le_refl k), hText]
  · rw [hCount, Nat.succ_sub_one, min_eq_right (Nat.le_succ k)]
    exact List.getElem?_set_self hIn

/-- The loop appends the string to the text. -/
theorem copy_spec (hPos : 0 < n) : ∀ {s T : List Char} {out : Output}, T.length ≤ n → out.bytes.length = n →
    out.dst = T.length → out.bytes.take T.length = T → ∃ out', copy s out = some out' ∧ Holds n (T ++ cText s) out'
  | [], T, out, hLe, hLength, hDst, hText => by
    rcases hLe.lt_or_eq with hRoom | hFull
    · obtain ⟨bytes, hWrite, hHolds⟩ := ended_of_room ((begun_iff hRoom).mpr ⟨hLength, hDst, hText⟩) hRoom
      refine ⟨_, ?_, by rwa [cText, List.takeWhile_nil, List.append_nil]⟩
      rw [copy, if_neg (by omega), hWrite]
      rfl
    · have hAll : out.bytes = T := by
        rwa [List.take_of_length_le (by omega)] at hText
      obtain ⟨out', hTerminate, hHolds⟩ := terminate_spec hPos hLength (hDst.trans hFull) hAll
      refine ⟨out', ?_, hHolds.append hFull.ge _⟩
      rw [copy, if_pos (by omega), hTerminate]
  | c :: s, T, out, hLe, hLength, hDst, hText => by
    rcases hLe.lt_or_eq with hRoom | hFull
    · by_cases hc : c = nul
      · obtain ⟨bytes, hWrite, hHolds⟩ := ended_of_room ((begun_iff hRoom).mpr ⟨hLength, hDst, hText⟩) hRoom
        refine ⟨_, ?_, by rwa [cText, List.takeWhile_cons_of_neg (by simpa using hc), List.append_nil]⟩
        rw [copy, if_neg (by omega), hc, hWrite, Option.bind_eq_bind, Option.bind_some, if_pos rfl]
      · obtain ⟨bytes, hWrite, hLength', hText', -⟩ :=
          write_spec ((begun_iff hRoom).mpr ⟨hLength, hDst, hText⟩) hRoom c
        obtain ⟨out', hCopy, hHolds⟩ := copy_spec hPos (s := s) (T := T ++ [c])
          (by rw [List.length_append, List.length_singleton]; omega)
          (show (⟨bytes, out.dst + 1⟩ : Output).bytes.length = n from hLength')
          (by rw [List.length_append, List.length_singleton, hDst]) (by rwa [List.length_append, List.length_singleton])
        refine ⟨out', ?_, ?_⟩
        · rw [copy, if_neg (by omega), hWrite, Option.bind_eq_bind, Option.bind_some, if_neg hc, hCopy]
        · rwa [cText, List.takeWhile_cons_of_pos (by simpa using hc), List.append_cons]
    · have hAll : out.bytes = T := by
        rwa [List.take_of_length_le (by omega)] at hText
      obtain ⟨out', hTerminate, hHolds⟩ := terminate_spec hPos hLength (hDst.trans hFull) hAll
      refine ⟨out', ?_, hHolds.append hFull.ge _⟩
      rw [copy, if_pos (by omega), hTerminate]

/-- What a formatter may be called with: a text that is begun, and ended if it fills the bytes. -/
def Open (n : ℕ) (T : List Char) (out : Output) : Prop := Begun n T out ∧ (n ≤ T.length → Holds n T out)

theorem Holds.open (h : Holds n T out) : Open n T out := ⟨h.toBegun, fun _ => h⟩

/-- A string is appended to the text. -/
theorem string_spec (hPos : 0 < n) (h : Open n T out) (s : List Char) :
    ∃ out', halide_string_to_string out s = some out' ∧ Holds n (T ++ cText s) out' := by
  obtain ⟨hBegun, hEnded⟩ := h
  rcases lt_or_ge T.length n with hRoom | hFull
  · obtain ⟨hLength, hDst, hText⟩ := (begun_iff hRoom).mp hBegun
    obtain ⟨out', hCopy, hHolds⟩ := copy_spec hPos hRoom.le hLength hDst hText
    refine ⟨out', ?_, hHolds⟩
    rw [halide_string_to_string, if_neg (by omega), hCopy]
  · have hDst := hBegun.dst
    rw [min_eq_right hFull] at hDst
    refine ⟨out, ?_, (hEnded hFull).append hFull _⟩
    rw [halide_string_to_string, if_pos (by rw [hDst, hBegun.length])]

/-- Nothing is written any more once the last byte is. -/
theorem string_of_broken (h : Broken n out) (s : List Char) : halide_string_to_string out s = some out := by
  rw [halide_string_to_string, if_pos (by rw [h.dst, h.length])]

end Vyasa.ToString
