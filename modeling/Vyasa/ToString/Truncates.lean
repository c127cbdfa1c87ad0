import Vyasa.ToString.Formatters

/-! When the formatters truncate what does not fit, so that there is a NUL behind what does. -/
namespace Vyasa.ToString

inductive Call where
  | string (arg : List Char)
  | uint64 (arg : BitVec 64) (min_digits : ℤ)
  | int64 (arg : BitVec 64) (min_digits : ℤ)
  | pointer (arg : BitVec 64)
  | type (t : halide_type_t)
  | buffer (buf : Option halide_buffer_t)

namespace Call

def run : Call → Output → Option Output
  | string arg, out => halide_string_to_string out arg
  | uint64 arg min_digits, out => halide_uint64_to_string out arg min_digits
  | int64 arg min_digits, out => halide_int64_to_string out arg min_digits
  | pointer arg, out => halide_pointer_to_string out arg
  | type t, out => halide_type_to_string out t
  | buffer buf, out => halide_buffer_to_string out buf

/-- The digits fit in the scratch buffer. -/
def InDomain : Call → Prop
  | uint64 _ min_digits => min_digits ≤ 20
  | int64 _ min_digits => min_digits ≤ 20
  | _ => True

def pieces : Call → List Piece
  | string arg => [.string arg]
  | uint64 arg min_digits => [unsigned arg min_digits]
  | int64 arg min_digits => [signed arg min_digits]
  | pointer arg => [ToString.pointer arg]
  | type t => typePieces t
  | buffer buf => bufferPieces buf

end Call

/-- Each call is given what the one before it returned. -/
def runAll : List Call → Output → Option Output
  | [], out => some out
  | c :: calls, out => do
    let out ← c.run out
    runAll calls out

def texts (ps : List Piece) : List Char := ps.flatMap Piece.text

/-- The concatenation of the full texts. -/
def fullText (calls : List Call) : List Char := texts (calls.flatMap Call.pieces)

/-- The text up to the first NUL is what fits of `T`, and `dst` is there, or at the end if something does not fit. -/
structure Truncated (n : ℕ) (T : List Char) (out : Output) : Prop where
  length : out.bytes.length = n
  terminated : nul ∈ out.bytes
  text : out.bytes.takeWhile (· ≠ nul) = T.take (n - 1)
  dst : out.dst = if T.length < n then T.length else n

/-- No minus sign comes to stand on the last byte. -/
def Clear (n : ℕ) (ps : List Piece) : Prop :=
  ∀ before digits after, ps = before ++ .negative digits :: after → (texts before).length + 1 ≠ n

variable {n : ℕ} {T digits : List Char} {out : Output} {p : Piece} {ps : List Piece} {calls : List Call}

/-! ### Pieces without a NUL -/

/-- There is no NUL among the digits. -/
def Piece.Clean : Piece → Prop
  | string _ => True
  | negative digits => nul ∉ digits

theorem Piece.nul_not_mem_text (h : p.Clean) : nul ∉ p.text := by
  cases p with
  | string s => exact nul_not_mem_cText s
  | negative digits =>
    rw [text, List.mem_cons, not_or]
    exact ⟨by decide, h⟩

theorem nul_not_mem_texts (h : ∀ p ∈ ps, p.Clean) : nul ∉ texts ps := by
  rw [texts, List.mem_flatMap]
  rintro ⟨p, hp, hNul⟩
  exact p.nul_not_mem_text (h p hp) hNul

theorem clean_signed (arg : BitVec 64) (m : ℤ) : (signed arg m).Clean := by
  rw [signed]
  split
  · exact nul_not_mem_decimal _ _
  · trivial

theorem clean_pieces (c : Call) : ∀ p ∈ c.pieces, p.Clean := by
  have hStrings {ps : List Piece} (h : ∀ p ∈ ps, ∃ s, p = .string s) : ∀ p ∈ ps, p.Clean := by
    intro p hp
    obtain ⟨s, rfl⟩ := h p hp
    trivial
  have hType (t : halide_type_t) : ∀ p ∈ typePieces t, ∃ s, p = .string s := by
    intro p hp
    rw [typePieces] at hp
    split at hp
    · simp only [List.cons_append, List.nil_append, List.mem_cons, List.not_mem_nil, or_false] at hp
      rcases hp with rfl | rfl | rfl | rfl <;> exact ⟨_, rfl⟩
    · simp only [List.append_nil, List.mem_cons, List.not_mem_nil, or_false] at hp
      rcases hp with rfl | rfl <;> exact ⟨_, rfl⟩
  cases c with
  | string arg => exact hStrings fun p hp => ⟨_, List.mem_singleton.mp hp⟩
  | uint64 arg m => exact hStrings fun p hp => ⟨_, List.mem_singleton.mp hp⟩
  | int64 arg m =>
    intro p hp
    rw [List.mem_singleton.mp hp]
    exact clean_signed arg m
  | pointer arg => exact hStrings fun p hp => ⟨_, List.mem_singleton.mp hp⟩
  | type t => exact hStrings (hType t)
  | buffer buf =>
    cases buf with
    | none => exact hStrings fun p hp => ⟨_, List.mem_singleton.mp hp⟩
    | some buf =>
      intro p hp
      rw [Call.pieces, bufferPieces, List.mem_append, List.mem_append, List.mem_append] at hp
      rcases hp with ((hp | hp) | hp) | hp
      · refine hStrings (fun p hp => ?_) p hp
        simp only [List.mem_cons, List.not_mem_nil, or_false] at hp
        rcases hp with rfl | rfl | rfl | rfl | rfl | rfl | rfl | rfl | rfl <;> exact ⟨_, rfl⟩
      · exact hStrings (hType buf.type) p hp
      · obtain ⟨d, -, hp⟩ := List.mem_flatMap.mp hp
        simp only [dimensionPieces, List.mem_cons, List.not_mem_nil, or_false] at hp
        rcases hp with rfl | rfl | rfl | rfl | rfl | rfl | rfl
        · trivial
        · exact clean_signed _ _
        · trivial
        · exact clean_signed _ _
        · trivial
        · exact clean_signed _ _
        · trivial
      · rw [List.mem_singleton.mp hp]
        trivial

theorem clean_calls (calls : List Call) : ∀ p ∈ calls.flatMap Call.pieces, p.Clean := by
  intro p hp
  obtain ⟨c, -, hp⟩ := List.mem_flatMap.mp hp
  exact clean_pieces c p hp

/-! ### One piece -/

theorem negative_holds (hPos : 0 < n) (h : Open n T out) (hClean : nul ∉ digits) (hLast : T.length + 1 ≠ n) :
    ∃ out', (Piece.negative digits).print out = some out' ∧ Holds n (T ++ '-' :: digits) out' := by
  obtain ⟨hBegun, hEnded⟩ := h
  rcases lt_or_ge T.length n with hRoom | hFull
  · obtain ⟨hLength, hDst, -⟩ := (begun_iff hRoom).mp hBegun
    obtain ⟨bytes, hWrite, hLength', hText', -⟩ := write_spec hBegun hRoom '-'
    have hMore : (T ++ ['-']).length < n := by
      rw [List.length_append, List.length_singleton]
      omega
    have hOpen : Open n (T ++ ['-']) ⟨bytes, out.dst + 1⟩ := by
      refine ⟨(begun_iff hMore).mpr ⟨hLength', ?_, ?_⟩, fun hFull => absurd hMore (not_lt.mpr hFull)⟩
      · rw [List.length_append, List.length_singleton, hDst]
      · rwa [List.length_append, List.length_singleton]
    obtain ⟨out', hString, hHolds⟩ := string_spec hPos hOpen digits
    refine ⟨out', ?_, ?_⟩
    · rw [Piece.print, if_pos (by omega), hWrite, Option.bind_eq_bind, Option.bind_some, hString]
    · rwa [cText_of_clean hClean, List.append_assoc, List.singleton_append] at hHolds
  · have hDst := hBegun.dst
    rw [min_eq_right hFull] at hDst
    refine ⟨out, ?_, (hEnded hFull).append hFull _⟩
    rw [Piece.print, if_neg (by rw [hDst, hBegun.length]; exact lt_irrefl n)]

/-- A minus sign on the last byte leaves no room for a NUL. -/
theorem negative_broken (digits : List Char) (h : Open n T out) (hClean : nul ∉ T) (hLast : T.length + 1 = n) :
    ∃ out', (Piece.negative digits).print out = some out' ∧ Broken n out' := by
  have hRoom : T.length < n := by omega
  obtain ⟨hLength, hDst, -⟩ := (begun_iff hRoom).mp h.1
  obtain ⟨bytes, hWrite, hLength', hText', -⟩ := write_spec h.1 hRoom '-'
  have hBroken : Broken n ⟨bytes, out.dst + 1⟩ := by
    refine ⟨hLength', by rw [hDst, hLast], ?_⟩
    rw [List.take_of_length_le (by omega)] at hText'
    rw [hText', List.mem_append, List.mem_singleton, not_or]
    exact ⟨hClean, by decide⟩
  refine ⟨⟨bytes, out.dst + 1⟩, ?_, hBroken⟩
  rw [Piece.print, if_pos (by omega), hWrite, Option.bind_eq_bind, Option.bind_some, string_of_broken hBroken]

theorem print_of_broken (h : Broken n out) (p : Piece) : p.print out = some out := by
  cases p with
  | string s => exact string_of_broken h s
  | negative digits => rw [Piece.print, if_neg (by rw [h.dst, h.length]; exact lt_irrefl n)]

theorem printAll_of_broken (h : Broken n out) (ps : List Piece) : printAll ps out = some out := by
  induction ps with
  | nil => rfl
  | cons p ps ih => rw [printAll, print_of_broken h, Option.bind_eq_bind, Option.bind_some, ih]

/-- A piece that does not begin with a minus sign on the last byte is appended to the text. -/
theorem print_holds (hPos : 0 < n) (h : Open n T out) (hClean : p.Clean)
    (hLast : ∀ digits, p = .negative digits → T.length + 1 ≠ n) :
    ∃ out', p.print out = some out' ∧ Holds n (T ++ p.text) out' := by
  cases p with
  | string s => exact string_spec hPos h s
  | negative digits => exact negative_holds hPos h hClean (hLast digits rfl)

/-! ### All pieces -/

theorem texts_cons (p : Piece) (ps : List Piece) : texts (p :: ps) = p.text ++ texts ps := List.flatMap_cons

/-- Where no minus sign comes to stand on the last byte, all of the text is appended. -/
theorem printAll_holds (hPos : 0 < n) (hClean : ∀ p ∈ ps, p.Clean) (h : Open n T out)
    (hClear : ∀ before digits after, ps = before ++ .negative digits :: after → (T ++ texts before).length + 1 ≠ n) :
    ∃ out', printAll ps out = some out' ∧ Open n (T ++ texts ps) out' ∧ (ps ≠ [] → Holds n (T ++ texts ps) out') := by
  induction ps generalizing T out with
  | nil =>
    refine ⟨out, rfl, ?_, fun hNil => absurd rfl hNil⟩
    rwa [texts, List.flatMap_nil, List.append_nil]
  | cons p ps ih =>
    have hLast : ∀ digits, p = .negative digits → T.length + 1 ≠ n := by
      rintro digits rfl
      simpa [texts] using hClear [] digits ps rfl
    obtain ⟨out₁, hPrint, hHolds⟩ := print_holds hPos h (hClean p List.mem_cons_self) hLast
    obtain ⟨out₂, hRest, hOpen, hEnd⟩ := ih (T := T ++ p.text) (fun q hq => hClean q (List.mem_cons_of_mem _ hq))
      hHolds.open fun before digits after hEq => by
        have hNext := hClear (p :: before) digits after (by rw [hEq, List.cons_append])
        rwa [texts_cons, ← List.append_assoc] at hNext
    refine ⟨out₂, by rw [printAll, hPrint, Option.bind_eq_bind, Option.bind_some, hRest], ?_, fun _ => ?_⟩
    · rwa [texts_cons, ← List.append_assoc]
    · rw [texts_cons, ← List.append_assoc]
      by_cases hNil : ps = []
      · subst hNil
        obtain rfl := Option.some.inj hRest
        rwa [texts, List.flatMap_nil, List.append_nil]
      · exact hEnd hNil

/-- Otherwise the last NUL is lost. -/
theorem printAll_broken (hPos : 0 < n) (hClean : ∀ p ∈ ps, p.Clean) (hText : nul ∉ T) (h : Open n T out)
    (hLast : ∃ before digits after, ps = before ++ .negative digits :: after ∧ (T ++ texts before).length + 1 = n) :
    ∃ out', printAll ps out = some out' ∧ Broken n out' := by
  induction ps generalizing T out with
  | nil =>
    obtain ⟨before, digits, after, hEq, -⟩ := hLast
    exact absurd hEq.symm (List.append_ne_nil_of_right_ne_nil before (List.cons_ne_nil _ _))
  | cons p ps ih =>
    by_cases hHere : ∃ digits, p = .negative digits ∧ T.length + 1 = n
    · obtain ⟨digits, rfl, hEnd⟩ := hHere
      obtain ⟨out', hPrint, hBroken⟩ := negative_broken digits h hText hEnd
      exact ⟨out', by rw [printAll, hPrint, Option.bind_eq_bind, Option.bind_some, printAll_of_broken hBroken], hBroken⟩
    · have hOther : ∀ digits, p = .negative digits → T.length + 1 ≠ n := fun digits hp hEnd => hHere ⟨digits, hp, hEnd⟩
      have hp := hClean p List.mem_cons_self
      obtain ⟨out₁, hPrint, hHolds⟩ := print_holds hPos h hp hOther
      obtain ⟨before, digits, after, hEq, hEnd⟩ := hLast
      obtain ⟨out₂, hRest, hBroken⟩ := ih (T := T ++ p.text) (fun q hq => hClean q (List.mem_cons_of_mem _ hq))
        (by rw [List.mem_append, not_or]; exact ⟨hText, p.nul_not_mem_text hp⟩) hHolds.open (by
          cases before with
          | nil =>
            obtain ⟨rfl, -⟩ := List.cons.inj hEq
            exact absurd (by simpa [texts] using hEnd) (hOther digits rfl)
          | cons q before =>
            obtain ⟨rfl, hRest⟩ := List.cons.inj hEq
            refine ⟨before, digits, after, hRest, ?_⟩
            rwa [texts_cons, ← List.append_assoc] at hEnd)
      exact ⟨out₂, by rw [printAll, hPrint, Option.bind_eq_bind, Option.bind_some, hRest], hBroken⟩

/-! ### All calls -/

theorem run_eq {c : Call} (h : c.InDomain) (out : Output) : c.run out = printAll c.pieces out := by
  cases c with
  | string arg => exact (printAll_singleton (.string arg) out).symm
  | uint64 arg m => exact (print_unsigned arg h).trans (printAll_singleton (unsigned arg m) out).symm
  | int64 arg m => exact (print_signed arg h).trans (printAll_singleton (signed arg m) out).symm
  | pointer arg => exact (print_pointer arg).trans (printAll_singleton (pointer arg) out).symm
  | type t => exact print_type t
  | buffer buf => exact print_buffer buf

theorem runAll_eq (h : ∀ c ∈ calls, c.InDomain) (out : Output) :
    runAll calls out = printAll (calls.flatMap Call.pieces) out := by
  induction calls generalizing out with
  | nil => rfl
  | cons c calls ih =>
    rw [runAll, run_eq (h c List.mem_cons_self), List.flatMap_cons, printAll_append, Option.bind_eq_bind]
    exact congrArg _ (funext fun out => ih (fun c hc => h c (List.mem_cons_of_mem _ hc)) out)

theorem pieces_ne_nil (c : Call) : c.pieces ≠ [] := by
  cases c with
  | type t => exact List.append_ne_nil_of_left_ne_nil (List.cons_ne_nil _ _) _
  | buffer buf =>
    cases buf with
    | none => exact List.cons_ne_nil _ _
    | some buf => exact List.append_ne_nil_of_right_ne_nil _ (List.cons_ne_nil _ _)
  | _ => exact List.cons_ne_nil _ _

theorem truncated_of_holds (hText : nul ∉ T) (h : Holds n T out) : Truncated n T out := by
  obtain ⟨hLt, hNul⟩ := List.getElem?_eq_some_iff.mp h.ended
  refine ⟨h.length, hNul ▸ List.getElem_mem hLt, ?_, ?_⟩
  · have hSplit : out.bytes = T.take (n - 1) ++ nul :: out.bytes.drop (min T.length (n - 1) + 1) := by
      conv_lhs => rw [← List.take_append_drop (min T.length (n - 1)) out.bytes, ← List.getElem_cons_drop hLt, hNul, h.text]
    rw [hSplit, List.takeWhile_append_of_pos, List.takeWhile_cons_of_neg (by simp), List.append_nil]
    intro c hc
    refine decide_eq_true ?_
    rintro rfl
    exact hText (List.mem_of_mem_take hc)
  · rw [h.dst]
    split
    · next hRoom => exact min_eq_left hRoom.le
    · next hFull => exact min_eq_right (not_lt.mp hFull)

/-- What has been printed is truncated safely after every call exactly if no minus sign of a negative number comes
to stand on the last byte. -/
theorem truncates_iff (bytes : List Char) (calls : List Call) (hStart : 0 < bytes.length)
    (hCalls : ∀ c ∈ calls, c.InDomain) :
    (∀ done, done ≠ [] → done <+: calls →
      ∃ out, runAll done ⟨bytes, 0⟩ = some out ∧ Truncated bytes.length (fullText done) out) ↔
    Clear bytes.length (calls.flatMap Call.pieces) := by
  have hOpen : Open bytes.length [] ⟨bytes, 0⟩ := by
    refine ⟨(begun_iff hStart).mpr ⟨rfl, rfl, rfl⟩, fun hFull => ?_⟩
    exact absurd hStart (not_lt.mpr hFull)
  constructor
  · intro hAll before digits after hEq hLast
    have hNonempty : calls ≠ [] := by
      rintro rfl
      exact absurd hEq.symm (List.append_ne_nil_of_right_ne_nil before (List.cons_ne_nil _ _))
    obtain ⟨out, hRun, hTruncated⟩ := hAll calls hNonempty List.prefix_rfl
    obtain ⟨out', hPrint, hBroken⟩ := printAll_broken hStart (clean_calls calls) List.not_mem_nil hOpen
      ⟨before, digits, after, hEq, hLast⟩
    rw [runAll_eq hCalls, hPrint, Option.some.injEq] at hRun
    subst hRun
    exact hBroken.unterminated hTruncated.terminated
  · intro hClear done hNonempty hDone
    obtain ⟨rest, rfl⟩ := hDone
    obtain ⟨out, hPrint, -, hHolds⟩ := printAll_holds hStart (clean_calls done) hOpen fun before digits after hEq =>
      hClear before digits (after ++ rest.flatMap Call.pieces) (by
        rw [List.flatMap_append, hEq, List.append_assoc, List.cons_append])
    have hPieces : done.flatMap Call.pieces ≠ [] := by
      obtain ⟨c, done, rfl⟩ := List.exists_cons_of_ne_nil hNonempty
      exact List.append_ne_nil_of_left_ne_nil (pieces_ne_nil c) _
    refine ⟨out, ?_, truncated_of_holds (nul_not_mem_texts (clean_calls done)) (hHolds hPieces)⟩
    rw [runAll_eq (fun c hc => hCalls c (List.mem_append_left _ hc)), hPrint]

/-- Four bytes hold three characters of `-12x`. -/
theorem truncates_number : ∃ out, runAll [.int64 (-12) 1, .string ['x']] ⟨['a', 'b', 'c', 'd'], 0⟩ = some out ∧
    Truncated 4 (fullText [.int64 (-12) 1, .string ['x']]) out := by
  refine (truncates_iff ['a', 'b', 'c', 'd'] [.int64 (-12) 1, .string ['x']] (by decide) ?_).mpr ?_ _
    (List.cons_ne_nil _ _) List.prefix_rfl
  · intro c hc
    simp only [List.mem_cons, List.not_mem_nil, or_false] at hc
    rcases hc with rfl | rfl
    · show (1 : ℤ) ≤ 20
      decide
    · trivial
  · rintro before digits after hEq hLast
    have hPieces : [Call.int64 (-12) 1, .string ['x']].flatMap Call.pieces =
        [.negative (decimal 1 12), .string ['x']] := rfl
    rw [hPieces] at hEq
    rcases before with _ | ⟨p, before⟩
    · exact absurd hLast (by decide)
    · rcases before with _ | ⟨q, before⟩
      · simp at hEq
      · have hCount := congrArg List.length hEq
        simp at hCount

/-- One byte has no room for a minus sign and a NUL. -/
theorem not_truncated_minus : ¬ ∃ out, runAll [.int64 (-1) 1] ⟨['a'], 0⟩ = some out ∧
    Truncated 1 (fullText [.int64 (-1) 1]) out := by
  rintro ⟨out, hRun, hTruncated⟩
  have hOut : runAll [.int64 (-1) 1] ⟨['a'], 0⟩ = some ⟨['-'], 1⟩ := rfl
  rw [hOut, Option.some.injEq] at hRun
  subst hRun
  exact absurd hTruncated.terminated (by decide)

end Vyasa.ToString
