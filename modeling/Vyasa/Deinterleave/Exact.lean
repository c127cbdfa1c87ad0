import Vyasa.Deinterleave.Mutate

/-! When the lanes that are taken are those that should be. -/
namespace Vyasa.Lanes

open Word IRMatch

namespace Deinterleaver

variable (d : Deinterleaver) (mode : IntType → Mode) (ρ : Env)

/-- A scalar stays as it is, and of a vector the lanes are taken. -/
structure Takes (e r : Expr) : Prop where
  type_eq : r.type = e.type
  lanes_eq : r.lanes = if e.lanes = 1 then 1 else d.new_lanes
  lane_eq : ∀ i < r.lanes, lane mode ρ r i = lane mode ρ e (if e.lanes = 1 then i else d.source i)

/-- The mutator has a result, with the lanes that are to be taken. -/
def Exact (e : Expr) : Prop := ∃ r, d.mutate e = some r ∧ d.Takes mode ρ e r

/-- The numbers that a ramp is computed with are values of its type, and each lane that is
taken through a shuffle, where the indices go into the shuffle itself, is as the one there. -/
def Kept (e : Expr) : Prop :=
  match e with
  | .ramp base _ _ => base.type.Has d.starting_lane ∧ (1 < d.new_lanes → base.type.Has d.lane_stride)
  | .shuffle _ vectors indices => Shuffle.is_interleave vectors indices = true ∨
      ∀ i < d.new_lanes, ∃ k, indices[d.source i]? = some k ∧ k < indices.length ∧
        lane mode ρ e k = lane mode ρ e (d.source i)
  | _ => True

/-- The variables of the lanes of a let hold them. -/
def Bound : Prop := ∀ name other, d.external_lets name = true → d.lanesName name = some other →
  ∀ i < d.new_lanes, ρ.vars other i = ρ.vars name (d.source i)

/-- The mutator takes all lanes of a vector that its stride and start reach. -/
structure Covers (lanes : Nat) : Prop where
  vector : 1 < lanes
  start_lt : d.starting_lane < d.lane_stride
  count : d.lane_stride * d.new_lanes = lanes

variable {d mode ρ} {L : Nat} {Γ : Context}

theorem Covers.pos (h : d.Covers L) : 0 < d.new_lanes := by
  rcases Nat.eq_zero_or_pos d.new_lanes with hZero | hPos
  · have hCount := h.count
    rw [hZero, Nat.mul_zero] at hCount
    have hVector := h.vector
    omega
  · exact hPos

theorem Covers.source_lt (h : d.Covers L) {i : Nat} (hi : i < d.new_lanes) : d.source i < L :=
  calc d.starting_lane + d.lane_stride * i < d.lane_stride * (i + 1) := by
        rw [Nat.mul_succ]
        have := h.start_lt
        omega
    _ ≤ d.lane_stride * d.new_lanes := Nat.mul_le_mul_left _ hi
    _ = L := h.count

theorem Covers.ne_one (h : d.Covers L) : L ≠ 1 := h.vector.ne'

/-- What is in the result of a scalar. -/
theorem takes_scalar {e r : Expr} (he : e.lanes = 1) (hType : r.type = e.type) (hLanes : r.lanes = 1)
    (hLane : lane mode ρ r 0 = lane mode ρ e 0) : d.Takes mode ρ e r where
  type_eq := hType
  lanes_eq := by rw [if_pos he, hLanes]
  lane_eq i hi := by
    obtain rfl : i = 0 := by omega
    rw [if_pos he, hLane]

theorem takes_self {e : Expr} (he : e.lanes = 1) : d.Takes mode ρ e e := takes_scalar he rfl he rfl

theorem takes_vector {e r : Expr} (he : e.lanes ≠ 1) (hType : r.type = e.type)
    (hLanes : r.lanes = d.new_lanes)
    (hLane : ∀ i < d.new_lanes, lane mode ρ r i = lane mode ρ e (d.source i)) : d.Takes mode ρ e r where
  type_eq := hType
  lanes_eq := by rw [if_neg he, hLanes]
  lane_eq i hi := by
    rw [if_neg he]
    exact hLane i (hLanes ▸ hi)

namespace Takes

variable {a b c r s t : Expr}

/-- The results for two operands of one lane count have one lane count too. -/
theorem lanes_congr (ha : d.Takes mode ρ a r) (hb : d.Takes mode ρ b s) (h : a.lanes = b.lanes) :
    r.lanes = s.lanes := by
  rw [ha.lanes_eq, hb.lanes_eq, h]

theorem cast (T : IntType) (ha : d.Takes mode ρ a r) : d.Takes mode ρ (.cast T a) (.cast T r) where
  type_eq := rfl
  lanes_eq := ha.lanes_eq
  lane_eq i hi := by
    rw [lane, lane, ha.lane_eq i hi, ha.type_eq]
    rfl

theorem bin (op : BinOp) (ha : d.Takes mode ρ a r) (hb : d.Takes mode ρ b s) (h : a.lanes = b.lanes) :
    d.Takes mode ρ (.bin op a b) (.bin op r s) where
  type_eq := ha.type_eq
  lanes_eq := ha.lanes_eq
  lane_eq i hi := by
    rw [lane, lane, ha.lane_eq i hi, hb.lane_eq i (ha.lanes_congr hb h ▸ hi), ha.type_eq, ← h]
    rfl

theorem cmp (op : CmpOp) (ha : d.Takes mode ρ a r) (hb : d.Takes mode ρ b s) (h : a.lanes = b.lanes) :
    d.Takes mode ρ (.cmp op a b) (.cmp op r s) where
  type_eq := rfl
  lanes_eq := ha.lanes_eq
  lane_eq i hi := by
    rw [lane, lane, ha.lane_eq i hi, hb.lane_eq i (ha.lanes_congr hb h ▸ hi), ← h]
    rfl

theorem not (ha : d.Takes mode ρ a r) : d.Takes mode ρ (.not a) (.not r) where
  type_eq := rfl
  lanes_eq := ha.lanes_eq
  lane_eq i hi := by
    rw [lane, lane, ha.lane_eq i hi]
    rfl

/-- The lane that goes into a lane of the result, where the operand may be a scalar. -/
theorem lane_laneOf (ha : d.Takes mode ρ a r) {L i : Nat} (hL : d.Covers L) (h : a.lanes = 1 ∨ a.lanes = L)
    (hi : i < d.new_lanes) :
    lane mode ρ r (r.laneOf i) = lane mode ρ a (a.laneOf (d.source i)) := by
  rcases h with h | h
  · have hr : r.lanes = 1 := by rw [ha.lanes_eq, if_pos h]
    rw [Expr.laneOf, Expr.laneOf, if_pos hr, if_pos h, ha.lane_eq 0 (by omega), if_pos h]
  · have hNe : a.lanes ≠ 1 := h ▸ hL.ne_one
    have hr : r.lanes = d.new_lanes := by rw [ha.lanes_eq, if_neg hNe]
    rw [Expr.laneOf, Expr.laneOf, if_neg hNe, ← if_neg hNe (c := a.lanes = 1) (t := i) (e := d.source i),
      ← ha.lane_eq i (hr ▸ hi)]
    split_ifs with hOne
    · rw [show i = 0 by omega]
    · rfl

theorem lane_zero (ha : d.Takes mode ρ a r) (h : a.lanes = 1) : lane mode ρ r 0 = lane mode ρ a 0 := by
  have hr := ha.lane_eq 0 (by rw [ha.lanes_eq, if_pos h]; exact Nat.one_pos)
  rwa [if_pos h] at hr

theorem select (hL : d.Covers L) (hc : d.Takes mode ρ c t) (ha : d.Takes mode ρ a r)
    (hb : d.Takes mode ρ b s) (h : a.lanes = b.lanes) (hCond : c.lanes = 1 ∨ c.lanes = a.lanes)
    (hLanes : a.lanes = 1 ∨ a.lanes = L) :
    d.Takes mode ρ (.select c a b) (.select t r s) where
  type_eq := ha.type_eq
  lanes_eq := ha.lanes_eq
  lane_eq i hi := by
    have hCondition : lane mode ρ t (t.laneOf i) =
        lane mode ρ c (c.laneOf (if a.lanes = 1 then i else d.source i)) := by
      rcases hLanes with hOne | hVector
      · have hr : r.lanes = 1 := by rw [ha.lanes_eq, if_pos hOne]
        have hcOne : c.lanes = 1 := hCond.elim id fun hEq => hEq.trans hOne
        have ht : t.lanes = 1 := by rw [hc.lanes_eq, if_pos hcOne]
        rw [Expr.laneOf, Expr.laneOf, if_pos ht, if_pos hcOne, hc.lane_zero hcOne]
      · have hNe : a.lanes ≠ 1 := hVector ▸ hL.ne_one
        have hi' : i < d.new_lanes := by
          have hr := ha.lanes_eq
          rw [if_neg hNe] at hr
          exact hr ▸ hi
        rw [if_neg hNe, hc.lane_laneOf hL (hCond.imp_right fun hEq => hEq.trans hVector) hi']
    rw [lane, lane, hCondition, ha.lane_eq i hi, hb.lane_eq i (ha.lanes_congr hb h ▸ hi), ← h]
    rfl

/-- An operand of a vector, lane by lane. -/
theorem lane_vector (ha : d.Takes mode ρ a r) (h : a.lanes ≠ 1) {i : Nat} (hi : i < d.new_lanes) :
    lane mode ρ r i = lane mode ρ a (d.source i) := by
  have hr := ha.lanes_eq
  have hLane := ha.lane_eq i
  rw [if_neg h] at hr hLane
  exact hLane (hr ▸ hi)

theorem load (hL : d.Covers L) (T : IntType) (name : String) (ha : d.Takes mode ρ a r)
    (hb : d.Takes mode ρ b s) (hA : a.lanes = L) (hB : b.lanes = L) :
    d.Takes mode ρ (.load T L name a b) (.load T d.new_lanes name r s) := by
  refine takes_vector hL.ne_one rfl rfl fun i hi => ?_
  rw [lane, lane, below, below, if_pos hi, if_pos (hL.source_lt hi), ha.lane_vector (hA ▸ hL.ne_one) hi,
    hb.lane_vector (hB ▸ hL.ne_one) hi]

end Takes

/-- The lanes of a vector with lane count `n` are in a shuffle that picks them. -/
theorem exists_pick (hL : d.Covers L) {e : Expr} (he : e.lanes = L) :
    ∃ r, d.pick e = some r ∧ d.Takes mode ρ e r := by
  have hLength : ((List.range d.new_lanes).map d.source).length = d.new_lanes := by simp
  have hBound : ∀ k ∈ (List.range d.new_lanes).map d.source, k < e.lanes := by
    intro k hk
    obtain ⟨i, hi, rfl⟩ := List.mem_map.mp hk
    exact he ▸ hL.source_lt (List.mem_range.mp hi)
  refine ⟨_, Shuffle.make_singleton ?_ hBound, takes_vector (he ▸ hL.ne_one) rfl hLength fun i hi => ?_⟩
  · intro hNil
    rw [hNil, List.length_nil] at hLength
    exact hL.pos.ne hLength
  · rw [lane, List.getElem?_map, List.getElem?_range hi]
    exact (Shuffle.laneAt_singleton e _).trans (if_pos (he ▸ hL.source_lt hi))

theorem exact_visitVariable (hL : d.Covers L) (hBound : d.Bound ρ) {T : IntType} {n : Nat} {name : Name}
    (hn : n = 1 ∨ n = L) : d.Exact mode ρ (.var T n name) := by
  rw [Exact, mutate, visitVariable]
  split_ifs with hOne hLet
  · exact ⟨_, rfl, takes_self hOne⟩
  · obtain rfl := hn.resolve_left hOne
    cases hName : d.lanesName name with
    | none => exact exists_pick hL rfl
    | some other =>
      refine ⟨_, rfl, takes_vector hOne rfl rfl fun i hi => ?_⟩
      rw [lane, lane, below, below, if_pos hi, if_pos (hL.source_lt hi), hBound name other hLet hName i hi]
  · exact exists_pick hL (hn.resolve_left hOne)

theorem exact_broadcast (hL : d.Covers L) {a : Expr} (ha : a.lanes = 1) :
    d.Exact mode ρ (.broadcast a L) := by
  refine ⟨_, by rw [mutate], ?_⟩
  rw [visitBroadcast]
  split_ifs with hOne
  · refine takes_vector hL.ne_one rfl (ha.trans hOne.symm) fun i hi => ?_
    obtain rfl : i = 0 := by omega
    rw [lane, below, if_pos (hL.source_lt hi)]
  · refine takes_vector hL.ne_one rfl rfl fun i hi => ?_
    rw [lane, lane, below, below, if_pos hi, if_pos (hL.source_lt hi)]

/-! ### Ramps -/

/-- The start of a ramp, one step after the other. -/
theorem arith_start {m : Mode} (hm : m ≠ .checked) (T : IntType) (c x y : Int) :
    ((arith m T (c * y)).bind fun p => arith m T (x + p)) = arith m T (x + c * y) := by
  cases m with
  | wrapping =>
    exact congrArg some (IntType.wrap_eq_wrap ((Int.ModEq.refl x).add (T.wrap_modEq (c * y))))
  | checked => exact absurd rfl hm
  | exact => rfl

/-- A lane of a ramp with another start and stride. -/
theorem arith_lane {m : Mode} (hm : m ≠ .checked) (T : IntType) (c k x y : Int) (i : Nat) :
    ((arith m T (x + c * y)).bind fun p => (arith m T (y * k)).bind fun q => arith m T (p + i * q)) =
      arith m T (x + (c + k * i) * y) := by
  cases m with
  | wrapping =>
    refine congrArg some (IntType.wrap_eq_wrap ?_)
    have hSum := (T.wrap_modEq (x + c * y)).add ((Int.ModEq.refl (i : Int)).mul (T.wrap_modEq (y * k)))
    have hEq : x + c * y + i * (y * k) = x + (c + k * i) * y := by ring
    exact hEq ▸ hSum
  | checked => exact absurd rfl hm
  | exact =>
    refine congrArg some ?_
    ring

theorem lane_ramp_of_lt {a b : Expr} {n i : Nat} (hi : i < n) : lane mode ρ (.ramp a b n) i =
    (lane mode ρ a 0).bind fun x => (lane mode ρ b 0).bind fun y =>
      arith (mode a.type) a.type (x + i * y) := by
  rw [lane, below, if_pos hi]
  rfl

/-- The base of the ramp that is made, or its only lane. -/
def rampStart (d : Deinterleaver) (base stride : Expr) : Expr :=
  .bin .add base (.bin .mul (.imm stride.type d.starting_lane) stride)

theorem lane_rampStart {m : Mode} (hm : m ≠ .checked) {base stride : Expr} (hMode : mode base.type = m)
    (hType : stride.type = base.type) : lane mode ρ (rampStart d base stride) 0 =
      (lane mode ρ base 0).bind fun x => (lane mode ρ stride 0).bind fun y =>
        arith m base.type (x + d.starting_lane * y) := by
  subst hMode
  cases hx : lane mode ρ base 0 with
  | none =>
    rw [rampStart, lane, hx]
    rfl
  | some x =>
    cases hy : lane mode ρ stride 0 with
    | none =>
      rw [rampStart, lane, lane, lane, hx, hy]
      rfl
    | some y =>
      rw [rampStart, lane, lane, lane, hx, hy, Expr.type, hType]
      exact arith_start hm base.type d.starting_lane x y

theorem exact_visitRamp (hL : d.Covers L) (hMode : ∀ T, mode T ≠ .checked) {base stride : Expr}
    (hBase : base.lanes = 1) (hType : stride.type = base.type)
    (hKept : d.Kept mode ρ (.ramp base stride L)) : d.Exact mode ρ (.ramp base stride L) := by
  obtain ⟨hStart, hStep⟩ := hKept
  have hLeft : timesLeft d.starting_lane stride =
      some (.bin .mul (.imm stride.type d.starting_lane) stride) := if_pos (hType ▸ hStart)
  have hExpr := lane_rampStart (d := d) (ρ := ρ) (hMode base.type) rfl hType
  by_cases hMany : d.new_lanes > 1
  · have hRight : timesRight stride d.lane_stride =
        some (.bin .mul stride (.imm stride.type d.lane_stride)) := if_pos (hType ▸ hStep hMany)
    refine ⟨.ramp (rampStart d base stride) (.bin .mul stride (.imm stride.type d.lane_stride)) d.new_lanes,
      ?_, takes_vector hL.ne_one rfl rfl fun i hi => ?_⟩
    · rw [mutate, visitRamp, hLeft]
      simp only [Option.bind_eq_bind, Option.bind_some, if_pos hMany, hRight]
      rfl
    · rw [lane_ramp_of_lt hi, lane_ramp_of_lt (hL.source_lt hi), hExpr]
      cases hx : lane mode ρ base 0 with
      | none => rfl
      | some x =>
        cases hy : lane mode ρ stride 0 with
        | none => rfl
        | some y =>
          rw [lane, lane, hy, hType]
          have hLane := arith_lane (hMode base.type) base.type d.starting_lane d.lane_stride x y i
          rw [source, Nat.cast_add, Nat.cast_mul]
          exact hLane
  · have hOne : d.new_lanes = 1 := by
      have := hL.pos
      omega
    refine ⟨rampStart d base stride, ?_, takes_vector hL.ne_one rfl (hBase.trans hOne.symm) fun i hi => ?_⟩
    · rw [mutate, visitRamp, hLeft]
      simp only [Option.bind_eq_bind, Option.bind_some, if_neg hMany]
      rfl
    · obtain rfl : i = 0 := by omega
      rw [hExpr, lane_ramp_of_lt (hL.source_lt hi)]
      rfl

/-! ### Shuffles -/

/-- Every `d`th place from `s` on, counted in rows of `q * d`. -/
theorem source_mod_div {s k q i : Nat} (hs : s < k) (hq : 0 < q) :
    (s + k * i) % (q * k) = i % q * k + s ∧ (s + k * i) / (q * k) = i / q := by
  have hk : 0 < k := Nat.zero_lt_of_lt hs
  have hSplit : s + k * i = (i % q * k + s) + q * k * (i / q) := by
    conv_lhs => rw [← Nat.mod_add_div i q]
    ring
  have hLess : i % q * k + s < q * k := by
    calc i % q * k + s < (i % q + 1) * k := by rw [Nat.succ_mul]; omega
      _ ≤ q * k := Nat.mul_le_mul_right k (Nat.mod_lt i hq)
  rw [hSplit, Nat.add_mul_mod_self_left, Nat.mod_eq_of_lt hLess, Nat.add_mul_div_left _ _ (Nat.mul_pos hq hk),
    Nat.div_eq_of_lt hLess, Nat.zero_add]
  exact ⟨rfl, rfl⟩

/-- The vector and the lane in it that a lane to be taken from an interleaving comes from. -/
theorem lane_interleave (hL : d.Covers L) {T : IntType} {vectors : List Expr} {indices : List Nat}
    (hLanes : indices.length = L) (h : Shuffle.is_interleave vectors indices = true) {q : Nat} (hq : 0 < q)
    (hCount : vectors.length = q * d.lane_stride) {i : Nat} (hi : i < d.new_lanes) {a : Expr}
    (ha : vectors[i % q * d.lane_stride + d.starting_lane]? = some a) :
    lane mode ρ (.shuffle T vectors indices) (d.source i) = lane mode ρ a (i / q) := by
  obtain ⟨hMod, hDiv⟩ := source_mod_div (i := i) hL.start_lt hq
  rw [Shuffle.lane_of_is_interleave h (hLanes ▸ hL.source_lt hi) (a := a)]
  · rw [hCount, source, hDiv]
  · rw [hCount, source, hMod, ha]

theorem exact_interleave (hL : d.Covers L) {T : IntType} {vectors : List Expr} {indices : List Nat}
    (hType : ∀ a ∈ vectors, a.type = T) (hLanes : indices.length = L)
    (h : Shuffle.is_interleave vectors indices = true) : d.Exact mode ρ (.shuffle T vectors indices) := by
  obtain ⟨m, -, hSame, hCount, hPos⟩ := Shuffle.is_interleave_lanes h
  have hNe : (Expr.shuffle T vectors indices).lanes ≠ 1 := fun hOne => hL.ne_one (hLanes.symm.trans hOne)
  have hStride : 0 < d.lane_stride := Nat.zero_lt_of_lt hL.start_lt
  have hm : 0 < m := by
    refine Nat.pos_of_ne_zero fun hZero => ?_
    rw [hZero, Nat.zero_mul, hLanes] at hCount
    have := hL.vector
    omega
  rw [Exact, mutate, visitShuffle, if_pos h, if_pos hL.start_lt]
  by_cases hDvd : vectors.length % d.lane_stride = 0
  · obtain ⟨q, hq⟩ := Nat.dvd_of_mod_eq_zero hDvd
    rw [Nat.mul_comm] at hq
    have hqPos : 0 < q := Nat.pos_of_ne_zero fun hZero => by
      rw [hZero, Nat.zero_mul] at hq
      omega
    have hNew : m * q = d.new_lanes := by
      refine Nat.eq_of_mul_eq_mul_right hStride ?_
      rw [Nat.mul_assoc, ← hq, hCount, hLanes, ← hL.count, Nat.mul_comm]
    -- The vectors from the start on, one for each step of the stride.
    have hGet : ∀ i < q, ∃ a, vectors[i * d.lane_stride + d.starting_lane]? = some a := by
      intro i hi
      have hLess : i * d.lane_stride + d.starting_lane < vectors.length :=
        calc i * d.lane_stride + d.starting_lane < (i + 1) * d.lane_stride := by
              rw [Nat.succ_mul]
              have := hL.start_lt
              omega
          _ ≤ q * d.lane_stride := Nat.mul_le_mul_right _ hi
          _ = vectors.length := hq.symm
      exact ⟨_, List.getElem?_eq_getElem hLess⟩
    split_ifs with hOne
    · have hqOne : q = 1 := Nat.eq_of_mul_eq_mul_right hStride (by rw [← hq, hOne, Nat.one_mul])
      subst hqOne
      obtain ⟨a, ha⟩ := hGet 0 Nat.one_pos
      have hMem := List.mem_of_getElem? ha
      rw [Nat.zero_mul, Nat.zero_add] at ha
      refine ⟨a, ha, takes_vector hNe (hType a hMem) ?_ fun i hi => ?_⟩
      · rw [hSame a hMem, ← hNew, Nat.mul_one]
      · rw [lane_interleave hL hLanes h Nat.one_pos hq hi (a := a), Nat.div_one]
        rw [Nat.mod_one, Nat.zero_mul, Nat.zero_add, ha]
    · obtain ⟨news, hNews⟩ := Pointwise.exists_mapM (l := List.range q) fun i hi =>
        hGet i (List.mem_range.mp hi)
      obtain ⟨hLength, hAt⟩ := Pointwise.getElem?_of_mapM_range hNews
      have hFrom : ∀ a ∈ news, a ∈ vectors := by
        intro a ha
        obtain ⟨i, hi⟩ := List.mem_iff_getElem?.mp ha
        have hLess : i < q := hLength ▸ (List.getElem?_eq_some_iff.mp hi).1
        exact List.mem_of_getElem? ((hAt i hLess).symm.trans hi)
      obtain ⟨r, hMake, hrType, hrLanes, hrLane⟩ := Shuffle.exists_make_interleave mode
        (List.ne_nil_of_length_pos (hLength ▸ hqPos)) (fun a ha => hType a (hFrom a ha))
        (fun a ha => hSame a (hFrom a ha)) hm
      have hDiv : vectors.length / d.lane_stride = q := by rw [hq, Nat.mul_div_cancel _ hStride]
      rw [hLength] at hrLanes hrLane
      refine ⟨r, ?_, takes_vector hNe hrType (hrLanes.trans hNew) fun i hi => ?_⟩
      · rw [hDiv, hNews]
        exact hMake
      · obtain ⟨a, ha⟩ := hGet (i % q) (Nat.mod_lt i hqPos)
        rw [hrLane ρ i a (hNew ▸ hi) ((hAt _ (Nat.mod_lt i hqPos)).trans ha),
          lane_interleave hL hLanes h hqPos hq hi ha]
  · have hOne : vectors.length ≠ d.lane_stride := fun hEq => hDvd (by rw [hEq, Nat.mod_self])
    rw [if_neg hOne, if_neg hDvd]
    exact exists_pick hL hLanes

/-- The result for a shuffle that is no interleaving picks its own lanes by its indices. -/
theorem visitShuffle_eq_some {T : IntType} {vectors : List Expr} {indices : List Nat} {r : Expr}
    (h : Shuffle.is_interleave vectors indices = false) :
    d.visitShuffle T vectors indices = some r ↔ ∃ ks : List Nat, ks.length = d.new_lanes ∧
      (∀ i < d.new_lanes, indices[d.source i]? = ks[i]?) ∧ ks ≠ [] ∧ (∀ k ∈ ks, k < indices.length) ∧
        r = .shuffle T [.shuffle T vectors indices] ks := by
  have hInput : inputLanes [Expr.shuffle T vectors indices] = indices.length := by simp [inputLanes]
  rw [visitShuffle, if_neg (by rw [h]; exact Bool.false_ne_true), Option.bind_eq_bind,
    Option.bind_eq_some_iff]
  constructor
  · rintro ⟨ks, hks, hMake⟩
    obtain ⟨hLength, hAt⟩ := Pointwise.getElem?_of_mapM_range hks
    obtain ⟨front, rest, hEq, hNe, -, hBound, rfl⟩ := Shuffle.make_eq_some.mp hMake
    cases hEq
    exact ⟨ks, hLength, fun i hi => (hAt i hi).symm, hNe, hInput ▸ hBound, rfl⟩
  · rintro ⟨ks, hLength, hAt, hNe, hBound, rfl⟩
    obtain ⟨ks', hks'⟩ := Pointwise.exists_mapM (l := List.range d.new_lanes)
      (f := fun i => indices[d.source i]?) fun i hi => by
        rw [List.mem_range] at hi
        rw [hAt i hi, List.getElem?_eq_getElem (hLength ▸ hi)]
        exact ⟨_, rfl⟩
    obtain ⟨hLength', hAt'⟩ := Pointwise.getElem?_of_mapM_range hks'
    obtain rfl : ks = ks' := by
      refine List.ext_getElem? fun i => ?_
      by_cases hi : i < d.new_lanes
      · rw [← hAt i hi, hAt' i hi]
      · rw [List.getElem?_eq_none (by omega), List.getElem?_eq_none (by omega)]
    exact ⟨ks, hks', Shuffle.make_singleton hNe hBound⟩

/-- A lane of a shuffle of one vector. -/
theorem lane_shuffle_singleton {T : IntType} {e : Expr} {ks : List Nat} {i k : Nat} (hk : ks[i]? = some k)
    (hLess : k < e.lanes) : lane mode ρ (.shuffle T [e] ks) i = lane mode ρ e k := by
  rw [lane, hk]
  exact (Shuffle.laneAt_singleton e k).trans (if_pos hLess)

/-- Where a shuffle that is no interleaving is exact, its indices are kept. -/
theorem kept_of_exact_shuffle (hStride : 0 < d.lane_stride) {T : IntType} {vectors : List Expr}
    {indices : List Nat} (h : Shuffle.is_interleave vectors indices = false) :
    d.Exact mode ρ (.shuffle T vectors indices) → d.Kept mode ρ (.shuffle T vectors indices) := by
  rw [Exact, mutate, Kept, h]
  simp only [Bool.false_eq_true, false_or]
  rintro ⟨r, hr, hTakes⟩
  obtain ⟨ks, hLength, hAt, -, hBound, rfl⟩ := (visitShuffle_eq_some h).mp hr
  intro i hi
  have hk := List.getElem?_eq_getElem (l := ks) (hLength ▸ hi)
  refine ⟨_, (hAt i hi).trans hk, hBound _ (List.mem_of_getElem? hk), ?_⟩
  rw [← lane_shuffle_singleton (T := T) (e := .shuffle T vectors indices) hk
      (hBound _ (List.mem_of_getElem? hk)),
    hTakes.lane_eq i (hi.trans_eq hLength.symm)]
  split_ifs with hOne
  · -- A scalar has one lane, so nothing but lane 0 is asked for.
    change indices.length = 1 at hOne
    have hSource := (List.getElem?_eq_some_iff.mp ((hAt i hi).trans hk)).1
    rw [hOne, source] at hSource
    have hi' : i = 0 := by
      rcases Nat.eq_zero_or_pos i with hZero | hPos
      · exact hZero
      · have := Nat.mul_pos hStride hPos
        omega
    rw [source, hi']
    congr 1
    omega
  · rfl

theorem exact_shuffle_of_kept (hL : d.Covers L) {T : IntType} {vectors : List Expr} {indices : List Nat}
    (hLanes : indices.length = 1 ∨ indices.length = L)
    (h : Shuffle.is_interleave vectors indices = false) :
    d.Kept mode ρ (.shuffle T vectors indices) → d.Exact mode ρ (.shuffle T vectors indices) := by
  have hStride : 0 < d.lane_stride := Nat.zero_lt_of_lt hL.start_lt
  rw [Exact, mutate, Kept, h]
  simp only [Bool.false_eq_true, false_or]
  intro hKept
  obtain ⟨ks, hks⟩ := Pointwise.exists_mapM (l := List.range d.new_lanes)
    (f := fun i => indices[d.source i]?) fun i hi => (hKept i (List.mem_range.mp hi)).imp fun _ hk => hk.1
  obtain ⟨hLength, hAt⟩ := Pointwise.getElem?_of_mapM_range hks
  have hPick : ∀ i < d.new_lanes, ∃ k, ks[i]? = some k ∧ k < indices.length ∧
      lane mode ρ (.shuffle T [.shuffle T vectors indices] ks) i =
        lane mode ρ (.shuffle T vectors indices) (d.source i) := by
    intro i hi
    obtain ⟨k, hk, hLess, hEq⟩ := hKept i hi
    have hki := (hAt i hi).trans hk
    exact ⟨k, hki, hLess,
      (lane_shuffle_singleton (e := .shuffle T vectors indices) hki hLess).trans hEq⟩
  refine ⟨_, (visitShuffle_eq_some h).mpr ⟨ks, hLength, fun i hi => (hAt i hi).symm,
    List.ne_nil_of_length_pos (hLength ▸ hL.pos), fun k hk => ?_, rfl⟩, ?_⟩
  · obtain ⟨i, hi⟩ := List.mem_iff_getElem?.mp hk
    obtain ⟨k', hk', hLess, -⟩ := hPick i (hLength ▸ (List.getElem?_eq_some_iff.mp hi).1)
    exact Option.some.inj (hi.symm.trans hk') ▸ hLess
  · rcases hLanes with hOne | hVector
    · have hZero : ∀ i < d.new_lanes, d.source i = 0 := fun i hi => by
        obtain ⟨k, hk, -⟩ := hKept i hi
        have := (List.getElem?_eq_some_iff.mp hk).1
        omega
      have hCount : d.new_lanes = 1 := by
        have hPos := hL.pos
        by_contra hNe
        have hSecond := hZero 1 (by omega)
        rw [source, Nat.mul_one] at hSecond
        omega
      refine takes_scalar hOne rfl (hLength.trans hCount) ?_
      obtain ⟨-, -, -, hEq⟩ := hPick 0 hL.pos
      rw [hEq, hZero 0 hL.pos]
    · refine takes_vector (fun hOne => hL.ne_one (hVector.symm.trans hOne)) rfl hLength fun i hi => ?_
      exact (hPick i hi).choose_spec.2.2

/-! ### All parts -/

theorem exact_of_eq_some {e r : Expr} (h : d.mutate e = some r) (hTakes : d.Takes mode ρ e r) :
    d.Exact mode ρ e := ⟨r, h, hTakes⟩

/-- An argument list, argument by argument. -/
def ExactAll (d : Deinterleaver) (mode : IntType → Mode) (ρ : Env) (args : List Expr) : Prop :=
  ∃ rs, d.mutateAll args = some rs ∧ List.Forall₂ (d.Takes mode ρ) args rs

theorem laneArgs_takes (hL : d.Covers L) {i : Nat} (hi : i < d.new_lanes) {args rs : List Expr}
    (h : List.Forall₂ (d.Takes mode ρ) args rs) (hLanes : ∀ a ∈ args, a.lanes = 1 ∨ a.lanes = L) :
    laneArgs mode ρ rs i = laneArgs mode ρ args (d.source i) := by
  induction h with
  | nil => rw [laneArgs, laneArgs]
  | cons hHead _ ih =>
    rw [List.forall_mem_cons] at hLanes
    rw [laneArgs, laneArgs, hHead.lane_laneOf hL hLanes.1 hi, ih hLanes.2]

theorem evalCall_lane {m : Mode} {T : IntType} {vs : List Int} {callee : Callee} (i k : Nat)
    (h : callee ≠ .glsl_texture_load) : evalCall m T ρ vs i callee = evalCall m T ρ vs k callee := by
  cases callee with
  | glsl_texture_load => exact absurd rfl h
  | likely | likely_if_innermost | return_second | require | fn _ => rfl

mutual

/-- Where every part is kept, every part is exact. -/
theorem exact_of_kept (hL : d.Covers L) (hMode : ∀ T, mode T ≠ .checked) (hBound : d.Bound ρ) :
    ∀ (e : Expr), WellFormed Γ e → e.LetFree → e.lanes = 1 ∨ e.lanes = L →
      Visited (d.Kept mode ρ) e → Visited (d.Exact mode ρ) e
  | .imm _ _, _, _, _, _ => exact_of_eq_some (by rw [mutate]) (takes_self rfl)
  | .stringImm _, _, _, _, _ => exact_of_eq_some (by rw [mutate]) (takes_self rfl)
  | .var _ _ _, _, _, hLanes, _ => exact_visitVariable hL hBound hLanes
  | .cast T a, he, hFree, hLanes, hKept => by
    rw [Visited] at hKept ⊢
    by_cases hOne : a.lanes = 1
    · exact ⟨exact_of_eq_some (by rw [mutate, if_pos hOne]) (takes_self hOne), fun h => absurd hOne h⟩
    · have ha := exact_of_kept hL hMode hBound a he hFree hLanes (hKept.2 hOne)
      obtain ⟨r, hr, hTakes⟩ := visited_self ha
      exact ⟨exact_of_eq_some (by rw [mutate, if_neg hOne, hr]; rfl) (hTakes.cast T), fun _ => ha⟩
  | .bin op a b, he, hFree, hLanes, hKept => by
    rw [Visited] at hKept ⊢
    have ha := exact_of_kept hL hMode hBound a he.1 hFree.1 hLanes hKept.2.1
    have hb := exact_of_kept hL hMode hBound b he.2.1 hFree.2 (he.2.2.2.1 ▸ hLanes) hKept.2.2
    obtain ⟨r, hr, hTakesA⟩ := visited_self ha
    obtain ⟨s, hs, hTakesB⟩ := visited_self hb
    exact ⟨exact_of_eq_some (by rw [mutate, hr, hs]; rfl) (hTakesA.bin op hTakesB he.2.2.2.1), ha, hb⟩
  | .cmp op a b, he, hFree, hLanes, hKept => by
    rw [Visited] at hKept ⊢
    have ha := exact_of_kept hL hMode hBound a he.1 hFree.1 hLanes hKept.2.1
    have hb := exact_of_kept hL hMode hBound b he.2.1 hFree.2 (he.2.2.2 ▸ hLanes) hKept.2.2
    obtain ⟨r, hr, hTakesA⟩ := visited_self ha
    obtain ⟨s, hs, hTakesB⟩ := visited_self hb
    exact ⟨exact_of_eq_some (by rw [mutate, hr, hs]; rfl) (hTakesA.cmp op hTakesB he.2.2.2), ha, hb⟩
  | .not a, he, hFree, hLanes, hKept => by
    rw [Visited] at hKept ⊢
    have ha := exact_of_kept hL hMode hBound a he.1 hFree hLanes hKept.2
    obtain ⟨r, hr, hTakes⟩ := visited_self ha
    exact ⟨exact_of_eq_some (by rw [mutate, hr]; rfl) hTakes.not, ha⟩
  | .select c a b, he, hFree, hLanes, hKept => by
    obtain ⟨hWellC, hWellA, hWellB, -, -, hSame, hCond⟩ := he
    rw [Visited] at hKept ⊢
    have hCondLanes : c.lanes = 1 ∨ c.lanes = L := by
      rcases hCond with hOne | hEq
      · exact .inl hOne
      · exact hEq ▸ hLanes
    have hc := exact_of_kept hL hMode hBound c hWellC hFree.1 hCondLanes hKept.2.1
    have ha := exact_of_kept hL hMode hBound a hWellA hFree.2.1 hLanes hKept.2.2.1
    have hb := exact_of_kept hL hMode hBound b hWellB hFree.2.2 (hSame ▸ hLanes) hKept.2.2.2
    obtain ⟨t, ht, hTakesC⟩ := visited_self hc
    obtain ⟨r, hr, hTakesA⟩ := visited_self ha
    obtain ⟨s, hs, hTakesB⟩ := visited_self hb
    exact ⟨exact_of_eq_some (by rw [mutate, ht, hr, hs]; rfl)
      (Takes.select hL hTakesC hTakesA hTakesB hSame hCond hLanes), hc, ha, hb⟩
  | .load T n name index predicate, he, hFree, hLanes, hKept => by
    obtain ⟨hWellA, hWellB, hA, hB⟩ := he
    rw [Visited] at hKept ⊢
    by_cases hOne : n = 1
    · exact ⟨exact_of_eq_some (by rw [mutate, if_pos hOne]) (takes_self hOne), fun h => absurd hOne h⟩
    · obtain rfl : L = n := (hLanes.resolve_left hOne).symm
      obtain ⟨hKeptA, hKeptB⟩ := hKept.2 hOne
      have ha := exact_of_kept hL hMode hBound index hWellA hFree.1 (.inr hA) hKeptA
      have hb := exact_of_kept hL hMode hBound predicate hWellB hFree.2 (.inr hB) hKeptB
      obtain ⟨r, hr, hTakesA⟩ := visited_self ha
      obtain ⟨s, hs, hTakesB⟩ := visited_self hb
      exact ⟨exact_of_eq_some (by rw [mutate, if_neg hOne, hr, hs]; rfl)
        (Takes.load hL T name hTakesA hTakesB hA hB), fun _ => ⟨ha, hb⟩⟩
  | .ramp base stride n, he, _, hLanes, hKept => by
    obtain ⟨-, -, hBase, -, hn, hType⟩ := he
    obtain rfl : L = n := (hLanes.resolve_left hn.ne').symm
    exact exact_visitRamp hL hMode hBase hType hKept
  | .broadcast a n, he, _, hLanes, _ => by
    obtain rfl : L = n := (hLanes.resolve_left he.2.2.ne').symm
    exact exact_broadcast hL he.2.1
  | .call T n callee args, he, hFree, hLanes, hKept => by
    obtain ⟨hWell, hArgLanes, -⟩ := he
    rw [Visited] at hKept ⊢
    by_cases hOne : n = 1
    · exact ⟨exact_of_eq_some (by rw [mutate, if_pos hOne]) (takes_self hOne), fun h => absurd hOne h⟩
    · obtain rfl : L = n := (hLanes.resolve_left hOne).symm
      by_cases hTexture : callee = .glsl_texture_load
      · refine ⟨?_, fun _ h => absurd hTexture h⟩
        rw [Exact, mutate, if_neg hOne, if_pos hTexture]
        exact exists_pick hL rfl
      · have hVisited := exactAll_of_kept hL hMode hBound args hWell hFree hArgLanes (hKept.2 hOne hTexture)
        obtain ⟨rs, hrs, hTakes⟩ := hVisited.2
        refine ⟨⟨.call T d.new_lanes callee rs, ?_, takes_vector hOne rfl rfl fun i hi => ?_⟩,
          fun _ _ => hVisited.1⟩
        · rw [mutate, if_neg hOne, if_neg hTexture, hrs]
          rfl
        · rw [lane, lane, below, below, if_pos hi, if_pos (hL.source_lt hi), laneArgs_takes hL hi hTakes hArgLanes]
          exact congrArg _ (funext fun vs => evalCall_lane i _ hTexture)
  | .shuffle T vectors indices, he, _, hLanes, hKept => by
    obtain ⟨-, hType, -⟩ := he
    cases h : Shuffle.is_interleave vectors indices with
    | true =>
      obtain ⟨m, hm, -, hCount, -⟩ := Shuffle.is_interleave_lanes h
      have hVector : indices.length = L := hLanes.resolve_left fun hOne => by
        change indices.length = 1 at hOne
        rw [hOne] at hCount
        exact hm (Nat.eq_one_of_mul_eq_one_right hCount)
      exact exact_interleave hL hType hVector h
    | false => exact exact_shuffle_of_kept hL hLanes h hKept

theorem exactAll_of_kept (hL : d.Covers L) (hMode : ∀ T, mode T ≠ .checked) (hBound : d.Bound ρ) :
    ∀ (args : List Expr), WellFormedAll Γ args → Expr.LetFreeAll args →
      (∀ a ∈ args, a.lanes = 1 ∨ a.lanes = L) → VisitedAll (d.Kept mode ρ) args →
      VisitedAll (d.Exact mode ρ) args ∧ d.ExactAll mode ρ args
  | [], _, _, _, _ => ⟨trivial, [], by rw [mutateAll], List.Forall₂.nil⟩
  | a :: args, he, hFree, hLanes, hKept => by
    rw [List.forall_mem_cons] at hLanes
    have ha := exact_of_kept hL hMode hBound a he.1 hFree.1 hLanes.1 hKept.1
    obtain ⟨hArgs, rs, hrs, hTakes⟩ := exactAll_of_kept hL hMode hBound args he.2 hFree.2 hLanes.2 hKept.2
    obtain ⟨r, hr, hTakesA⟩ := visited_self ha
    exact ⟨⟨ha, hArgs⟩, r :: rs, by rw [mutateAll, hr, hrs]; rfl, List.Forall₂.cons hTakesA hTakes⟩

end

/-- What the mutator does right it does under the condition. -/
theorem kept_of_exact (hStride : 0 < d.lane_stride) {e : Expr} (h : d.Exact mode ρ e)
    (hWell : ∀ base stride n, e = .ramp base stride n → stride.type = base.type) : d.Kept mode ρ e := by
  cases e with
  | ramp base stride n =>
    obtain ⟨r, hr, -⟩ := h
    rw [mutate, visitRamp, Option.bind_eq_bind, Option.bind_eq_some_iff] at hr
    obtain ⟨start, hStart, hr⟩ := hr
    have hType := hWell base stride n rfl
    rw [timesLeft, Option.ite_none_right_eq_some, hType] at hStart
    refine ⟨hStart.1, fun hMany => ?_⟩
    rw [if_pos hMany, Option.bind_eq_some_iff] at hr
    obtain ⟨step, hStep, -⟩ := hr
    rw [timesRight, Option.ite_none_right_eq_some, hType] at hStep
    exact hStep.1
  | shuffle T vectors indices =>
    cases hInterleave : Shuffle.is_interleave vectors indices with
    | true => exact .inl hInterleave
    | false => exact kept_of_exact_shuffle hStride hInterleave h
  | imm | stringImm | var | cast | bin | cmp | not | select | load | broadcast | call | letIn => trivial

end Deinterleaver

end Vyasa.Lanes

/-! The lanes of the results of the extract functions. -/
namespace Vyasa.Lanes

open Word IRMatch Deinterleaver

section Visited

variable {Γ : Context} {P Q : Expr → Prop}

mutual

theorem visited_imp (h : ∀ e, WellFormed Γ e → P e → Q e) : ∀ {e : Expr}, WellFormed Γ e → e.LetFree →
    Visited P e → Visited Q e
  | .imm .., he, _, hP | .stringImm .., he, _, hP | .var .., he, _, hP | .ramp .., he, _, hP
  | .broadcast .., he, _, hP | .shuffle .., he, _, hP => h _ he hP
  | .cast _ a, he, hFree, hP => ⟨h _ he hP.1, fun hNe => visited_imp h (e := a) he hFree (hP.2 hNe)⟩
  | .bin .., he, hFree, hP =>
    ⟨h _ he hP.1, visited_imp h he.1 hFree.1 hP.2.1, visited_imp h he.2.1 hFree.2 hP.2.2⟩
  | .cmp .., he, hFree, hP =>
    ⟨h _ he hP.1, visited_imp h he.1 hFree.1 hP.2.1, visited_imp h he.2.1 hFree.2 hP.2.2⟩
  | .not .., he, hFree, hP => ⟨h _ he hP.1, visited_imp h he.1 hFree hP.2⟩
  | .select .., he, hFree, hP => ⟨h _ he hP.1, visited_imp h he.1 hFree.1 hP.2.1,
      visited_imp h he.2.1 hFree.2.1 hP.2.2.1, visited_imp h he.2.2.1 hFree.2.2 hP.2.2.2⟩
  | .load .., he, hFree, hP => ⟨h _ he hP.1, fun hNe =>
      ⟨visited_imp h he.1 hFree.1 (hP.2 hNe).1, visited_imp h he.2.1 hFree.2 (hP.2 hNe).2⟩⟩
  | .call .., he, hFree, hP =>
    ⟨h _ he hP.1, fun hNe hTexture => visitedAll_imp h he.1 hFree (hP.2 hNe hTexture)⟩

theorem visitedAll_imp (h : ∀ e, WellFormed Γ e → P e → Q e) : ∀ {args : List Expr},
    WellFormedAll Γ args → Expr.LetFreeAll args → VisitedAll P args → VisitedAll Q args
  | [], _, _, _ => trivial
  | _ :: _, he, hFree, hP =>
    ⟨visited_imp h he.1 hFree.1 hP.1, visitedAll_imp h he.2 hFree.2 hP.2⟩

end

end Visited

variable {mode : IntType → Mode} {ρ : Env} {Γ : Context} {common_subexpression_elimination simplify : Expr → Expr}

/-- The condition is exact for all the parts of an expression that are gone into. -/
theorem visited_exact_iff {d : Deinterleaver} {e : Expr} (hL : d.Covers e.lanes)
    (hMode : ∀ T, mode T ≠ .checked) (hBound : d.Bound ρ) (he : WellFormed Γ e) (hFree : e.LetFree) :
    Visited (d.Exact mode ρ) e ↔ Visited (d.Kept mode ρ) e := by
  constructor
  · refine visited_imp (fun a ha hExact => kept_of_exact (Nat.zero_lt_of_lt hL.start_lt) hExact ?_) he hFree
    rintro base stride n rfl
    exact ha.2.2.2.2.2
  · exact exact_of_kept hL hMode hBound e he hFree (.inr rfl)

/-- A pass keeps the lane count and every value. -/
def KeepsLanes (mode : IntType → Mode) (f : Expr → Expr) : Prop :=
  ∀ e, (f e).lanes = e.lanes ∧ ∀ ρ i v, lane mode ρ e i = some v → lane mode ρ (f e) i = some v

namespace Extraction

/-- What the extract functions ask for covers the vector. -/
theorem covers {x : Extraction} {lanes : Nat} (lets : Name → Bool) (hVector : 1 < lanes)
    (hFits : x.Fits lanes) : (x.deinterleaver lanes lets).Covers lanes := by
  refine ⟨hVector, ?_, ?_⟩ <;> cases x <;>
    simp only [deinterleaver, starting_lane, lane_stride, new_lanes, Fits] at hFits ⊢ <;> omega

theorem extract_eq {x : Extraction} {e : Expr} {lets : Name → Bool} (hFits : x.Fits e.lanes) :
    x.extract common_subexpression_elimination simplify e lets =
      deinterleave common_subexpression_elimination simplify e x.starting_lane (x.lane_stride e.lanes)
        (x.new_lanes e.lanes) (x.lets lets) := by
  cases x with
  | odd_lanes | even_lanes => exact if_pos hFits
  | mod3_lanes => exact if_pos hFits.1
  | lane => rfl

end Extraction

theorem keepsLanes_id (mode : IntType → Mode) : KeepsLanes mode id := fun _ => ⟨rfl, fun _ _ _ h => h⟩

/-- Four numbers in a row, whose lanes a shuffle can reorder. -/
private abbrev row : Expr := .ramp (.imm .int32 10) (.imm .int32 1) 4

private abbrev noValues : Env :=
  ⟨fun _ _ => none, fun _ _ => none, fun _ => 0, fun _ _ => none, fun _ _ => none⟩

/-- The odd lanes of an interleaving of two such rows are the second row, which counts from 20. -/
private abbrev interleaved : Expr :=
  .shuffle .int32 [row, .ramp (.imm .int32 20) (.imm .int32 1) 4] [0, 4, 1, 5, 2, 6, 3, 7]

/-- A shuffle that reverses a row. -/
private abbrev reversed : Expr := .shuffle .int32 [row] [3, 2, 1, 0]

end Vyasa.Lanes
