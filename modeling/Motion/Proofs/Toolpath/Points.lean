/-
# Arcs that are points

An arc command without an offset asks for a circle without a radius, about where the tool is.  Its
angles say nothing: they are the directions from the centre to the start, a difference of zeros, and
to a target that may be anywhere.  This module says that such an arc does no harm.

* **It is a point** (`Arc.isPoint_resolve`).  The centre is where the tool is, up to the signs of
  zeros, and the radius is zero.  The angles are arbitrary, but they are angles: start angle and
  sweep are small, so everything that is computed from them is finite.
* **It is drawn and measured as a point.**  Zero times a finite number is a zero, of one sign or the
  other, and a zero added to a coordinate leaves it alone.  So all vertices are where the tool is
  (`Arc.IsPoint.coincides_vertex`), and the length is zero.
* **It changes no length and no box.**  A summary has one arc more and one degenerate arc more, and
  the cut is as long as without it (`Summary.PointMore`).  The corners of its circle are where the
  tool is, so the box is the one around a move to there (`Toolpath.bounds?_coincides`).

A coordinate that is zero may come out with the other sign, and a cut may be so long that its length
is no number any more.  Equal positions are equal as numbers here (`Point.Coincides`), and equal
lengths are equal as numbers or the same double (`Double.SameNumber`).
-/
import Motion.Proofs.Number.Whole
import Motion.Proofs.Program.Modal
import Motion.Proofs.Program.WordByWord
import Motion.Proofs.Toolpath.Coincident
import Motion.Proofs.Toolpath.Overflow
import Motion.Proofs.Toolpath.Travel

namespace Motion

open Double (value)

/-! ## 1. Zeros -/

namespace Double

variable {a b : Float}

/-- Double precision with other functions for directions, sines and cosines. -/
@[reducible] def withPolar (angle : Float → Float → Float) (sine cosine : Float → Float) :
    Scalar Float :=
  { withAtan2 angle with sin := sine, cos := cosine }

/-- The arithmetic that programs run in is the one with the functions of the platform. -/
theorem withPolar_atan2_sin_cos :
    withPolar Float.atan2 Float.sin Float.cos = instScalarFloat := rfl

theorem value_of_beq_zero (h : a == 0) : value a = 0 := by
  rcases List.mem_pair.mp (beq_zero_iff.mp h) with rfl | rfl <;> rfl

theorem isFinite_of_beq_zero (h : a == 0) : a.isFinite := isFinite_of_beq h isFinite_zero

/-- A zero added to a number leaves it alone. -/
theorem add_zero_beq (ha : a.isNaN = false) (hb : b == 0) : a + b == a := by
  have hfinite := isFinite_of_beq_zero hb
  obtain ⟨hnan, hvalue⟩ := value_add ha (isNaN_of_isFinite hfinite) (Or.inr hfinite)
  rw [beq_iff_value hnan ha, hvalue, value_of_beq_zero hb, add_zero, round_value ha]

theorem sub_zero_beq (ha : a.isNaN = false) (hb : b == 0) : a - b == a := by
  have hfinite := isFinite_of_beq_zero hb
  obtain ⟨hnan, hvalue⟩ := value_sub ha (isNaN_of_isFinite hfinite) (Or.inr hfinite)
  rw [beq_iff_value hnan ha, hvalue, value_of_beq_zero hb, sub_zero, round_value ha]

theorem sub_beq_zero (hb : b.isFinite) (h : a == b) : a - b == 0 :=
  BEq.trans (sub_beq_sub (isFinite_of_beq h hb) hb (isNaN_of_isFinite hb) h)
    (sub_self_beq_zero hb)

theorem zero_mul_beq_zero (hb : b.isFinite) : 0 * b == 0 := by
  have hzero : value 0 = 0 := value_of_beq_zero rfl
  obtain ⟨hnan, hvalue⟩ : (0 * b).isNaN = false ∧ value (0 * b) = round (value 0 * value b) :=
    value_mul isFinite_zero hb
  rw [beq_iff_value hnan rfl, hvalue, hzero, zero_mul, (rounding_double Float.atan2).round_zero]

/-- Zero times a length is the zero without a sign. -/
theorem zero_mul_abs (ha : a.isFinite) : 0 * a.abs = 0 := by
  have hmul : 0 * a.abs = .ofModel (.pack (.mul .binary64 (.zero .positive) (unpacked a).abs)) := by
    rw [← unpacked_abs]
    rfl
  change (unpacked a).isFinite = true at ha
  rw [hmul]
  cases hu : unpacked a with
  | infinity =>
    rw [hu] at ha
    cases ha
  | notANumber =>
    rw [hu] at ha
    cases ha
  | zero => rfl
  | finite => rfl

theorem beq_self (ha : a.isFinite) : a == a :=
  (beq_iff_value (isNaN_of_isFinite ha) (isNaN_of_isFinite ha)).mpr rfl

theorem hypot_of_zeros :
    ∀ a ∈ [(0 : Float), -0], ∀ b ∈ [(0 : Float), -0], hypot a b = 0 := by
  decide +kernel

/-- Sine and cosine are finite. -/
theorem isFinite_of_circle {sine cosine : Float → Float}
    (hcircle : @Scalar.Circle Float (withCircle sine cosine) value) {θ : Float}
    (hθ : θ.isFinite) : (sine θ).isFinite ∧ (cosine θ).isFinite := by
  have hfinite {v : Float} (hv : -1 ≤ value v ∧ value v ≤ 1) : v.isFinite := by
    obtain ⟨z, hz, -⟩ := exists_real_of_between (x := -1) (y := 1) (by simpa using hv.1) hv.2
    exact isFinite_of_value hz
  exact ⟨hfinite (@Scalar.Circle.sin Float (withCircle sine cosine) value hcircle θ hθ).2,
    hfinite (@Scalar.Circle.cos Float (withCircle sine cosine) value hcircle θ hθ).2⟩

/-- The doubles are equal as numbers, or they are the same, if only that both are none. -/
def SameNumber (a b : Float) : Prop := a = b ∨ a == b

/-- Equal numbers stay equal, whatever is added to both. -/
theorem SameNumber.add (h : SameNumber a b) (c : Float) : SameNumber (a + c) (b + c) := by
  rcases h with rfl | h
  · exact Or.inl rfl
  rcases eq_or_zeros_of_beq h with rfl | ⟨ha, hb⟩
  · exact Or.inl rfl
  cases hc : c.isNaN with
  | true =>
    -- what is added is no number, so no sum is one
    have hnan : ∀ z ∈ [(0 : Float), -0], z + Float.nan = Float.nan := by decide +kernel
    rw [Float.isNaN_eq_decide_eq_nan, decide_eq_true_iff] at hc
    rw [hc, hnan a ha, hnan b hb]
    exact Or.inl rfl
  | false =>
    have hzero := beq_zero_iff.mpr ha
    have hzero' := beq_zero_iff.mpr hb
    have hfinite := isFinite_of_beq_zero hzero
    have hfinite' := isFinite_of_beq_zero hzero'
    obtain ⟨hn, hvalue⟩ := value_add (isNaN_of_isFinite hfinite) hc (Or.inl hfinite)
    obtain ⟨hn', hvalue'⟩ := value_add (isNaN_of_isFinite hfinite') hc (Or.inl hfinite')
    refine Or.inr ((beq_iff_value hn hn').mpr ?_)
    rw [hvalue, hvalue', value_of_beq_zero hzero, value_of_beq_zero hzero']

/-- Zero adds nothing. -/
theorem sameNumber_add_zero (a : Float) : SameNumber (a + 0) a := by
  cases ha : a.isNaN with
  | false => exact Or.inr (add_zero_beq ha rfl)
  | true =>
    have hnan : Float.nan + 0 = Float.nan := by decide +kernel
    rw [Float.isNaN_eq_decide_eq_nan, decide_eq_true_iff] at ha
    rw [ha, hnan]
    exact Or.inl rfl

end Double

/-! ## 2. An arc that is a point -/

/-- The positions have equal coordinates, up to the signs of zeros. -/
def Point.Coincides (p q : Point Float) : Prop := p.x == q.x ∧ p.y == q.y ∧ p.z == q.z

instance (p q : Point Float) : Decidable (p.Coincides q) :=
  inferInstanceAs (Decidable (_ ∧ _ ∧ _))

/-- The circle of the arc is the foot of the position, and the arc is at its height; start angle and
sweep are in the range of angles. -/
structure Arc.IsPoint (a : Arc Float) (p : Point Float) : Prop where
  centerX : a.center.x == p.x
  centerY : a.center.y == p.y
  radius : a.radius = 0
  z : a.z == p.z
  startAngle : Double.Between a.startAngle (-2 ^ (4 : ℤ)) (2 ^ (4 : ℤ))
  sweep : Double.Between a.sweep (-2 ^ (5 : ℤ)) (2 ^ (5 : ℤ))

namespace Arc

variable {angle : Float → Float → Float} {sine cosine : Float → Float} {a : Arc Float}
  {p : Point Float}

/-- **The arc of a command without an offset is a point.** -/
theorem isPoint_resolve
    (hangle : @Scalar.Angles Float (Double.withAtan2 angle) value Double.pi) (hp : p.IsFinite)
    {c : Command Float} (hc : c.IsFinite) (hi : c.offset.x == 0) (hj : c.offset.y == 0)
    (clockwise : Bool) :
    (@resolve Float (Double.withPolar angle sine cosine) p c clockwise).IsPoint p := by
  have hpi : Double.pi ≤ 2 ^ (4 : ℤ) := by
    unfold Double.pi
    norm_num
  have hcx : p.x + c.offset.x == p.x := Double.add_zero_beq (Double.isNaN_of_isFinite hp.x) hi
  have hcy : p.y + c.offset.y == p.y := Double.add_zero_beq (Double.isNaN_of_isFinite hp.y) hj
  have hcxf := isFinite_of_beq hcx hp.x
  have hcyf := isFinite_of_beq hcy hp.y
  -- the target is anywhere, but the direction to it is an angle
  have hangles : ∀ q : PlanePoint Float, q.x.isFinite → q.y.isFinite →
      ∃ θ : ℝ, value (@direction Float (Double.withAtan2 angle)
        ⟨p.x + c.offset.x, p.y + c.offset.y⟩ q) = θ ∧ -Double.pi ≤ θ ∧ θ ≤ Double.pi :=
    fun q hqx hqy => value_direction_double hangle (Double.isNaN_of_isFinite hcxf)
      (Double.isNaN_of_isFinite hcyf) hqx hqy
  obtain ⟨x, hx, hxpi⟩ := hangles p.foot hp.x hp.y
  obtain ⟨y, hy, hypi⟩ := hangles c.target.foot hc.target.x hc.target.y
  obtain ⟨z, hz, hzlow, hzhigh⟩ := between_unwind hangle hx hy hxpi hypi clockwise
  have hbound : Double.IsBound (2 ^ (5 : ℤ)) := Double.isBound_zpow (by norm_num) (by norm_num)
  refine ⟨hcx, hcy, ?radius, Double.beq_self hp.z, ?startAngle, ?sweep⟩
  case radius =>
    exact Double.hypot_of_zeros _ (beq_zero_iff.mp (Double.sub_beq_zero hcxf (BEq.symm hcx))) _
      (beq_zero_iff.mp (Double.sub_beq_zero hcyf (BEq.symm hcy)))
  case startAngle => exact ⟨x, hx, by linarith, by linarith⟩
  case sweep =>
    refine Double.between_sub hz hx hbound.neg hbound ?_
    norm_num at hzlow hzhigh hpi ⊢
    constructor <;> linarith

namespace IsPoint

variable (h : a.IsPoint p)
include h

theorem isDegenerate : a.isDegenerate := by
  rw [Arc.isDegenerate, h.radius]
  rfl

/-- **The length is zero**, whatever the sweep is. -/
theorem length_eq : a.length = 0 := by
  obtain ⟨w, hw, -⟩ := h.sweep
  rw [Arc.length, h.radius]
  exact Double.zero_mul_abs (Double.isFinite_of_value hw)

/-- A part of an angle is less than sixty-four either way. -/
theorem isFinite_angleAt {n k : ℕ} (hk : k ≤ n) (hn : 0 < n) (hsize : n < UInt32.size) :
    (a.angleAt n k).isFinite := by
  have hlimit : UInt32.size = 2 ^ 32 := rfl
  obtain ⟨f, hf, hf0, hf1⟩ :
      Double.Between (Scalar.ofNat k / Scalar.ofNat n) 0 1 := by
    rcases Nat.eq_zero_or_pos k with rfl | hpos
    · have hzero : (Scalar.ofNat 0 / Scalar.ofNat n : Float) = Scalar.zero :=
        Double.zero_div_of_pos (Double.value_ofNat (by omega)) (Nat.cast_pos.mpr hn)
      rw [hzero]
      exact ⟨0, rfl, le_rfl, zero_le_one⟩
    · obtain ⟨-, f, hf, hlow, hhigh⟩ := Double.between_fraction hpos hk hsize
      exact ⟨f, hf, le_trans (by positivity) hlow, hhigh⟩
  obtain ⟨s, hs, hslow, hshigh⟩ := h.startAngle
  obtain ⟨w, hw, hwlow, hwhigh⟩ := h.sweep
  obtain ⟨u, hu, hulow, huhigh⟩ : Double.Between
      (a.sweep * (Scalar.ofNat k / Scalar.ofNat n)) (-2 ^ (5 : ℤ)) (2 ^ (5 : ℤ)) := by
    have hb : Double.IsBound (2 ^ (5 : ℤ)) := Double.isBound_zpow (by norm_num) (by norm_num)
    refine Double.between_mul hw hf hb.neg hb ?_
    constructor <;> nlinarith
  obtain ⟨θ, hθ, -⟩ : Double.Between (a.angleAt n k) (-2 ^ (6 : ℤ)) (2 ^ (6 : ℤ)) := by
    have hb : Double.IsBound (2 ^ (6 : ℤ)) := Double.isBound_zpow (by norm_num) (by norm_num)
    refine Double.between_add hs hu hb.neg hb ?_
    norm_num at hslow hshigh hulow huhigh ⊢
    constructor <;> linarith
  exact Double.isFinite_of_value hθ

/-- The corners of the circle are the point. -/
theorem coincides_corners (hp : p.IsFinite) : a.low.Coincides p ∧ a.high.Coincides p := by
  have hx := Double.isNaN_of_isFinite (isFinite_of_beq h.centerX hp.x)
  have hy := Double.isNaN_of_isFinite (isFinite_of_beq h.centerY hp.y)
  have hradius : a.radius == 0 := by rw [h.radius]; rfl
  exact ⟨⟨BEq.trans (Double.sub_zero_beq hx hradius) h.centerX,
      BEq.trans (Double.sub_zero_beq hy hradius) h.centerY, h.z⟩,
    ⟨BEq.trans (Double.add_zero_beq hx hradius) h.centerX,
      BEq.trans (Double.add_zero_beq hy hradius) h.centerY, h.z⟩⟩

/-- **Every point of the circle is the point**, at any finite angle. -/
theorem coincides_pointAt (hp : p.IsFinite)
    (hcircle : @Scalar.Circle Float (Double.withCircle sine cosine) value) {θ : Float}
    (hθ : θ.isFinite) : (@pointAt Float (Double.withPolar angle sine cosine) a θ).Coincides p := by
  have hx := Double.isNaN_of_isFinite (isFinite_of_beq h.centerX hp.x)
  have hy := Double.isNaN_of_isFinite (isFinite_of_beq h.centerY hp.y)
  have hproduct {v : Float} (hv : v.isFinite) : a.radius * v == 0 := by
    rw [h.radius]
    exact Double.zero_mul_beq_zero hv
  obtain ⟨hsin, hcos⟩ := Double.isFinite_of_circle hcircle hθ
  exact ⟨BEq.trans (Double.add_zero_beq hx (hproduct hcos)) h.centerX,
    BEq.trans (Double.add_zero_beq hy (hproduct hsin)) h.centerY, h.z⟩

/-- **All vertices are the point**, at any resolution. -/
theorem coincides_vertex (hp : p.IsFinite)
    (hcircle : @Scalar.Circle Float (Double.withCircle sine cosine) value) {n : ℕ}
    (hn : n < UInt32.size) {q : Point Float}
    (hq : q ∈ @vertices Float (Double.withPolar angle sine cosine) a n) : q.Coincides p := by
  have hlimit : UInt32.size = 2 ^ 32 := rfl
  obtain ⟨k, hk, rfl⟩ := List.mem_map.mp hq
  rw [List.mem_range] at hk
  have hfinite := h.isFinite_angleAt (n := max n 1) (Nat.le_of_lt_succ hk) (by omega) (by omega)
  exact h.coincides_pointAt hp hcircle hfinite

end IsPoint
end Arc

/-! ## 3. Summaries and boxes -/

/-- One summary counts an arc more than the other, a degenerate one, and all the other counts and
the length of the cut are the same. -/
structure Summary.PointMore (s s' : Summary Float) : Prop where
  moves : s.moves = s'.moves
  lines : s.lines = s'.lines
  arcs : s.arcs = s'.arcs + 1
  degenerate : s.degenerate = s'.degenerate + 1
  cutting : Double.SameNumber s.cutting s'.cutting

namespace Summary

variable {angle : Float → Float → Float} {sine cosine : Float → Float}

/-- A point adds one to both counts of arcs, and nothing to the cut. -/
theorem pointMore_add {a : Arc Float} {p : Point Float} (h : a.IsPoint p) (s : Summary Float)
    (last : Point Float) :
    (@add Float (Double.withPolar angle sine cosine) s last (.arc a)).PointMore s := by
  refine ⟨rfl, rfl, rfl, if_pos h.isDegenerate, ?_⟩
  change Double.SameNumber (s.cutting + a.length) s.cutting
  rw [h.length_eq]
  exact Double.sameNumber_add_zero s.cutting

/-- A segment more changes both summaries alike, from wherever it is measured. -/
theorem PointMore.add {s s' : Summary Float} (h : s.PointMore s') (last last' : Point Float)
    (segment : Segment Float) :
    (@add Float (Double.withPolar angle sine cosine) s last segment).PointMore
      (@add Float (Double.withPolar angle sine cosine) s' last' segment) := by
  obtain ⟨hmoves, hlines, harcs, hdegenerate, hcutting⟩ := h
  cases segment with
  | move stop => exact ⟨congrArg (· + 1) hmoves, hlines, harcs, hdegenerate, hcutting⟩
  | line start stop =>
    exact ⟨hmoves, congrArg (· + 1) hlines, harcs, hdegenerate, hcutting.add _⟩
  | arc a =>
    refine ⟨hmoves, hlines, congrArg (· + 1) harcs, ?_, hcutting.add _⟩
    simp only [Summary.add, hdegenerate]
    split <;> rfl

theorem PointMore.addAll {s s' : Summary Float} (h : s.PointMore s') (last last' : Point Float)
    (segments : List (Segment Float)) :
    (@addAll Float (Double.withPolar angle sine cosine) s last segments).PointMore
      (@addAll Float (Double.withPolar angle sine cosine) s' last' segments) := by
  induction segments generalizing s s' last last' with
  | nil => exact h
  | cons segment rest ih => exact ih (h.add last last' segment) _ _

/-- **A point among other segments** adds one to both counts of arcs, and nothing to the cut. -/
theorem pointMore_ofSegments {a : Arc Float} {p : Point Float} (h : a.IsPoint p)
    (earlier later : List (Segment Float)) :
    (@ofSegments Float (Double.withPolar angle sine cosine) (earlier ++ .arc a :: later)).PointMore
      (@ofSegments Float (Double.withPolar angle sine cosine) (earlier ++ later)) := by
  simp only [ofSegments, addAll_append, addAll]
  exact (pointMore_add h _ _).addAll _ _ later

end Summary

/-- The boxes have the same faces, up to the signs of zeros. -/
def Box.Coincides (b b' : Box Float) : Prop := b.low.Coincides b'.low ∧ b.high.Coincides b'.high

theorem Point.coincides_iff {p q : Point Float} :
    p.Coincides q ↔ ∀ axis, p.along axis == q.along axis := by
  rw [Axis.forall]
  rfl

/-- The corners of a point and the stop of a move to it are the same along every axis. -/
theorem Arc.IsPoint.sameAlong {a : Arc Float} {p : Point Float} (h : a.IsPoint p)
    (hp : p.IsFinite) (axis : Axis) :
    Box.SameAlong value (Toolpath.extremes (.arc a)) (Toolpath.extremes (.move p)) axis := by
  obtain ⟨hlow, hhigh⟩ := h.coincides_corners hp
  obtain ⟨hlown, hpn, hlowv⟩ := value_eq_of_beq (Point.coincides_iff.mp hlow axis)
  obtain ⟨-, -, hhighv⟩ := value_eq_of_beq (Point.coincides_iff.mp hhigh axis)
  have hnumber {b : Float} (hb : b.isNaN = false) : Scalar.isNaN b = false :=
    (Double.isNaN_withAtan2 Float.atan2 b).trans hb
  intro v
  constructor
  · rintro ⟨b, hb, -, rfl⟩
    refine ⟨p.along axis, List.mem_singleton_self _, hnumber hpn, ?_⟩
    rcases List.mem_pair.mp hb with rfl | rfl
    · exact hlowv.symm
    · exact hhighv.symm
  · rintro ⟨b, hb, -, rfl⟩
    obtain rfl := List.mem_singleton.mp hb
    exact ⟨a.low.along axis, List.mem_cons_self, hnumber hlown, hlowv⟩

namespace Toolpath

/-- **Tool paths with the same extremes have the same box**, or both have none. -/
theorem bounds?_coincides {t t' : Toolpath Float}
    (hsame : ∀ axis, Box.SameAlong value (t.segments.toList.flatMap extremes)
      (t'.segments.toList.flatMap extremes) axis) :
    Option.Rel Box.Coincides t.bounds? t'.bounds? := by
  have hr : Scalar.Rounding value Double.round := Double.rounding_double Float.atan2
  have hg : Scalar.Ranged value := Double.ranged_withCircle Float.sin Float.cos
  have hnumber {a : Float} (ha : Scalar.isNaN a = false) : a.isNaN = false :=
    (Double.isNaN_withAtan2 Float.atan2 a).symm.trans ha
  have hvalid := Box.isValid_around_congr hr hg hsame
  simp only [bounds?, hvalid]
  split
  case isFalse => exact .none
  case isTrue =>
    refine .some ⟨?low, ?high⟩
    all_goals
      refine Point.coincides_iff.mpr fun axis => ?_
      obtain ⟨hlow, hhigh⟩ := Box.value_around_congr hr hg (hsame axis)
    case low =>
      exact (Double.beq_iff_value (hnumber (Box.low_around hr hg _ axis).1)
        (hnumber (Box.low_around hr hg _ axis).1)).mpr hlow
    case high =>
      exact (Double.beq_iff_value (hnumber (Box.high_around hr hg _ axis).1)
        (hnumber (Box.high_around hr hg _ axis).1)).mpr hhigh

/-- **A point among other segments** is in the box as the stop of a move is. -/
theorem bounds?_of_isPoint {a : Arc Float} {p : Point Float} (h : a.IsPoint p) (hp : p.IsFinite)
    {t t' : Toolpath Float} {earlier later : List (Segment Float)}
    (ht : t.segments.toList = earlier ++ .arc a :: later)
    (ht' : t'.segments.toList = earlier ++ .move p :: later) :
    Option.Rel Box.Coincides t.bounds? t'.bounds? := by
  refine bounds?_coincides fun axis => ?_
  simp only [ht, ht', List.flatMap_append, List.flatMap_cons]
  exact (Box.SameAlong.refl _ axis).append
    ((h.sameAlong hp axis).append (Box.SameAlong.refl _ axis))

end Toolpath

/-! ## 4. Programs -/

section Programs

variable {α : Type} [Scalar α] {o : Options} {t : Text} {before after : List (Command α)}
  {c : Command α}

/-- A field that is not carried over and is given by no word is zero. -/
theorem Field.get_eq_zero (hcommands : (Program.ofText o t).commands = before ++ c :: after)
    {f : Field} (hf : f ∉ [Field.x, Field.y, Field.z])
    (hwords : ∀ w ∈ c.source.words, ∀ v : α, ¬Gives w (.value f v)) : f.get c = Scalar.zero := by
  rw [Program.ofText_eq] at hcommands
  have hlatest := latest_field f o.mode before c.line c.source
  rw [← eq_readLine_of_readLines_eq hcommands] at hlatest
  rw [hlatest.eq_of_none hwords, Field.unset, if_neg fun h => hf h.2]

theorem Trace.exists_later {start : Option (Point α)} {p : Point α}
    (hposition : (ofCommands start before).position = some p) {clockwise : Bool}
    (hcode : c.code = .preparatory (if clockwise then 2 else 3)) (after : List (Command α)) :
    ∃ later, (ofCommands start (before ++ c :: after)).segments.toList =
      (ofCommands start before).segments.toList ++ .arc (.resolve p c clockwise) :: later := by
  have hstep : (step (some p) c).2 = some (.arc (.resolve p c clockwise)) := by
    cases clockwise <;> simp [step, hcode, Code.travel?]
  rw [ofCommands_append, ofCommands_cons, hposition, hstep]
  exact ⟨_, by simp; rfl⟩

/-- An arc command of a text and the position that it starts from are finite, and it leaves its arc
between the segments of the commands before and behind it. -/
theorem Simulation.exists_arc (hzero : Scalar.isFinite (Scalar.zero : α))
    {start : Option (Point α)} (hstart : ∀ q ∈ start, q.IsFinite)
    (hcommands : (Program.ofText o t).commands = before ++ c :: after) {clockwise : Bool}
    (hcode : c.code = .preparatory (if clockwise then 2 else 3)) {p : Point α}
    (hposition : (Trace.ofCommands start before).position = some p) :
    (p.IsFinite ∧ c.IsFinite) ∧
      ∃ later, (ofProgram start (.ofText o t)).toolpath.segments.toList =
        (Trace.ofCommands start before).segments.toList ++
          .arc (.resolve p c clockwise) :: later := by
  have hfinite : ∀ c' ∈ before ++ c :: after, c'.IsFinite := by
    rw [← hcommands]
    exact fun c' hc' => isFinite_of_mem_ofText hzero hc'
  have hp := isFinite_position hstart (fun c' hc' => hfinite c' (List.mem_append_left _ hc')) p
    hposition
  refine ⟨⟨hp, hfinite c (by simp)⟩, ?_⟩
  rw [ofProgram, hcommands]
  exact Trace.exists_later hposition hcode after

end Programs

/-- An offset is zero if it is given as a zero, or by no word. -/
theorem Field.get_beq_zero {angle : Float → Float → Float} {sine cosine : Float → Float}
    {o : Options} {t : Text} {before after : List (Command Float)} {c : Command Float}
    (hcommands : (@Program.ofText Float (Double.withPolar angle sine cosine) o t).commands =
      before ++ c :: after) {f : Field} (hf : f ∈ [Field.i, Field.j])
    (h : f.get c == 0 ∨ ∀ w ∈ c.source.words, ∀ v : Float,
      ¬@Gives Float (Double.withPolar angle sine cosine) w (.value f v)) : f.get c == 0 := by
  rcases h with hzero | hwords
  · exact hzero
  · have haxis : f ∉ [Field.x, Field.y, Field.z] := by
      rcases List.mem_pair.mp hf with rfl | rfl <;> decide
    rw [@Field.get_eq_zero Float (Double.withPolar angle sine cosine) _ _ _ _ _ hcommands _ haxis
      hwords]
    exact Double.beq_self Double.isFinite_zero

/-- **Arcs without an offset are harmless points.**

Take an arc command of any text, in either direction, whose I and J are zeros of either sign, or are
given by no word of its line, be it that there is none or that it cannot be read.  The tool has
started at the origin, at any other finite position or at an unknown one, and is at a known position
when it comes to the command.  Then the command leaves an arc about that position, without a radius
and without a length, wherever its target is.  At any resolution its vertices are as many as those
of any other arc, and all at that position.

The summary of the tool path counts it once more than a summary without it, among the arcs and among
the degenerate ones, and the cut is as long.  The box of the tool path is the one that it would have
with a move to that position instead. -/
theorem zero_offset_arcs_are_points {angle : Float → Float → Float} {sine cosine : Float → Float}
    (hangle : @Scalar.Angles Float (Double.withAtan2 angle) value Double.pi)
    (hcircle : @Scalar.Circle Float (Double.withCircle sine cosine) value) (o : Options)
    (t : Text) :
    let _ : Scalar Float := Double.withPolar angle sine cosine
    ∀ (start : Option (Point Float)) (before after : List (Command Float)) (c : Command Float)
      (clockwise : Bool) (p : Point Float),
      (∀ q ∈ start, q.IsFinite) →
      (Program.ofText o t).commands = before ++ c :: after →
      c.code = .preparatory (if clockwise then 2 else 3) →
      (∀ f ∈ [Field.i, Field.j],
        f.get c == 0 ∨ ∀ w ∈ c.source.words, ∀ v : Float, ¬Gives w (.value f v)) →
      (Trace.ofCommands start before).position = some p →
      let path := (Simulation.ofProgram start (.ofText o t)).toolpath
      let earlier := (Trace.ofCommands start before).segments.toList
      ∃ a later, path.segments.toList = earlier ++ .arc a :: later ∧ a.clockwise = clockwise ∧
        (a.center.x == p.x ∧ a.center.y == p.y) ∧ a.radius = 0 ∧ a.length = 0 ∧ a.isDegenerate ∧
        (∀ n < UInt32.size, (a.vertices n).length = max n 1 + 1 ∧
          ∀ q ∈ a.vertices n, q.Coincides p) ∧
        path.summary.PointMore (.ofSegments (earlier ++ later)) ∧
        Option.Rel Box.Coincides path.bounds?
          (Toolpath.ofSegments (earlier ++ .move p :: later).toArray).bounds? := by
  dsimp only
  intro start before after c clockwise p hstart hcommands hcode hoffset hposition
  obtain ⟨⟨⟨hpx, hpy, hpz⟩, ⟨⟨hx, hy, hz⟩, hi, hj⟩⟩, later, hsegments⟩ :=
    @Simulation.exists_arc Float (Double.withPolar angle sine cosine) _ _ _ _ _
      Double.isFinite_zero _ hstart hcommands _ hcode _ hposition
  have hp : p.IsFinite := ⟨hpx, hpy, hpz⟩
  have hc : c.IsFinite := ⟨⟨hx, hy, hz⟩, hi, hj⟩
  have hzero : ∀ f ∈ [Field.i, Field.j], f.get c == 0 := by
    intro f hf
    exact Field.get_beq_zero hcommands hf (hoffset f hf)
  have hpoint : (@Arc.resolve Float (Double.withPolar angle sine cosine) p c clockwise).IsPoint p :=
    Arc.isPoint_resolve hangle hp hc (hzero .i (by simp)) (hzero .j (by simp)) clockwise
  refine ⟨_, later, hsegments, rfl, ⟨hpoint.centerX, hpoint.centerY⟩, hpoint.radius,
    hpoint.length_eq, hpoint.isDegenerate, fun n hn => ⟨?length, fun q hq => ?vertex⟩, ?summary,
    ?box⟩
  case length => simp only [Arc.vertices, List.length_map, List.length_range]
  case vertex => exact hpoint.coincides_vertex hp hcircle hn hq
  case summary =>
    unfold Toolpath.summary
    rw [hsegments]
    exact Summary.pointMore_ofSegments hpoint _ later
  case box => exact Toolpath.bounds?_of_isPoint hpoint hp hsegments rfl

/-- Clockwise at (1, -0), with an I that cannot be read and a J of -0: in three steps of no length
the tool stays where it is, although the target is elsewhere. -/
theorem zero_offset_arcs_are_points_bad_word :
    let _ : Scalar Float :=
      Double.withPolar Double.axisAngle Double.quarterSine Double.quarterCosine
    let path := (Simulation.ofText {} "G1 X1 Y-0\nG2 X5 Ix J-0".toList).toolpath
    ∃ a later, path.segments.toList = .line .origin ⟨1, -0, 0⟩ :: .arc a :: later ∧
      a.length = 0 ∧ a.isDegenerate ∧ (a.vertices 3).length = 4 ∧
      ∀ q ∈ a.vertices 3, q.Coincides ⟨1, -0, 0⟩ := by
  dsimp only
  let polar := Double.withPolar Double.axisAngle Double.quarterSine Double.quarterCosine
  have hstart : ∀ q ∈ some (@Point.origin Float polar), @Point.IsFinite Float polar q := by
    rintro q ⟨rfl⟩
    exact @Point.isFinite_origin Float polar Double.isFinite_zero
  let c : Command Float :=
    ⟨.preparatory 2, ⟨5, 0, 0⟩, ⟨0, -0⟩, 0, 2, "G2 X5 Ix J-0".toList⟩
  have hoffset : ∀ f ∈ [Field.i, Field.j], f.get c == 0 ∨
      ∀ w ∈ c.source.words, ∀ v : Float, ¬@Gives Float polar w (.value f v) := by
    intro f hf
    rcases List.mem_pair.mp hf with rfl | rfl
    · -- the word with the letter I cannot be read, and no other word has the letter
      refine Or.inr fun w hw v hgives => ?_
      have hwords : w ∈ [['G', '2'], ['X', '5'], ['I', 'x'], ['J', '-', '0']] := hw
      simp only [List.mem_cons, List.not_mem_nil, or_false] at hwords
      rcases hwords with rfl | rfl | rfl | rfl
      case inr.inr.inl => cases (@gives_iff Float polar _ _).mp hgives
      all_goals
        cases hgives with
        | value hletter => exact absurd hletter (by decide)
    · exact Or.inl (by decide +kernel)
  obtain ⟨a, later, hsegments, -, -, -, hlength, hdegenerate, hvertices, -⟩ :=
    zero_offset_arcs_are_points Double.angles_axisAngle Double.circle_quarter {}
      "G1 X1 Y-0\nG2 X5 Ix J-0".toList (some (@Point.origin Float polar))
      [⟨.preparatory 1, ⟨1, -0, 0⟩, ⟨0, 0⟩, 0, 1, "G1 X1 Y-0".toList⟩] [] c true ⟨1, -0, 0⟩ hstart
      rfl rfl hoffset rfl
  exact ⟨a, later, hsegments, hlength, hdegenerate, hvertices 3 (by decide)⟩

end Motion
