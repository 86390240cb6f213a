/-
# The box around a tool path

The box of a tool path is made of few points: the stops of moves, the ends of lines, and two corners
of the square around the circle of each arc.  The drawing has other points, as many on each arc as
it is divided into, and they are computed in another way: a corner is the centre plus the radius,
and a vertex is the centre plus the radius times a cosine.  Both are rounded, and each rounding
could move a vertex past the corner.

It does not, because rounding keeps the order, once for the product and once for the sum
(`Scalar.Rounding.add_mul_between`).  So the box holds everything that is drawn, at any division,
and as each of its faces is reached by one of the few points it is not larger than they need
(`bounds_contain_drawing`).
-/
import Motion.Proofs.Geometry.Box
import Motion.Proofs.Number.Angle
import Motion.Proofs.Program.Finite
import Motion.Toolpath
import Motion.Toolpath.Sampling

namespace Motion

variable {α : Type} [Scalar α]

/-! ## 1. Segments with finite fields -/

/-- The fields of an arc are finite. -/
structure Arc.IsFinite (a : Arc α) : Prop where
  centerX : Scalar.isFinite a.center.x
  centerY : Scalar.isFinite a.center.y
  radius : Scalar.isFinite a.radius
  z : Scalar.isFinite a.z
  startAngle : Scalar.isFinite a.startAngle
  endAngle : Scalar.isFinite a.endAngle

/-- The fields of a segment are finite. -/
def Segment.IsFinite : Segment α → Prop
  | .move stop => stop.IsFinite
  | .line start stop => start.IsFinite ∧ stop.IsFinite
  | .arc a => a.IsFinite

/-- The angle of the vertex of an arc after `k` of `n` equal steps. -/
def Arc.angleAt (a : Arc α) (n k : Nat) : α :=
  a.startAngle + a.sweep * (Scalar.ofNat k / Scalar.ofNat n)

theorem Arc.vertex_eq (a : Arc α) (n k : Nat) : a.vertex n k = a.pointAt (a.angleAt n k) := rfl

/-- The angles of the vertices of a segment are finite, if it is an arc and divided into so many
steps. -/
def Segment.HasFiniteAngles (n : Nat) : Segment α → Prop
  | .arc a => ∀ k ≤ max n 1, Scalar.isFinite (a.angleAt (max n 1) k)
  | _ => True

theorem Point.IsFinite.along {p : Point α} (h : p.IsFinite) (axis : Axis) :
    Scalar.isFinite (p.along axis) := by
  cases axis
  · exact h.x
  · exact h.y
  · exact h.z

/-- The lower corner of the box around the circle of an arc. -/
def Arc.low (a : Arc α) : Point α := ⟨a.center.x - a.radius, a.center.y - a.radius, a.z⟩

/-- The upper corner of the box around the circle of an arc. -/
def Arc.high (a : Arc α) : Point α := ⟨a.center.x + a.radius, a.center.y + a.radius, a.z⟩

theorem Toolpath.extremes_arc (a : Arc α) : extremes (.arc a) = [a.low, a.high] := rfl

/-! ## 2. Points between the corners -/

variable {value : α → EReal} {round : EReal → EReal}

section Corners

variable (hr : Scalar.Rounding value round)
include hr

theorem Point.IsFinite.isNumber {p : Point α} (h : p.IsFinite) : p.IsNumber :=
  fun axis => hr.isNaN_of_isFinite (h.along axis)

theorem Arc.IsFinite.isNumber_corners {a : Arc α} (h : a.IsFinite) :
    a.low.IsNumber ∧ a.high.IsNumber := by
  have hradius := hr.isNaN_of_isFinite h.radius
  have hx := hr.isNaN_of_isFinite h.centerX
  have hy := hr.isNaN_of_isFinite h.centerY
  have hz := hr.isNaN_of_isFinite h.z
  refine ⟨fun axis => ?_, fun axis => ?_⟩ <;> cases axis
  · exact (hr.sub hx hradius (Or.inl h.centerX)).1
  · exact (hr.sub hy hradius (Or.inl h.centerY)).1
  · exact hz
  · exact (hr.add hx hradius (Or.inl h.centerX)).1
  · exact (hr.add hy hradius (Or.inl h.centerY)).1
  · exact hz

theorem Segment.IsFinite.isNumber_extremes {s : Segment α} (h : s.IsFinite) :
    ∀ p ∈ Toolpath.extremes s, p.IsNumber := by
  cases s with
  | move stop => simpa [Toolpath.extremes] using Point.IsFinite.isNumber hr h
  | line start stop =>
    have hstart := Point.IsFinite.isNumber hr h.1
    have hstop := Point.IsFinite.isNumber hr h.2
    simpa [Toolpath.extremes] using ⟨hstart, hstop⟩
  | arc a => simpa [Toolpath.extremes_arc] using Arc.IsFinite.isNumber_corners hr h

variable (hp : Scalar.Products value round) (hc : Scalar.Circle value)
include hp hc

/-- **No point of an arc is past a corner.** -/
theorem Arc.pointAt_between {a : Arc α} (h : a.IsFinite)
    (hnonneg : Scalar.le Scalar.zero a.radius) {angle : α} (hangle : Scalar.isFinite angle) :
    (a.pointAt angle).IsNumber ∧
    (∀ axis, value (a.low.along axis) ≤ value ((a.pointAt angle).along axis)) ∧
    ∀ axis, value ((a.pointAt angle).along axis) ≤ value (a.high.along axis) := by
  obtain ⟨hcos, hcoslow, hcoshigh⟩ := hc.cos hangle
  obtain ⟨hsin, hsinlow, hsinhigh⟩ := hc.sin hangle
  obtain ⟨hxn, hxlow, hxhigh⟩ :=
    hr.add_mul_between hp h.centerX h.radius hnonneg hcos hcoslow hcoshigh
  obtain ⟨hyn, hylow, hyhigh⟩ :=
    hr.add_mul_between hp h.centerY h.radius hnonneg hsin hsinlow hsinhigh
  refine ⟨fun axis => ?_, fun axis => ?_, fun axis => ?_⟩ <;> cases axis
  · exact hxn
  · exact hyn
  · exact hr.isNaN_of_isFinite h.z
  · exact hxlow
  · exact hylow
  · exact le_rfl
  · exact hxhigh
  · exact hyhigh
  · exact le_rfl

/-- A valid box around the corners of an arc holds all points of the arc. -/
theorem Arc.contains_pointAt {a : Arc α} (h : a.IsFinite)
    (hnonneg : Scalar.le Scalar.zero a.radius) {b : Box α} (hvalid : b.isValid)
    (hlow : b.Contains a.low) (hhigh : b.Contains a.high) {angle : α}
    (hangle : Scalar.isFinite angle) : b.Contains (a.pointAt angle) := by
  obtain ⟨hnumber, hbelow, habove⟩ := Arc.pointAt_between hr hp hc h hnonneg hangle
  obtain ⟨hlown, hhighn⟩ := Arc.IsFinite.isNumber_corners hr h
  exact Box.contains_of_between hr hvalid hlow hhigh hlown hnumber hhighn hbelow habove

/-- **A valid box around the extremes of a segment holds its drawing.** -/
theorem Segment.IsFinite.contains {s : Segment α} (h : s.IsFinite)
    (hnonneg : ∀ a, s = .arc a → Scalar.le Scalar.zero a.radius) {b : Box α} (hvalid : b.isValid)
    (hextremes : ∀ p ∈ Toolpath.extremes s, b.Contains p) :
    (∀ n, s.HasFiniteAngles n → ∀ p ∈ s.vertices n, b.Contains p) ∧
    (∀ p ∈ s.startPoint?, b.Contains p) ∧ b.Contains s.endPoint := by
  cases s with
  | move stop =>
    have hstop := hextremes stop (by simp [Toolpath.extremes])
    exact ⟨by simpa [Segment.vertices] using fun _ _ => hstop, by simp [Segment.startPoint?], hstop⟩
  | line start stop =>
    have hstart := hextremes start (by simp [Toolpath.extremes])
    have hstop := hextremes stop (by simp [Toolpath.extremes])
    refine ⟨by simpa [Segment.vertices] using fun _ _ => ⟨hstart, hstop⟩, ?_, hstop⟩
    simpa [Segment.startPoint?] using hstart
  | arc a =>
    have hpoint : ∀ {angle : α}, Scalar.isFinite angle → b.Contains (a.pointAt angle) :=
      Arc.contains_pointAt hr hp hc h (hnonneg a rfl) hvalid
        (hextremes a.low (by simp [Toolpath.extremes_arc]))
        (hextremes a.high (by simp [Toolpath.extremes_arc]))
    refine ⟨fun n hangles p hmem => ?_, ?_, hpoint h.endAngle⟩
    · obtain ⟨k, hk, rfl⟩ := List.mem_map.mp hmem
      rw [List.mem_range] at hk
      rw [Arc.vertex_eq]
      exact hpoint (hangles k (by omega))
    · simpa [Segment.startPoint?] using hpoint h.startAngle

end Corners

/-! ## 3. The tool path -/

/-- The box of a tool path is a valid box around the extremes of its segments. -/
theorem Toolpath.bounds?_eq_some {t : Toolpath α} {b : Box α} (h : t.bounds? = some b) :
    b = Box.around (t.segments.toList.flatMap extremes) ∧ b.isValid := by
  simp only [bounds?] at h
  split at h
  · cases h
    exact ⟨rfl, ‹_›⟩
  · cases h

/-- **The box around a tool path holds its drawing and is not larger than it has to be.**

The fields of all segments are finite and no radius is negative.  If there is a box, then all
vertices of every segment are in it, at any division with finite angles, and so are the points where
the segment starts and ends.  Along each axis both faces are reached by a stop of a move, an end of
a line, or a corner of an arc: for X and Y its centre less or plus its radius, for Z its height. -/
theorem bounds_contain_drawing (hr : Scalar.Rounding value round)
    (hp : Scalar.Products value round) (hc : Scalar.Circle value) (hg : Scalar.Ranged value)
    (t : Toolpath α)
    (hfinite : ∀ s ∈ t.segments.toList, s.IsFinite)
    (hnonneg : ∀ a, .arc a ∈ t.segments.toList → Scalar.le Scalar.zero a.radius)
    {b : Box α} (hb : t.bounds? = some b) :
    (∀ s ∈ t.segments.toList,
      (∀ n, s.HasFiniteAngles n → ∀ p ∈ s.vertices n, b.Contains p) ∧
      (∀ p ∈ s.startPoint?, b.Contains p) ∧ b.Contains s.endPoint) ∧
    ∀ axis,
      (∃ s ∈ t.segments.toList, ∃ p ∈ Toolpath.extremes s,
        value (p.along axis) = value (b.low.along axis)) ∧
      ∃ s ∈ t.segments.toList, ∃ p ∈ Toolpath.extremes s,
        value (p.along axis) = value (b.high.along axis) := by
  obtain ⟨rfl, hvalid⟩ := Toolpath.bounds?_eq_some hb
  have hnumber : ∀ p ∈ t.segments.toList.flatMap Toolpath.extremes, p.IsNumber := by
    intro p hp
    obtain ⟨s, hs, hp⟩ := List.mem_flatMap.mp hp
    exact (hfinite s hs).isNumber_extremes hr p hp
  refine ⟨fun s hs => ?_, fun axis => ⟨?_, ?_⟩⟩
  · refine (hfinite s hs).contains hr hp hc (fun a ha => hnonneg a (ha ▸ hs)) hvalid fun p hp => ?_
    have hmem := List.mem_flatMap.mpr ⟨s, hs, hp⟩
    exact Box.contains_around hr hg hmem (hnumber p hmem)
  · obtain ⟨p, hp, heq⟩ := Box.exists_low hr hg hvalid hnumber axis
    obtain ⟨s, hs, hp⟩ := List.mem_flatMap.mp hp
    exact ⟨s, hs, p, hp, heq⟩
  · obtain ⟨p, hp, heq⟩ := Box.exists_high hr hg hvalid hnumber axis
    obtain ⟨s, hs, hp⟩ := List.mem_flatMap.mp hp
    exact ⟨s, hs, p, hp, heq⟩

/-- A move to (2, 0, 1) and half a circle about the origin, in two steps. -/
theorem bounds_contain_drawing_half_circle :
    let a : Arc Float := ⟨⟨0, 0⟩, 1, 0, 0, Double.halfTurn false, false⟩
    let t : Toolpath Float := .ofSegments #[.move ⟨2, 0, 1⟩, .arc a]
    let b : Box Float := ⟨⟨-1, -1, 0⟩, ⟨2, 1, 1⟩⟩
    let _ := Double.withCircle Double.quarterSine Double.quarterCosine
    t.bounds? = some b ∧ (a.vertices 2).length = 3 ∧ (∀ p ∈ a.vertices 2, b.Contains p) ∧
      ∃ s ∈ t.segments.toList, ∃ p ∈ Toolpath.extremes s, Double.value p.x = Double.value 2 := by
  intro a t b scalar
  have hfinite : ∀ s ∈ t.segments.toList, s.IsFinite := by
    simp only [t, Toolpath.ofSegments, List.forall_mem_cons, List.not_mem_nil, false_imp_iff,
      implies_true, and_true]
    refine ⟨⟨?_, ?_, ?_⟩, ⟨?_, ?_, ?_, ?_, ?_, ?_⟩⟩
    all_goals decide +kernel
  have hnonneg : ∀ a', .arc a' ∈ t.segments.toList → Scalar.le Scalar.zero a'.radius := by
    intro a' ha'
    obtain rfl : a' = a := by simpa [t, Toolpath.ofSegments] using ha'
    decide +kernel
  have hb : t.bounds? = some b := by decide +kernel
  obtain ⟨hdrawn, hfaces⟩ := bounds_contain_drawing
    (Double.rounding_withCircle Double.quarterSine Double.quarterCosine)
    (Double.products_withCircle Double.quarterSine Double.quarterCosine) Double.circle_quarter
    (Double.ranged_withCircle Double.quarterSine Double.quarterCosine) t hfinite hnonneg hb
  have hangles : (Segment.arc a).HasFiniteAngles 2 := by
    have hall : ∀ k ∈ List.range 3, Scalar.isFinite (a.angleAt 2 k) := by decide +kernel
    exact fun k hk => hall k (List.mem_range.mpr (Nat.lt_succ_of_le hk))
  refine ⟨hb, rfl, (hdrawn (.arc a) (by simp [t, Toolpath.ofSegments])).1 2 hangles, ?_⟩
  exact (hfaces .x).2

end Motion
