-- Where children are placed. The edge and the size of a region are rounded to pixels each on its own,
-- so two regions that are apart as solved may overlap as placed, but by no more than a pixel, and
-- only where the roundings together reach half a pixel too far.
import RegionLayout.Proofs.Model.Setbacks
import RegionLayout.Proofs.Number.Pixels
import RegionLayout.Proofs.Sizing.Passes

namespace RegionLayout

open Number

/-! ## Rectangles along an axis -/

namespace Rect

def start (r : Rect) : Axis → Int
  | .horizontal => r.x
  | .vertical => r.y

def extent (r : Rect) : Axis → Int
  | .horizontal => r.width
  | .vertical => r.height

/-- The first pixel past the rectangle. -/
def stop (r : Rect) : Axis → Int
  | .horizontal => r.right
  | .vertical => r.bottom

theorem stop_eq (r : Rect) (axis : Axis) : r.stop axis = saturate (r.start axis + r.extent axis) := by
  cases axis <;> rfl

end Rect

/-- The padding before the content. -/
def Padding.before (p : Padding) : Axis → Int
  | .horizontal => p.left
  | .vertical => p.top

namespace Sizing

variable {R : Type} [Scalar R] {s : Setting} {c : Child} {children : List Child}
  {p p' : Pass R} {m : Model R} {P Q : Placement} {placements : List Placement} {axis : Axis}
  {g g' : RegionGeometry R} {padding : Padding}

theorem start_rectOf (padding : Padding) (g : RegionGeometry R) (axis : Axis) :
    (rectOf padding g).start axis =
      wrapAround (Scalar.round (g.origin axis) + padding.before axis) := by
  cases axis <;> rfl

theorem extent_rectOf (padding : Padding) (g : RegionGeometry R) (axis : Axis) :
    (rectOf padding g).extent axis = Scalar.round (g.size axis) := by
  cases axis <;> rfl

/-! ## Placing -/

/-- The child has its name from the table, and its rectangle is that of its region. -/
structure Sits (s : Setting) (m : Model R) (c : Child) (P : Placement) : Prop where
  handle : P.handle = c.handle
  name : s.names.nameOf c.handle = .ok P.name
  rect : ∃ g, m.geometry P.name = .ok g ∧ P.rect = rectOf s.padding g

theorem sits_placementOf (h : placementOf s c p = (.ok P, p')) :
    Sits s p.model c P ∧ p'.model = p.model := by
  unfold placementOf at h
  obtain ⟨name, p₁, hask, h₁⟩ := work_bind_ok h
  obtain ⟨g, p₂, hask', h₂⟩ := work_bind_ok h₁
  obtain ⟨rfl, hname⟩ := ask_ok hask
  obtain ⟨rfl, hg⟩ := ask_ok hask'
  cases h₂
  exact ⟨⟨rfl, hname, g, hg, rfl⟩, rfl⟩

theorem sits_mapM {cs : List Child} (h : cs.mapM (placementOf s) p = (.ok placements, p')) :
    List.Forall₂ (Sits s p.model) cs placements := by
  induction cs generalizing p placements with
  | nil =>
    cases h
    exact .nil
  | cons c cs ih =>
    rw [List.mapM_cons] at h
    obtain ⟨P, p₁, hc, h₁⟩ := work_bind_ok h
    obtain ⟨rest, p₂, hcs, h₂⟩ := work_bind_ok h₁
    cases h₂
    obtain ⟨hP, hmodel⟩ := sits_placementOf hc
    exact .cons hP (hmodel ▸ ih hcs)

theorem handles_of_sits {cs : List Child} (h : List.Forall₂ (Sits s m) cs placements) :
    placements.map Placement.handle = cs.map Child.handle := by
  induction h with
  | nil => rfl
  | cons hc _ ih => rw [List.map_cons, List.map_cons, ih, hc.handle]

theorem child_of_mem {cs : List Child} (h : List.Forall₂ (Sits s m) cs placements)
    (hP : P ∈ placements) : ∃ c ∈ cs, Sits s m c P := by
  induction h with
  | nil => cases hP
  | cons hc _ ih =>
    rcases List.mem_cons.1 hP with rfl | hP
    · exact ⟨_, List.mem_cons_self, hc⟩
    · obtain ⟨c, hmem, hc⟩ := ih hP
      exact ⟨c, List.mem_cons_of_mem _ hmem, hc⟩

/-! ## Two children -/

variable [Valued R] {l w l' : ℚ}

/-- Only what is rounded half a pixel too far is rounded past the next edge. -/
theorem rounded_apart (hl : Valued.value? (g.origin axis) = some l)
    (hw : Valued.value? (g.size axis) = some w) (hl' : Valued.value? (g'.origin axis) = some l')
    (happart : l + w ≤ l') (hlow : least ≤ l) (hsize : least ≤ w) (hhigh : l' ≤ greatest) :
    Scalar.round (g.origin axis) + Scalar.round (g.size axis) ≤ Scalar.round (g'.origin axis) + 1 ∧
      ((Scalar.round (g.origin axis) + Scalar.round (g.size axis) : ℤ) < l' + 1 / 2 →
        Scalar.round (g.origin axis) + Scalar.round (g.size axis) ≤
          Scalar.round (g'.origin axis)) := by
  have horigin := Valued.round_le hl hlow
  have hextent := Valued.round_le hw hsize
  refine ⟨?_, Valued.le_round hl' hhigh⟩
  have hnext : ((Scalar.round (g.origin axis) + Scalar.round (g.size axis) - 1 : ℤ) : ℚ) <
      l' + 1 / 2 := by
    push_cast
    linarith
  have hround := Valued.le_round hl' hhigh hnext
  omega

/-- A child is placed for each visible one. Where one is apart from the next as solved, its rectangle
reaches at most a pixel into that of the next; and it does not reach into it at all unless its
rounded edge and its rounded size together lie half a pixel or more behind the edge of the next. All
this as long as thirty-two bits hold the edges and sizes, and the edges with the padding. -/
theorem placed_apart_but_for_a_pixel (h : positions s children p = (.ok placements, p')) :
    placements.map Placement.handle = (visibleOf children).map Child.handle ∧
    ∀ P ∈ placements, ∀ Q ∈ placements, ∃ g g',
      p.model.geometry P.name = .ok g ∧ p.model.geometry Q.name = .ok g' ∧
      ∀ axis l w l', Valued.value? (g.origin axis) = some l → Valued.value? (g.size axis) = some w →
        Valued.value? (g'.origin axis) = some l' → l + w ≤ l' →
        least ≤ l → least ≤ w → l' ≤ greatest →
        Fits (Scalar.round (g.origin axis) + s.padding.before axis) →
        Fits (Scalar.round (g'.origin axis) + s.padding.before axis) →
          P.rect.stop axis ≤ Q.rect.start axis + 1 ∧
          ((Scalar.round (g.origin axis) + Scalar.round (g.size axis) : ℤ) < l' + 1 / 2 →
            P.rect.stop axis ≤ Q.rect.start axis) := by
  have hall := sits_mapM h
  refine ⟨handles_of_sits hall, fun P hP Q hQ => ?_⟩
  obtain ⟨c, -, hc⟩ := child_of_mem hall hP
  obtain ⟨c', -, hc'⟩ := child_of_mem hall hQ
  obtain ⟨g, hg, hrect⟩ := hc.rect
  obtain ⟨g', hg', hrect'⟩ := hc'.rect
  refine ⟨g, g', hg, hg', fun axis l w l' hl hw hl' hapart hlow hsize hhigh hfits hfits' => ?_⟩
  obtain ⟨hpixel, hnone⟩ := rounded_apart hl hw hl' hapart hlow hsize hhigh
  rw [hrect, hrect', Rect.stop_eq, start_rectOf, start_rectOf, extent_rectOf,
    wrapAround_of_fits hfits, wrapAround_of_fits hfits']
  have hstart := hfits'.1
  unfold saturate
  unfold least at hstart
  refine ⟨by omega, fun hless => ?_⟩
  have hreach := hnone hless
  omega

/-- The children `a` and `b` of a model of doubles are placed. -/
def placedPair (padding : Padding) (m : Model Float) :
    Except LayoutError (List Placement) × Pass Float :=
  positions { names := .ofList [(1, "a"), (2, "b")], padding } [⟨1, true⟩, ⟨2, true⟩] ⟨m, none⟩

/-- The batch of the statements, from a new model of doubles. -/
def pairBatch (texts : List String) : Except LayoutError Unit × Model Float :=
  Model.addConstraints (some texts) (Model.opening 1 100 (Model.blank 1 100)).2

theorem exists_built {texts : List String} {P : Model Float → Prop}
    (h : Scalar.isPositive (1 : Float) = true ∧
      (Model.opening (1 : Float) 100 (Model.blank 1 100)).1 = .ok () ∧
      (pairBatch texts).1 = .ok () ∧ P (pairBatch texts).2) :
    ∃ m, Model.build (some texts) 1 100 = .ok m ∧ P m := by
  obtain ⟨hpositive, hopening, hbatch, hP⟩ := h
  exact ⟨_, Model.build_of_new (Model.new_of_opening hpositive hopening)
    (Model.eq_of_answer hbatch), hP⟩

/-- Three quarters are rounded up and a quarter is rounded down, so nothing is rounded too far. -/
theorem three_quarters_stay_apart : ∃ m P Q,
    Model.build (some ["a.left == 0.75", "a.width == 10.25", "b.left == a.left + a.width"]) 1 100 =
      .ok m ∧
    (placedPair .none m).1 = .ok [P, Q] ∧ P.rect.right ≤ Q.rect.x := by
  obtain ⟨m, hm, h, hvalues, hnext⟩ : ∃ m,
      Model.build (some ["a.left == 0.75", "a.width == 10.25", "b.left == a.left + a.width"]) 1 100 =
        .ok m ∧
      (placedPair .none m).1 = .ok [⟨1, "a", ⟨1, 0, 10, 0⟩⟩, ⟨2, "b", ⟨11, 0, 0, 0⟩⟩] ∧
      (m.geometry "a").map (fun g => (Valued.value? g.left, Valued.value? g.width)) =
        .ok (some (3 / 4), some (41 / 4)) ∧
      (m.geometry "b").map (fun g => Valued.value? g.left) = .ok (some 11) := by
    refine exists_built ?_
    decide +kernel
  obtain ⟨-, hall⟩ := placed_apart_but_for_a_pixel (Prod.ext h rfl)
  obtain ⟨g, g', hg, hg', hapart⟩ :=
    hall ⟨1, "a", ⟨1, 0, 10, 0⟩⟩ (by simp) ⟨2, "b", ⟨11, 0, 0, 0⟩⟩ (by simp)
  rw [hg] at hvalues
  rw [hg'] at hnext
  obtain ⟨hl, hw⟩ := Prod.mk.inj (Except.ok.inj hvalues)
  have hl' := Except.ok.inj hnext
  have hleft : Scalar.round (g.origin .horizontal) = 1 :=
    (Valued.round_of_value hl).trans (by decide +kernel)
  have hwidth : Scalar.round (g.size .horizontal) = 10 :=
    (Valued.round_of_value hw).trans (by decide +kernel)
  have hright : Scalar.round (g'.origin .horizontal) = 11 :=
    (Valued.round_of_value hl').trans (by decide +kernel)
  have hpair := hapart .horizontal _ _ _ hl hw hl' (by norm_num) (by norm_num [least])
    (by norm_num [least]) (by norm_num [greatest]) (by rw [hleft]; decide) (by rw [hright]; decide)
  refine ⟨m, _, _, hm, h, hpair.2 ?_⟩
  rw [hleft, hwidth]
  norm_num

/-! ## Regions that overlap -/

/-- What is solved of the regions `a` and `b` along the horizontal axis, and where they are placed. -/
structure Shown where
  left : ℚ
  width : ℚ
  next : ℚ
  rect : Rect
  nextRect : Rect
deriving DecidableEq

def shown? (padding : Padding) (m : Model Float) : Option Shown := do
  let g ← (m.geometry "a").toOption
  let g' ← (m.geometry "b").toOption
  match (placedPair padding m).1 with
  | .ok [P, Q] =>
    return ⟨← Valued.value? g.left, ← Valued.value? g.width, ← Valued.value? g'.left, P.rect, Q.rect⟩
  | _ => none

/-- The statements make a model of doubles where `a` is apart from `b` as solved, and not as placed. -/
def Overlaps (padding : Padding) (texts : List String) : Prop :=
  ∃ m : Model Float, Model.build (some texts) 1 100 = .ok m ∧
    ∃ shown, shown? padding m = some shown ∧
      shown.left + shown.width ≤ shown.next ∧ shown.nextRect.x < shown.rect.right

theorem overlaps_of_shown {texts : List String} (shown : Shown)
    (h : Scalar.isPositive (1 : Float) = true ∧
      (Model.opening (1 : Float) 100 (Model.blank 1 100)).1 = .ok () ∧
      (pairBatch texts).1 = .ok () ∧ shown? padding (pairBatch texts).2 = some shown ∧
      shown.left + shown.width ≤ shown.next ∧ shown.nextRect.x < shown.rect.right) :
    Overlaps padding texts := by
  obtain ⟨hpositive, hopening, hbatch, hshown⟩ := h
  exact exists_built ⟨hpositive, hopening, hbatch, shown, hshown⟩

/-- Two halves are rounded up, and the whole that they come to is not. Far to the left an edge is
cut off while the size behind it is not. And far to the right the padding takes an edge past the
thirty-two bits. -/
theorem regions_apart_overlap :
    Overlaps .none ["a.left == 0.5", "a.width == 0.5", "b.left == a.left + a.width"] ∧
      Overlaps .none
        ["a.left == -3000000000", "a.width == 1000000000", "b.left == a.left + a.width"] ∧
      Overlaps ⟨10, 0, 0, 0⟩ ["a.left == 0", "a.width == 5", "b.left == 2147483640"] := by
  refine ⟨?_, ?_, ?_⟩
  · exact overlaps_of_shown ⟨1 / 2, 1 / 2, 1, ⟨1, 0, 1, 0⟩, ⟨1, 0, 0, 0⟩⟩ (by decide +kernel)
  · exact overlaps_of_shown ⟨-3000000000, 1000000000, -2000000000,
      ⟨-2147483648, 0, 1000000000, 0⟩, ⟨-2000000000, 0, 0, 0⟩⟩ (by decide +kernel)
  · exact overlaps_of_shown ⟨0, 5, 2147483640, ⟨10, 0, 5, 0⟩, ⟨-2147483646, 0, 0, 0⟩⟩
      (by decide +kernel)

end Sizing

end RegionLayout
