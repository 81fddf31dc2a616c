-- What a measure pass does to the model. It binds the container on both axes and solves, tells the
-- model the measured sizes that are news and solves again. All of these are calls of the model, so
-- passes that end well keep what successful calls keep: granted models are granted after them.
import RegionLayout.Proofs.Model.Standing
import RegionLayout.Sizing.Pass

namespace RegionLayout

open Solver

/-! ## What a pass asks for -/

namespace MeasureSpec

/-- The value an exact axis is pulled to. -/
def pull? (s : MeasureSpec) : Option Rat :=
  match s.mode with
  | .exact => some s.size
  | _ => none

/-- The value a limited axis is held down to. -/
def cap? (s : MeasureSpec) : Option Rat :=
  match s.mode with
  | .atMost => some s.size
  | _ => none

end MeasureSpec

namespace Sizing

/-- The measured sizes of a child that statements speak of. -/
def Request.told (r : Request) : List (AttributeRef × Int) :=
  match r.measured with
  | none => []
  | some size =>
    (if r.intrinsicWidth then [(⟨r.name, .intrinsicWidth⟩, size.width)] else []) ++
      if r.intrinsicHeight then [(⟨r.name, .intrinsicHeight⟩, size.height)] else []

/-- The measured sizes that a pass tells the model, child by child. -/
def Plan.told (plan : Plan) : List (AttributeRef × Int) := plan.requests.flatMap Request.told

/-- The request is for the child, and a size is wanted where the model has a variable for it. -/
structure Asks (s : Setting) (m : Model Rat) (c : Child) (r : Request) : Prop where
  handle : r.handle = c.handle
  name : s.names.nameOf c.handle = .ok r.name
  width : r.intrinsicWidth = true ↔ m.Has ⟨r.name, .intrinsicWidth⟩
  height : r.intrinsicHeight = true ↔ m.Has ⟨r.name, .intrinsicHeight⟩

/-- The request was answered as well. -/
structure Answers (s : Setting) (m : Model Rat) (c : Child) (r : Request) : Prop
    extends Asks s m c r where
  answered : ∃ size, r.measured = some size

/-! ## Parts of a pass -/

variable {α β : Type} {Q : α → Model Rat → Prop} {R : β → Model Rat → Prop} {p : Pass Rat}
  {m m' m₁ : Model Rat} {s : Setting} {told told' : List (AttributeRef × Int)}

/-- A part of a pass that ends well leaves a model that it may leave. -/
def Ends (Q : α → Model Rat → Prop) (r : Except LayoutError α × Pass Rat) : Prop :=
  ∀ a p, r = (.ok a, p) → Q a p.model

theorem work_bind_apply {N : Type} (f : Work N α) (g : α → Work N β) (p : Pass N) :
    (f >>= g) p = match f p with
      | (.ok a, p') => g a p'
      | (.error e, p') => (.error e, p') := by
  change (match f p with
    | (a, p') => ExceptT.bindCont g a p') = _
  cases f p with
  | mk a p' => cases a <;> rfl

theorem work_bind_ok {N : Type} {f : Work N α} {g : α → Work N β} {p p' : Pass N} {b : β}
    (h : (f >>= g) p = (.ok b, p')) : ∃ a p₁, f p = (.ok a, p₁) ∧ g a p₁ = (.ok b, p') := by
  rw [work_bind_apply] at h
  split at h
  · exact ⟨_, _, ‹_›, h⟩
  · cases h

theorem Ends.bind {f : Work Rat α} {g : α → Work Rat β} (hf : Ends Q (f p))
    (hg : ∀ a p', Q a p'.model → Ends R (g a p')) : Ends R ((f >>= g) p) := by
  intro b p'' h
  obtain ⟨a, p', hfp, h⟩ := work_bind_ok h
  exact hg a p' (hf a p' hfp) b p'' h

theorem work_get_bind {N : Type} (g : Pass N → Work N β) (p : Pass N) : (get >>= g) p = g p p :=
  rfl

theorem ends_pure {a : α} (h : Q a p.model) : Ends Q ((pure a : Work Rat α) p) := by
  intro b p' hr
  obtain ⟨ha, rfl⟩ := Prod.mk.inj hr
  obtain rfl := Except.ok.inj ha
  exact h

theorem ends_throw {e : LayoutError} : Ends Q ((throw e : Work Rat α) p) := by
  intro b p' hr
  obtain ⟨ha, -⟩ := Prod.mk.inj hr
  simp at ha

theorem ends_emit (topic : Log.Topic) (message : String) (fields : List (String × Json)) :
    Ends (fun _ m => m = p.model) (emit topic message fields p) := by
  intro a p' hr
  obtain ⟨-, rfl⟩ := Prod.mk.inj hr
  rfl

theorem ends_solve : Ends (fun _ m => m = p.model.solve) (solve p) := by
  intro a p' hr
  obtain ⟨-, rfl⟩ := Prod.mk.inj hr
  rfl

theorem ask_ok {N : Type} {f : Model N → Except LayoutError α} {p p' : Pass N} {a : α}
    (h : ask f p = (.ok a, p')) : p' = p ∧ f p.model = .ok a := by
  rw [ask, work_get_bind] at h
  cases hf : f p.model with
  | ok b =>
    rw [hf] at h
    obtain ⟨hb, rfl⟩ := Prod.mk.inj h
    exact ⟨rfl, hb⟩
  | error e =>
    rw [hf] at h
    obtain ⟨he, -⟩ := Prod.mk.inj h
    simp at he

theorem ends_ask (f : Model Rat → Except LayoutError α) :
    Ends (fun a m => m = p.model ∧ f p.model = .ok a) (ask f p) := by
  intro a p' hr
  obtain ⟨rfl, hf⟩ := ask_ok hr
  exact ⟨rfl, hf⟩

theorem ends_change {c : Model.Change Rat α} (h : ∀ a m, c p.model = (.ok a, m) → Q a m) :
    Ends Q (change c p) := by
  intro a p' hr
  rw [Sizing.change, work_get_bind] at hr
  cases hc : c p.model with
  | mk answer m' =>
    rw [hc] at hr
    cases answer with
    | ok b =>
      obtain ⟨hb, rfl⟩ := Prod.mk.inj hr
      obtain rfl := Except.ok.inj hb
      exact h b _ hc
    | error e =>
      obtain ⟨he, -⟩ := Prod.mk.inj hr
      simp at he

/-- One question for each of a list, none of which changes the model. -/
theorem ends_mapM {γ δ : Type} {f : γ → Work Rat δ} {P : γ → δ → Prop} (l : List γ)
    (h : ∀ a ∈ l, ∀ p : Pass Rat, p.model = m → Ends (fun b m' => m' = m ∧ P a b) (f a p))
    (hp : p.model = m) : Ends (fun bs m' => m' = m ∧ List.Forall₂ P l bs) (l.mapM f p) := by
  induction l generalizing p with
  | nil => exact ends_pure ⟨hp, .nil⟩
  | cons a l ih =>
    rw [List.mapM_cons]
    refine (h a List.mem_cons_self p hp).bind fun b p₁ ⟨hp₁, hb⟩ => ?_
    refine (ih (fun a ha => h a (List.mem_cons_of_mem _ ha)) hp₁).bind fun bs p₂ ⟨hp₂, hbs⟩ => ?_
    exact ends_pure ⟨hp₂, .cons hb hbs⟩

/-! ## The container -/

theorem granted_of_ok (h : m.Granted) (request : Model.Request)
    (hok : request.perform m = (.ok (), m')) : m'.Granted := by
  have hcall := h.call request (by rw [hok])
  rwa [hok] at hcall

/-- The container has a variable for each of its primary attributes. -/
theorem lookup_container (h : m.Mapped) {a : Attribute} (ha : a.isPrimary = true) :
    m.lookup containerName a = .ok (m.seat ⟨containerName, a⟩) :=
  Model.lookup_seat (h.primary (if_pos rfl) ha)

/-- Nothing that the host measures is a primary attribute of the container. -/
theorem not_measures_container (h : m.Mapped) {a : Attribute} (ha : a.isPrimary = true) :
    ¬ m.Measures (m.seat ⟨containerName, a⟩) := by
  rintro ⟨name, b, hb, hv⟩
  have hseat := Model.varOf?_seat (h.primary (r := m.container) (if_pos rfl) ha)
  obtain ⟨-, rfl⟩ := AttributeRef.mk.inj (h.own hv hseat)
  cases b <;> simp [Attribute.isIntrinsic] at hb <;>
    simp [Attribute.isPrimary, Attribute.primary] at ha

theorem ends_bindContainer (h : p.model.Granted) {a : Attribute} (ha : a.isPrimary = true)
    (spec : MeasureSpec) :
    Ends (fun _ m => m.Granted ∧ Model.Rebound (p.model.seat ⟨containerName, a⟩) spec.pull? spec.cap?
      p.model m) (bindContainer a spec p) := by
  have hw := h.weighed
  have hv := lookup_container hw.toMapped ha
  have hreleased : p.model.released (p.model.seat ⟨containerName, a⟩) = none := by
    cases hr : p.model.released (p.model.seat ⟨containerName, a⟩) with
    | none => rfl
    | some y =>
      exact absurd (hw.weighs.measures_of_released hr) (not_measures_container hw.toMapped ha)
  obtain ⟨mode, size⟩ := spec
  refine ends_change fun answer m hok => ?_
  cases mode with
  | exact =>
    have hset := hw.weighs.setTo hv (size : Rat)
    refine ⟨granted_of_ok h (.setTo containerName a size) hok, ?_⟩
    change Model.setTo containerName a (size : Rat) p.model = _ at hok
    rw [hok] at hset
    exact hset.of_ok.2
  | atMost =>
    have hset := hw.weighs.setAtMost hv (size : Rat)
    refine ⟨granted_of_ok h (.setAtMost containerName a size) hok, ?_⟩
    change Model.setAtMost containerName a (size : Rat) p.model = _ at hok
    rw [hok, hreleased] at hset
    exact hset.of_ok.2
  | unspecified =>
    have hset := hw.weighs.release hv
    refine ⟨granted_of_ok h (.release containerName a) hok, ?_⟩
    change Model.release containerName a p.model = _ at hok
    rw [hok, hreleased] at hset
    exact hset.of_ok.2

/-- The container is tied to what is asked of it on both axes, and the model is solved. -/
structure Confined (width height : MeasureSpec) (m m' : Model Rat) : Prop where
  frame : m' = { m with
    solver := m'.solver, bindings := m'.bindings, nextConstraint := m'.nextConstraint
    values := m'.values, solves := m'.solves }
  targets : m'.solver.target? = Function.update
    (Function.update m.solver.target? (m.seat ⟨containerName, .width⟩) width.pull?)
    (m.seat ⟨containerName, .height⟩) height.pull?
  caps : Model.cap? m'.bindings = Function.update
    (Function.update (Model.cap? m.bindings) (m.seat ⟨containerName, .width⟩) width.cap?)
    (m.seat ⟨containerName, .height⟩) height.cap?

theorem confined_solve {width height : MeasureSpec}
    (hw : Model.Rebound (m.seat ⟨containerName, .width⟩) width.pull? width.cap? m m₁)
    (hh : Model.Rebound (m₁.seat ⟨containerName, .height⟩) height.pull? height.cap? m₁ m') :
    Confined width height m m'.solve := by
  have hseat : m₁.seat ⟨containerName, .height⟩ = m.seat ⟨containerName, .height⟩ := by
    rw [hw.frame]
    rfl
  rw [hseat] at hh
  refine ⟨?_, ?_, ?_⟩
  · rw [hh.frame, hw.frame]
    rfl
  · rw [← hw.targets]
    exact hh.targets
  · rw [← hw.caps]
    exact hh.caps

theorem has_iff {region : Region} {name : String} {a : Attribute}
    (h : m.region name = .ok region) : region.has a = true ↔ m.Has ⟨name, a⟩ := by
  rw [Model.Has, Model.varOf?_of_region (Model.region_eq_ok_iff.1 h)]
  exact SortedMap.contains_eq_true_iff _

theorem ends_requestOf (containerWidth : Int) (parentWidth parentHeight : MeasureMode) (c : Child)
    (hp : p.model = m) :
    Ends (fun r m' => m' = m ∧ Asks s m c r ∧ ∃ region, m.region r.name = .ok region)
      (requestOf s.names containerWidth parentWidth parentHeight c p) := by
  subst hp
  rw [requestOf]
  refine (ends_ask _).bind fun name p₁ ⟨hp₁, hname⟩ => ?_
  refine (ends_ask _).bind fun region p₂ ⟨hp₂, hregion⟩ => ?_
  rw [work_get_bind]
  refine (ends_emit _ _ _).bind fun _ p₃ hp₃ => ends_pure ⟨hp₃.trans (hp₂.trans hp₁), ?_⟩
  rw [hp₁] at hregion
  exact ⟨⟨rfl, hname, has_iff hregion, has_iff hregion⟩, region, hregion⟩

/-- The container is bound on both axes, and the model solved. -/
def confine (s : Setting) (width height : MeasureSpec) : Work Rat Unit := do
  emit .measure "measure_start"
    [("width_spec", .text width.text), ("height_spec", .text height.text)]
  bindContainer .width (width.shrink s.padding.horizontal)
  bindContainer .height (height.shrink s.padding.vertical)
  solve

theorem begin_apply (s : Setting) (children : List Child) (width height : MeasureSpec)
    (p : Pass Rat) : begin s children width height p = (confine s width height >>= fun _ =>
      ask (fun m => return Scalar.round (← m.value containerName .width)) >>= fun containerWidth =>
        (visibleOf children).mapM (requestOf s.names containerWidth width.mode height.mode) >>=
          fun requests => pure { width, height, solvesBefore := p.model.solves, requests }) p := by
  unfold begin confine
  rw [work_get_bind]
  simp only [bind_assoc]

/-- After the container was bound every visible child is asked. -/
theorem ends_begin_of {Q : Model Rat → Prop} {width height : MeasureSpec}
    (hQ : Ends (fun _ m => Q m) (confine s width height p)) (children : List Child) :
    Ends (fun plan m => Q m ∧ List.Forall₂ (fun c r => Asks s m c r ∧
          ∃ region, m.region r.name = .ok region) (visibleOf children) plan.requests ∧
        plan = { plan with width, height, solvesBefore := p.model.solves })
      (begin s children width height p) := by
  rw [begin_apply]
  refine hQ.bind fun _ p₁ h₁ => ?_
  refine (ends_ask _).bind fun containerWidth p₂ ⟨hp₂, _⟩ => ?_
  refine (ends_mapM _ (fun c _ p hp => ends_requestOf _ _ _ c hp) hp₂).bind
    fun requests p₃ ⟨hp₃, hr⟩ => ends_pure ⟨?_, ?_, rfl⟩
  · rw [hp₃]
    exact h₁
  · rw [hp₃]
    exact hr

theorem Asks.of_has {c : Child} {r : Request} (h : Asks s m c r)
    (hm : ∀ ref, m'.Has ref ↔ m.Has ref) : Asks s m' c r :=
  ⟨h.handle, h.name, h.width.trans (hm _).symm, h.height.trans (hm _).symm⟩

theorem ends_confine (h : p.model.Granted) (s : Setting) (width height : MeasureSpec) :
    Ends (fun _ m => m.Granted ∧
        Confined (width.shrink s.padding.horizontal) (height.shrink s.padding.vertical) p.model m)
      (confine s width height p) := by
  rw [confine]
  refine (ends_emit _ _ _).bind fun _ p₁ hp₁ => ?_
  rw [← hp₁] at h ⊢
  refine (ends_bindContainer h (a := .width) rfl _).bind fun _ p₂ ⟨h₂, hw⟩ => ?_
  refine (ends_bindContainer h₂ (a := .height) rfl _).bind fun _ p₃ ⟨h₃, hh⟩ => ?_
  intro _ p₄ hsolve
  have hp₄ := ends_solve _ p₄ hsolve
  rw [hp₄]
  exact ⟨granted_of_ok h₃ .solve rfl, confined_solve hw hh⟩

/-- What the first half of a pass comes to. -/
theorem ends_begin (h : p.model.Granted) (s : Setting) (children : List Child)
    (width height : MeasureSpec) :
    Ends (fun plan m => m.Granted ∧
        Confined (width.shrink s.padding.horizontal) (height.shrink s.padding.vertical) p.model m ∧
        List.Forall₂ (Asks s p.model) (visibleOf children) plan.requests ∧
        plan.width = width ∧ plan.height = height)
      (begin s children width height p) := by
  intro plan p' hbegin
  obtain ⟨⟨hg, hc⟩, hr, hplan⟩ := ends_begin_of (ends_confine h s width height) children plan p' hbegin
  have hhas : ∀ ref, p.model.Has ref ↔ p'.model.Has ref := fun ref => by
    rw [hc.frame]
    rfl
  refine ⟨hg, hc, hr.imp fun c r hcr => hcr.1.of_has hhas, ?_, ?_⟩ <;> rw [hplan]

/-! ## Measured sizes -/

/-- Some of the sizes were suggested, and nothing else was. -/
structure Fed (told : List (AttributeRef × Int)) (m m' : Model Rat) : Prop where
  frame : m' = { m with solver := m'.solver }
  targets : ∀ v, m'.solver.target? v = m.solver.target? v ∨ ∃ ref n, (ref, n) ∈ told ∧
    m.varOf? ref = some v ∧ m'.solver.target? v = some (n : Rat)

theorem Fed.refl (m : Model Rat) : Fed told m m := ⟨rfl, fun _ => .inl rfl⟩

theorem Fed.trans (h : Fed told m m₁) (h' : Fed told' m₁ m') : Fed (told ++ told') m m' := by
  refine ⟨by rw [h'.frame, h.frame], fun v => ?_⟩
  rcases h'.targets v with h₁ | ⟨ref, n, hmem, hv, ht⟩
  · rw [h₁]
    exact (h.targets v).imp_right fun ⟨ref, n, hmem, hv, ht⟩ =>
      ⟨ref, n, List.mem_append_left _ hmem, hv, ht⟩
  · refine .inr ⟨ref, n, List.mem_append_right _ hmem, ?_, ht⟩
    rw [h.frame] at hv
    exact hv

/-- How many of the measured sizes the last solve does not round to. -/
def news (m : Model Rat) (told : List (AttributeRef × Int)) : Nat :=
  told.countP fun e => Scalar.round (m.reported e.1) ≠ e.2

theorem Fed.reported (h : Fed told m m') : m'.reported = m.reported := by
  rw [h.frame]
  rfl

/-- Calls that succeed keep what holds of the model. -/
def Lasts (I : Model Rat → Prop) : Prop :=
  ∀ m m' (request : Model.Request), I m → request.perform m = (.ok (), m') → I m'

theorem lasts_granted : Lasts Model.Granted := fun _ _ request h hok => granted_of_ok h request hok

section Feeding

variable {I : Model Rat → Prop} (hI : Lasts I) (h : I p.model)

include hI h

theorem ends_feed (name : String) (wanted : Bool) (axis : Axis) (measured : Int) :
    Ends (fun edits m => I m ∧
        Fed (if wanted then [(⟨name, axis.intrinsic⟩, measured)] else []) p.model m ∧
        edits = news p.model (if wanted then [(⟨name, axis.intrinsic⟩, measured)] else []))
      (feed name wanted axis measured p) := by
  rw [feed]
  cases wanted with
  | false => exact ends_pure ⟨h, Fed.refl _, rfl⟩
  | true =>
    refine Ends.bind (Q := fun novel m => I m ∧ Fed [(⟨name, axis.intrinsic⟩, measured)] p.model m ∧
      novel = decide (Scalar.round (p.model.reported ⟨name, axis.intrinsic⟩) ≠ measured))
      (ends_change fun novel m hok => ?_) fun novel p₁ hp₁ => ?_
    · have hset := Model.told_of_setIntrinsic name axis measured p.model
      rw [hok] at hset
      obtain ⟨v, hv, ht, hnovel⟩ := hset.of_ok
      refine ⟨hI _ _ (.setIntrinsic name axis measured) h ?_, ⟨ht.frame, fun u => ?_⟩, ?_⟩
      · rw [Model.Request.perform, Model.bind_apply, hok]
        rfl
      · rw [ht.targets]
        split
        · by_cases hu : u = v
          · subst u
            exact .inr ⟨_, measured, List.mem_singleton.2 rfl, hv, by rw [Function.update_self]⟩
          · exact .inl (Function.update_of_ne hu _ _)
        · exact .inl rfl
      · rw [Model.reported_of_some hv]
        exact hnovel
    · obtain ⟨hkept, hfed, hnovel⟩ := hp₁
      have hcount : news p.model [(⟨name, axis.intrinsic⟩, measured)] = if novel then 1 else 0 := by
        rw [hnovel, news, List.countP_singleton]
      rw [if_pos rfl, hcount]
      cases novel with
      | false => exact ends_pure ⟨hkept, hfed, rfl⟩
      | true =>
        refine (ends_emit _ _ _).bind fun _ p₂ hp₂ => ends_pure ⟨?_, ?_, rfl⟩
        · rw [hp₂]
          exact hkept
        · rw [hp₂]
          exact hfed

theorem ends_feedRequest (r : Request) :
    Ends (fun edits m => I m ∧ Fed r.told p.model m ∧ edits = news p.model r.told)
      (feedRequest r p) := by
  rw [feedRequest]
  cases hr : r.measured with
  | none => exact ends_throw
  | some size =>
    refine (ends_feed hI h r.name r.intrinsicWidth .horizontal size.width).bind
      fun _ p₁ ⟨h₁, hf₁, hn₁⟩ => ?_
    refine (ends_feed hI h₁ r.name r.intrinsicHeight .vertical size.height).bind
      fun _ p₂ ⟨h₂, hf₂, hn₂⟩ => ends_pure ?_
    rw [Request.told, hr]
    refine ⟨h₂, hf₁.trans hf₂, ?_⟩
    rw [hn₁, hn₂, news, news, news, hf₁.reported, List.countP_append]
    rfl

theorem ends_feedRequests (requests : List Request) :
    Ends (fun edits m => I m ∧ Fed (requests.flatMap Request.told) p.model m ∧
        edits.foldl (· + ·) 0 = news p.model (requests.flatMap Request.told))
      (requests.mapM feedRequest p) := by
  induction requests generalizing p with
  | nil => exact ends_pure ⟨h, Fed.refl _, rfl⟩
  | cons r rest ih =>
    rw [List.mapM_cons]
    refine (ends_feedRequest hI h r).bind fun n p₁ ⟨h₁, hf₁, hn₁⟩ => ?_
    refine (ih h₁).bind fun ns p₂ ⟨h₂, hf₂, hn₂⟩ => ends_pure ⟨h₂, hf₁.trans hf₂, ?_⟩
    rw [news, hf₁.reported] at hn₂
    rw [List.foldl_cons, Nat.add_comm 0 n, List.foldl_assoc, hn₂, hn₁, List.flatMap_cons, news, news,
      List.countP_append]

/-- What the second half of a pass comes to. -/
theorem ends_finish (s : Setting) (plan : Plan) :
    Ends (fun report m => I m ∧ (∃ m₀, Fed plan.told p.model m₀ ∧ m = m₀.solve) ∧ report =
        { size := ⟨reportAxis plan.width (m.reported ⟨containerName, .width⟩) s.padding.horizontal,
            reportAxis plan.height (m.reported ⟨containerName, .height⟩) s.padding.vertical⟩
          solves := m.solves - plan.solvesBefore, intrinsicEdits := news p.model plan.told
          childrenMeasured := plan.requests.length })
      (finish s plan p) := by
  rw [finish]
  refine (ends_feedRequests hI h _).bind fun edits p₁ ⟨h₁, hf, hn⟩ => ?_
  refine (ends_emit _ _ _).bind fun _ p₂ hp₂ => ?_
  refine ends_solve.bind fun _ p₃ hp₃ => ?_
  refine (ends_ask _).bind fun width p₄ ⟨hp₄, hwidth⟩ => ?_
  refine (ends_ask _).bind fun height p₅ ⟨hp₅, hheight⟩ => ?_
  refine (ends_emit _ _ _).bind fun _ p₆ hp₆ => ?_
  rw [work_get_bind]
  have hmodel : p₆.model = p₁.model.solve := by rw [hp₆, hp₅, hp₄, hp₃, hp₂]
  rw [hp₄] at hheight
  have hsize : p₆.model.reported ⟨containerName, .width⟩ = width ∧
      p₆.model.reported ⟨containerName, .height⟩ = height := by
    rw [Model.reported, Model.reported, hp₆, hp₅, hp₄, hwidth, hheight]
    exact ⟨rfl, rfl⟩
  refine ends_pure ⟨?_, ⟨p₁.model, hf, hmodel⟩, ?_⟩
  · rw [hmodel]
    exact hI _ _ .solve h₁ rfl
  · rw [hsize.1, hsize.2, hn]
    rfl

end Feeding

/-! ## Whole passes -/

section Host

variable {σ : Type} {host : Handle → MeasureSpec → MeasureSpec → StateM σ Size} {h h' : σ}
  {p' : Pass Rat} {children : List Child} {width height : MeasureSpec} {report : Report}

theorem run_requests (requests : List Request) (h : σ) :
    List.Forall₂ (fun r r' => ∃ size, r' = { r with measured := some size }) requests
      (requests.mapM (fun r => do
        return { r with measured := some (← host r.handle r.width r.height) } :
          Request → StateM σ Request) h).1 := by
  induction requests generalizing h with
  | nil => exact .nil
  | cons r rest ih =>
    rw [List.mapM_cons]
    exact .cons ⟨_, rfl⟩ (ih _)

/-- The host answers every request, and changes nothing else about the plan. -/
theorem run_plan (host : Handle → MeasureSpec → MeasureSpec → StateM σ Size) (plan : Plan)
    (h : σ) : ∃ requests, (plan.run host h).1 = { plan with requests } ∧
    List.Forall₂ (fun r r' => ∃ size, r' = { r with measured := some size }) plan.requests
      requests := ⟨_, rfl, run_requests plan.requests h⟩

theorem answers_of_asks {m : Model Rat} {children : List Child} {requests answered : List Request}
    (ha : List.Forall₂ (Asks s m) children requests)
    (hr : List.Forall₂ (fun r r' : Request => ∃ size, r' = { r with measured := some size })
      requests answered) : List.Forall₂ (Answers s m) children answered := by
  induction ha generalizing answered with
  | nil =>
    cases hr
    exact .nil
  | cons hc _ ih =>
    cases hr with
    | cons hsize hrest =>
      obtain ⟨size, rfl⟩ := hsize
      exact .cons ⟨⟨hc.handle, hc.name, hc.width, hc.height⟩, size, rfl⟩ (ih hrest)

theorem child_of_answer {m : Model Rat} {requests : List Request} {r : Request}
    (ha : List.Forall₂ (Answers s m) children requests) (hr : r ∈ requests) :
    ∃ c ∈ children, Answers s m c r := by
  induction ha with
  | nil => simp at hr
  | cons hc _ ih =>
    rcases List.mem_cons.1 hr with rfl | hr
    · exact ⟨_, List.mem_cons_self, hc⟩
    · obtain ⟨c, hmem, hcr⟩ := ih hr
      exact ⟨c, List.mem_cons_of_mem _ hmem, hcr⟩

/-- Only sizes that the model has a measured variable for are told. -/
theorem has_of_told {m : Model Rat} {plan : Plan}
    (ha : List.Forall₂ (Answers s m) (visibleOf children) plan.requests) {e : AttributeRef × Int}
    (he : e ∈ plan.told) : m.Has e.1 ∧ e.1.attr.isIntrinsic = true := by
  obtain ⟨r, hr, he⟩ := List.mem_flatMap.1 he
  obtain ⟨c, -, hcr⟩ := child_of_answer ha hr
  unfold Request.told at he
  split at he
  · simp at he
  · rcases List.mem_append.1 he with he | he
    · split at he
      · rename_i hwanted
        rw [List.mem_singleton.1 he]
        exact ⟨hcr.width.1 hwanted, rfl⟩
      · simp at he
    · split at he
      · rename_i hwanted
        rw [List.mem_singleton.1 he]
        exact ⟨hcr.height.1 hwanted, rfl⟩
      · simp at he

/-- What a measure pass that ends well comes to for the model. -/
structure Passed (s : Setting) (width height : MeasureSpec) (told : List (AttributeRef × Int))
    (report : Report) (m m' : Model Rat) : Prop where
  granted : m'.Granted
  frame : m' = { m with
    solver := m'.solver, bindings := m'.bindings, nextConstraint := m'.nextConstraint
    values := m'.values, solves := m'.solves }
  solved : m'.reported = m'.reading m'.solver.value
  targets : ∀ v, m'.solver.target? v = Function.update (Function.update m.solver.target?
      (m.seat ⟨containerName, .width⟩) (width.shrink s.padding.horizontal).pull?)
      (m.seat ⟨containerName, .height⟩) (height.shrink s.padding.vertical).pull? v ∨
    ∃ ref n, (ref, n) ∈ told ∧ m.varOf? ref = some v ∧ m'.solver.target? v = some (n : Rat)
  caps : Model.cap? m'.bindings = Function.update (Function.update (Model.cap? m.bindings)
    (m.seat ⟨containerName, .width⟩) (width.shrink s.padding.horizontal).cap?)
    (m.seat ⟨containerName, .height⟩) (height.shrink s.padding.vertical).cap?
  width : report.size.width =
    reportAxis width (m'.reported ⟨containerName, .width⟩) s.padding.horizontal
  height : report.size.height =
    reportAxis height (m'.reported ⟨containerName, .height⟩) s.padding.vertical

theorem passed_of_measure (hm : p.model.Granted)
    (hpass : measure s children width height host p h = (.ok report, p', h')) :
    ∃ plan, (begin s children width height p).1 = .ok plan ∧
      List.Forall₂ (Answers s p.model) (visibleOf children) (plan.run host h).1.requests ∧
      Passed s width height (plan.run host h).1.told report p.model p'.model := by
  unfold measure at hpass
  split at hpass
  · simp at hpass
  · rename_i plan p₁ hbegin
    obtain ⟨hg₁, hc, ha, hwidth, hheight⟩ := ends_begin hm s children width height plan p₁ hbegin
    have hrest : finish s (plan.run host h).1 p₁ = (.ok report, p') :=
      Prod.ext (Prod.mk.inj hpass).1 (Prod.mk.inj (Prod.mk.inj hpass).2).1
    obtain ⟨hg, ⟨m₀, hf, hsolve⟩, hreport⟩ := ends_finish lasts_granted hg₁ s _ report p' hrest
    obtain ⟨answered, hrun, hanswers⟩ := run_plan host plan h
    refine ⟨plan, by rw [hbegin], ?_, hg, ?_, ?_, fun v => ?_, ?_, ?_, ?_⟩
    · rw [hrun]
      exact answers_of_asks ha hanswers
    · rw [hsolve, hf.frame, hc.frame]
      rfl
    · rw [hsolve, Model.reported_solve]
      rfl
    · rw [hsolve, ← hc.targets]
      refine (hf.targets v).imp_right fun ⟨ref, n, hmem, hv, ht⟩ => ⟨ref, n, hmem, ?_, ht⟩
      rw [hc.frame] at hv
      exact hv
    · rw [hsolve, ← hc.caps]
      change Model.cap? m₀.bindings = _
      rw [hf.frame]
    · rw [hreport, hrun, hwidth]
    · rw [hreport, hrun, hheight]

end Host

end Sizing

end RegionLayout
