-- A measure pass that is made once more. The host answers as before, so the second pass asks and
-- tells what the first one did. What was asked of the container stands, and a size that is solved or
-- pulled to already changes nothing, so the layout stays as it is. But a size is compared with what
-- was solved last, not with what it was told last: one that is held away from the solved value is
-- told again in every pass.
import RegionLayout.Proofs.Sizing.Yielding

namespace RegionLayout

open Solver

/-- What the size of a container is bound to. -/
def MeasureSpec.wish (s : MeasureSpec) : Option (Model.Wish Rat) :=
  match s.mode with
  | .exact => some (.exactly s.size)
  | .atMost => some (.atMost s.size)
  | .unspecified => none

namespace Model

variable {m : Model Rat}

/-! ## Solving twice -/

/-- A second solve finds what the first one found. -/
theorem solve_solve (m : Model Rat) : m.solve.solve = { m.solve with solves := m.solves + 2 } := by
  have hvalues : m.solve.solve.values = m.solve.values := by
    apply SortedMap.ext_get?
    intro v
    rw [get?_solve, get?_solve]
    by_cases hv : v ∈ m.vars
    · rw [if_pos hv, if_pos (show v ∈ m.solve.vars from hv)]
      rfl
    · rw [if_neg hv, if_neg (show v ∉ m.solve.vars from hv)]
  calc m.solve.solve
      = { m with values := m.solve.solve.values, solves := m.solves + 2 } := rfl
    _ = { m.solve with solves := m.solves + 2 } := by rw [hvalues]; rfl

theorem slot?_seat (h : m.Mapped) {a : Attribute} (ha : a.isPrimary = true) :
    m.slot? ⟨containerName, a⟩ = some (m.seat ⟨containerName, a⟩) :=
  varOf?_seat (h.primary (r := m.container) (if_pos rfl) ha)

end Model

namespace Sizing

variable {σ α β : Type} {Q Q' : α → Model Rat → Prop} {R : β → Model Rat → Prop}
  {p p' : Pass Rat} {m m' m₀ : Model Rat} {s : Setting} {children : List Child}
  {width height : MeasureSpec} {report : Report} {told : List (AttributeRef × Int)}

/-! ## Parts of a pass that end well -/

/-- A part of a pass ends well, and leaves a model that it may leave. -/
def Lands (Q : α → Model Rat → Prop) (r : Except LayoutError α × Pass Rat) : Prop :=
  ∃ a p, r = (.ok a, p) ∧ Q a p.model

theorem Lands.ends {r : Except LayoutError α × Pass Rat} (h : Lands Q r) : Ends Q r := by
  obtain ⟨a, p, rfl, hq⟩ := h
  intro b p' hr
  obtain ⟨ha, rfl⟩ := Prod.mk.inj hr
  obtain rfl := Except.ok.inj ha
  exact hq

theorem Lands.and {r : Except LayoutError α × Pass Rat} (h : Lands Q r) (h' : Ends Q' r) :
    Lands (fun a m => Q a m ∧ Q' a m) r := by
  obtain ⟨a, p, hr, hq⟩ := h
  exact ⟨a, p, hr, hq, h' a p hr⟩

theorem Lands.imp {r : Except LayoutError α × Pass Rat} (h : Lands Q r)
    (hQ : ∀ a m, Q a m → Q' a m) : Lands Q' r := by
  obtain ⟨a, p, hr, hq⟩ := h
  exact ⟨a, p, hr, hQ a _ hq⟩

theorem Lands.bind {f : Work Rat α} {g : α → Work Rat β} (hf : Lands Q (f p))
    (hg : ∀ a p', Q a p'.model → Lands R (g a p')) : Lands R ((f >>= g) p) := by
  obtain ⟨a, p', hfp, hq⟩ := hf
  rw [work_bind_apply, hfp]
  exact hg a p' hq

theorem lands_pure {a : α} (h : Q a p.model) : Lands Q ((pure a : Work Rat α) p) := ⟨a, p, rfl, h⟩

theorem lands_emit (topic : Log.Topic) (message : String) (fields : List (String × Json)) :
    Lands (fun _ m => m = p.model) (emit topic message fields p) := ⟨(), _, rfl, rfl⟩

theorem lands_solve : Lands (fun _ m => m = p.model.solve) (solve p) := ⟨(), _, rfl, rfl⟩

theorem lands_ask {f : Model Rat → Except LayoutError α} {a : α} (h : f p.model = .ok a) :
    Lands (fun b m => m = p.model ∧ b = a) (ask f p) := by
  refine ⟨a, p, ?_, rfl, rfl⟩
  rw [ask, work_get_bind, h]
  rfl

theorem lands_change {c : Model.Change Rat α} {a : α} (h : c p.model = (.ok a, m)) :
    Lands (fun b m' => m' = m ∧ b = a) (change c p) := by
  refine ⟨a, { p with model := m }, ?_, rfl, rfl⟩
  rw [Sizing.change, work_get_bind, h]
  rfl

/-- One step for each of a list, none of which changes the model. -/
theorem lands_mapM {γ δ : Type} {f : γ → Work Rat δ} (l : List γ)
    (h : ∀ a ∈ l, ∀ p : Pass Rat, p.model = m → Lands (fun _ m' => m' = m) (f a p))
    (hp : p.model = m) : Lands (fun _ m' => m' = m) (l.mapM f p) := by
  induction l generalizing p with
  | nil => exact lands_pure hp
  | cons a l ih =>
    rw [List.mapM_cons]
    refine (h a List.mem_cons_self p hp).bind fun b p₁ hp₁ => ?_
    refine (ih (fun a ha => h a (List.mem_cons_of_mem _ ha)) hp₁).bind fun bs p₂ hp₂ => ?_
    exact lands_pure hp₂

/-! ## What a first pass leaves -/

theorem lasts_reachable : Lasts Model.Reachable := by
  intro m m' request h hok
  have hcall := h.call request (by rw [hok]; simp)
  rwa [hok] at hcall

theorem bindContainer_eq (a : Attribute) (spec : MeasureSpec) : bindContainer (R := Rat) a spec =
    change (Model.Command.bind ⟨containerName, a⟩ spec.wish).perform := by
  obtain ⟨mode, size⟩ := spec
  cases mode <;> rfl

/-- The container is bound as it is asked to be on both axes. -/
structure Bound (s : Setting) (width height : MeasureSpec) (m : Model Rat) : Prop where
  width : m.Stands (width.shrink s.padding.horizontal).wish (m.seat ⟨containerName, .width⟩)
  height : m.Stands (height.shrink s.padding.vertical).wish (m.seat ⟨containerName, .height⟩)

theorem Bound.solve (h : Bound s width height m) : Bound s width height m.solve :=
  ⟨h.width, h.height⟩

theorem reachable_of_solve (h : m.Reachable) (hm' : m' = m.solve) : m'.Reachable := by
  rw [hm']
  exact lasts_reachable _ _ .solve h rfl

theorem ends_bindContainer_stands (h : p.model.Reachable) {a : Attribute} (ha : a.isPrimary = true)
    (spec : MeasureSpec) :
    Ends (fun _ m => m.Reachable ∧ m.Stands spec.wish (p.model.seat ⟨containerName, a⟩) ∧
      Model.Elsewhere (p.model.seat ⟨containerName, a⟩) p.model m) (bindContainer a spec p) := by
  rw [bindContainer_eq]
  refine ends_change fun _ m hok => ?_
  have hbind := Model.stands_of_bind (Model.slot?_seat h.settled.toMapped ha) spec.wish
  rw [hok] at hbind
  refine ⟨lasts_reachable _ _ (Model.Command.bind ⟨containerName, a⟩ spec.wish).request h ?_,
    hbind.of_ok⟩
  rw [Model.Command.perform_request]
  exact hok

theorem ends_confine_bound (h : p.model.Reachable) (s : Setting) (width height : MeasureSpec) :
    Ends (fun _ m => m.Reachable ∧ Bound s width height m ∧ m = { p.model with
        solver := m.solver, bindings := m.bindings, nextConstraint := m.nextConstraint
        values := m.values, solves := p.model.solves + 1 })
      (confine s width height p) := by
  rw [confine]
  refine (ends_emit _ _ _).bind fun _ p₁ hp₁ => ?_
  rw [← hp₁] at h ⊢
  refine (ends_bindContainer_stands h (a := .width) rfl _).bind fun _ p₂ hp₂ => ?_
  obtain ⟨h₂, hs₂, he₂⟩ := hp₂
  refine (ends_bindContainer_stands h₂ (a := .height) rfl _).bind fun _ p₃ hp₃ => ?_
  obtain ⟨h₃, hs₃, he₃⟩ := hp₃
  intro _ p₄ hsolve
  have hp₄ := ends_solve _ p₄ hsolve
  have hseat₂ : ∀ ref, p₂.model.seat ref = p₁.model.seat ref := fun ref => by
    rw [he₂.frame]
    rfl
  have hseat₃ : ∀ ref, p₃.model.solve.seat ref = p₁.model.seat ref := fun ref => by
    rw [← hseat₂, he₃.frame]
    rfl
  rw [hseat₂] at hs₃ he₃
  have hne := Model.seat_container_ne h.settled.toMapped
  rw [hp₄]
  refine ⟨lasts_reachable _ _ .solve h₃ rfl, ⟨?_, ?_⟩, ?_⟩
  · rw [hseat₃]
    exact he₃.stands hne hs₂
  · rw [hseat₃]
    exact hs₃
  · rw [he₃.frame, he₂.frame]
    rfl

/-- What is told to a model is not told to its container. -/
theorem Fed.bound (h : Fed told m m') (hm : m.Mapped) (ht : Measured m told)
    (hb : Bound s width height m) : Bound s width height m' := by
  have hstands : ∀ {a : Attribute}, a.isPrimary = true → ∀ wish,
      m.Stands wish (m.seat ⟨containerName, a⟩) → m'.Stands wish (m'.seat ⟨containerName, a⟩) := by
    intro a ha wish hs
    have hseat : m'.seat ⟨containerName, a⟩ = m.seat ⟨containerName, a⟩ := by
      rw [h.frame]
      rfl
    have hbindings : m'.bindings = m.bindings := by rw [h.frame]
    have htarget : m'.solver.target? (m.seat ⟨containerName, a⟩) =
        m.solver.target? (m.seat ⟨containerName, a⟩) := by
      rcases h.targets (m.seat ⟨containerName, a⟩) with heq | ⟨ref, n, he, hv, -⟩
      · exact heq
      · exact absurd (ht.measures he hv) (not_measures_container hm ha)
    unfold Model.Stands at *
    rw [hseat, hbindings, htarget]
    exact hs
  exact ⟨hstands rfl _ hb.width, hstands rfl _ hb.height⟩

/-- The children have names, and there are regions of these names. -/
def Asked (s : Setting) (m : Model Rat) (c : Child) (r : Request) : Prop :=
  Asks s m c r ∧ ∃ region, m.region r.name = .ok region

theorem Asked.of_regions {c : Child} {r : Request} (h : Asked s m c r)
    (hm : m'.region? = m.region?) : Asked s m' c r := by
  have hhas : ∀ ref, m'.Has ref ↔ m.Has ref := by
    intro ref
    unfold Model.Has Model.varOf?
    rw [hm]
  obtain ⟨ha, region, hr⟩ := h
  refine ⟨ha.of_has hhas, region, ?_⟩
  unfold Model.region at *
  rw [hm]
  exact hr

theorem request_of_child {requests : List Request} {c : Child}
    (ha : List.Forall₂ (Asked s m) children requests) (hc : c ∈ children) :
    ∃ r, Asked s m c r := by
  induction ha with
  | nil => simp at hc
  | cons hfirst _ ih =>
    rcases List.mem_cons.1 hc with rfl | hc
    · exact ⟨_, hfirst⟩
    · exact ih hc

/-- What a pass leaves that ended well. -/
structure Left (s : Setting) (children : List Child) (width height : MeasureSpec) (plan : Plan)
    (report : Report) (m : Model Rat) : Prop where
  reachable : m.Reachable
  bound : Bound s width height m
  solved : ∃ m₀ : Model Rat, m = m₀.solve
  asked : List.Forall₂ (Asked s m) (visibleOf children) plan.requests
  report : report =
    { size := ⟨reportAxis width (m.reported ⟨containerName, .width⟩) s.padding.horizontal,
        reportAxis height (m.reported ⟨containerName, .height⟩) s.padding.vertical⟩
      solves := 2, intrinsicEdits := report.intrinsicEdits
      childrenMeasured := (visibleOf children).length }

section Host

variable {host : Handle → MeasureSpec → MeasureSpec → StateM σ Size} {h h' : σ}
  {size : Handle → Size}

theorem begin_of_measure
    (hpass : measure s children width height host p h = (.ok report, p', h')) :
    ∃ plan p₁, begin s children width height p = (.ok plan, p₁) ∧
      finish s (plan.run host h).1 p₁ = (.ok report, p') := by
  unfold measure at hpass
  split at hpass
  · simp at hpass
  · rename_i plan p₁ hbegin
    exact ⟨plan, p₁, hbegin, Prod.ext (Prod.mk.inj hpass).1 (Prod.mk.inj (Prod.mk.inj hpass).2).1⟩

theorem measure_of_finish {plan : Plan} {p₁ : Pass Rat}
    (hbegin : begin s children width height p = (.ok plan, p₁))
    (hfinish : finish s (plan.run host h).1 p₁ = (.ok report, p')) :
    measure s children width height host p h = (.ok report, p', (plan.run host h).2) := by
  unfold measure
  rw [hbegin]
  change (match finish s (plan.run host h).1 p₁ with
    | (report, p) => (report, p, (plan.run host h).2)) = _
  rw [hfinish]

/-- What a plan was made for does not change when it is run. -/
theorem run_header (host : Handle → MeasureSpec → MeasureSpec → StateM σ Size) {plan : Plan}
    {n : Nat} (hplan : plan = { plan with width, height, solvesBefore := n }) (h : σ) :
    (plan.run host h).1.width = width ∧ (plan.run host h).1.height = height ∧
      (plan.run host h).1.solvesBefore = n := by
  obtain ⟨answered, hrun, -⟩ := run_plan host plan h
  rw [hrun, hplan]
  exact ⟨rfl, rfl, rfl⟩

theorem left_of_measure (hm : p.model.Reachable)
    (hpass : measure s children width height host p h = (.ok report, p', h')) :
    ∃ plan, (begin s children width height p).1 = .ok plan ∧
      List.Forall₂ (Answers s p.model) (visibleOf children) (plan.run host h).1.requests ∧
      Left s children width height plan report p'.model := by
  obtain ⟨plan, p₁, hbegin, hfinish⟩ := begin_of_measure hpass
  obtain ⟨⟨hr₁, hb₁, hframe₁⟩, hasked, hplan⟩ :=
    ends_begin_of (ends_confine_bound hm s width height) children plan p₁ hbegin
  obtain ⟨answered, hrun, hanswers⟩ := run_plan host plan h
  have hasks : List.Forall₂ (Asks s p.model) (visibleOf children) plan.requests :=
    hasked.imp fun c r hcr => hcr.1.of_has fun ref => by
      rw [hframe₁]
      rfl
  have hall : List.Forall₂ (Answers s p.model) (visibleOf children)
      (plan.run host h).1.requests := by
    rw [hrun]
    exact answers_of_asks hasks hanswers
  have htold : Measured p₁.model (plan.run host h).1.told := by
    intro e he
    obtain ⟨hhas, hi⟩ := has_of_told hall he
    rw [hframe₁]
    exact ⟨hhas, hi⟩
  obtain ⟨hr, ⟨m₀, hf, hsolve⟩, hreport⟩ := ends_finish lasts_reachable hr₁ s _ report p' hfinish
  have hregions : p'.model.region? = p₁.model.region? := by
    rw [hsolve, hf.frame]
    rfl
  refine ⟨plan, by rw [hbegin], hall, hr, ?_, ⟨m₀, hsolve⟩, ?_, ?_⟩
  · rw [hsolve]
    exact (hf.bound hr₁.settled.toMapped htold hb₁).solve
  · exact hasked.imp fun c r hcr => Asked.of_regions hcr hregions
  · obtain ⟨hwidth, hheight, hbefore⟩ := run_header host hplan h
    have hlen : (plan.run host h).1.requests.length = (visibleOf children).length :=
      hall.length_eq.symm
    have hsolves : p'.model.solves - p.model.solves = 2 := by
      rw [hsolve, hf.frame, hframe₁]
      exact Nat.add_sub_cancel_left p.model.solves 2
    rw [hreport, hwidth, hheight, hbefore, hsolves, hlen]

/-! ## The same pass again -/

/-- A host with one size for each child answers the same to whatever it is asked. -/
theorem run_fixed (hhost : ∀ handle w h st, (host handle w h st).1 = size handle) (plan : Plan)
    (st : σ) : (plan.run host st).1 = { plan with
      requests := plan.requests.map fun r => { r with measured := some (size r.handle) } } := by
  have hrequests : ∀ (requests : List Request) (st : σ), (requests.mapM (fun r => do
      return { r with measured := some (← host r.handle r.width r.height) } :
        Request → StateM σ Request) st).1 =
      requests.map fun r => { r with measured := some (size r.handle) } := by
    intro requests
    induction requests with
    | nil => exact fun _ => rfl
    | cons r rest ih =>
      intro st
      rw [List.mapM_cons, List.map_cons, ← hhost r.handle r.width r.height st,
        ← ih (host r.handle r.width r.height st).2]
      rfl
  change ({ plan with requests := _ } : Plan) = _
  rw [← hrequests plan.requests st]
  rfl

/-- Two passes over one model tell it the same. -/
theorem told_eq (hhost : ∀ handle w h st, (host handle w h st).1 = size handle)
    {plan plan' : Plan} (ha : List.Forall₂ (Asks s m) children plan.requests)
    (ha' : List.Forall₂ (Asks s m) children plan'.requests) (st st' : σ) :
    (plan'.run host st').1.told = (plan.run host st).1.told := by
  rw [run_fixed hhost, run_fixed hhost]
  unfold Plan.told
  dsimp only
  generalize plan.requests = requests at ha ⊢
  generalize plan'.requests = requests' at ha' ⊢
  induction ha generalizing requests' with
  | nil =>
    cases ha'
    rfl
  | cons hc _ ih =>
    cases ha' with
    | cons hc' hrest =>
      have hname := Except.ok.inj (hc'.name.symm.trans hc.name)
      have hhandle := hc'.handle.trans hc.handle.symm
      have hwidth : _ = _ := Bool.eq_iff_iff.2 (hc'.width.trans (hname ▸ hc.width.symm))
      have hheight : _ = _ := Bool.eq_iff_iff.2 (hc'.height.trans (hname ▸ hc.height.symm))
      rw [List.map_cons, List.map_cons, List.flatMap_cons, List.flatMap_cons, ih _ hrest]
      unfold Request.told
      dsimp only
      rw [hname, hhandle, hwidth, hheight]

end Host

section Again

/-- Each measured size is what the last solve rounds to, or what its edit variable is pulled to. -/
def Heeded (m : Model Rat) (told : List (AttributeRef × Int)) : Prop :=
  ∀ e ∈ told, Scalar.round (m.reported e.1) = e.2 ∨
    m.solver.target? (m.seat e.1) = some (e.2 : Rat)

theorem Heeded.of_subset {told' : List (AttributeRef × Int)} (h : Heeded m told')
    (hsub : told ⊆ told') : Heeded m told := fun e he => h e (hsub he)

variable (hr : p.model.Reachable)

include hr

theorem lands_bindContainer {a : Attribute} (ha : a.isPrimary = true) {spec : MeasureSpec}
    (hs : p.model.Stands spec.wish (p.model.seat ⟨containerName, a⟩)) :
    Lands (fun _ m => m = p.model) (bindContainer a spec p) := by
  rw [bindContainer_eq]
  have hslot := Model.slot?_seat hr.settled.toMapped ha
  exact (lands_change (hr.bind_again hslot hs)).imp fun _ _ hm => hm.1

theorem lands_confine (hb : Bound s width height p.model) :
    Lands (fun _ m => m = p.model.solve) (confine s width height p) := by
  rw [confine]
  refine (lands_emit _ _ _).bind fun _ p₁ hp₁ => ?_
  rw [← hp₁] at hr hb ⊢
  refine (lands_bindContainer hr (a := .width) rfl hb.width).bind fun _ p₂ hp₂ => ?_
  rw [← hp₂] at hr hb ⊢
  refine (lands_bindContainer hr (a := .height) rfl hb.height).bind fun _ p₃ hp₃ => ?_
  rw [← hp₃]
  exact lands_solve

omit hr in
theorem lands_requestOf {c : Child} {r : Request} (ha : Asked s p.model c r)
    (containerWidth : Int) (parentWidth parentHeight : MeasureMode) :
    Lands (fun _ m => m = p.model)
      (requestOf s.names containerWidth parentWidth parentHeight c p) := by
  obtain ⟨hasks, region, hregion⟩ := ha
  rw [requestOf]
  refine (lands_ask hasks.name).bind fun _ p₁ hp₁ => ?_
  obtain ⟨hp₁, rfl⟩ := hp₁
  rw [← hp₁] at hregion ⊢
  refine (lands_ask hregion).bind fun _ p₂ hp₂ => ?_
  obtain ⟨hp₂, rfl⟩ := hp₂
  rw [work_get_bind, ← hp₂]
  exact (lands_emit _ _ _).bind fun _ p₃ hp₃ => lands_pure hp₃

theorem value_container {a : Attribute} (ha : a.isPrimary = true) :
    p.model.value containerName a = .ok (p.model.reported ⟨containerName, a⟩) := by
  have hhas := hr.settled.primary (r := p.model.container) (if_pos rfl) ha
  exact Model.reported_of_has hhas

theorem lands_begin (hb : Bound s width height p.model) {requests : List Request}
    (ha : List.Forall₂ (Asked s p.model) (visibleOf children) requests) :
    Lands (fun _ m => m = p.model.solve) (begin s children width height p) := by
  rw [begin_apply]
  refine (lands_confine hr hb).bind fun _ p₁ hp₁ => ?_
  have hr₁ := reachable_of_solve hr hp₁
  have hvalue : (do return Scalar.round (← p₁.model.value containerName .width) :
      Except LayoutError Int) = .ok (Scalar.round (p₁.model.reported ⟨containerName, .width⟩)) := by
    rw [value_container hr₁ rfl]
    rfl
  refine (lands_ask hvalue).bind fun containerWidth p₂ hp₂ => ?_
  have hmodel : p₂.model = p.model.solve := hp₂.1.trans hp₁
  refine (lands_mapM (m := p.model.solve) _ (fun c hc p₃ hp₃ => ?_) hmodel).bind
    fun _ p₄ hp₄ => lands_pure hp₄
  obtain ⟨r, hcr⟩ := request_of_child ha hc
  rw [← hp₃]
  exact lands_requestOf (hcr.of_regions (by rw [hp₃]; rfl)) _ _ _

/-- A measured size that is heeded changes nothing when it is told again. -/
theorem lands_feed {name : String} {wanted : Bool} {axis : Axis} {measured : Int}
    (hhas : wanted = true → p.model.Has ⟨name, axis.intrinsic⟩)
    (hh : Heeded p.model (if wanted then [(⟨name, axis.intrinsic⟩, measured)] else [])) :
    Lands (fun _ m => m = p.model) (feed name wanted axis measured p) := by
  rw [feed]
  cases wanted with
  | false => exact lands_pure rfl
  | true =>
    have hv := Model.varOf?_seat (hhas rfl)
    have hsize := hh (⟨name, axis.intrinsic⟩, measured) (by simp)
    rw [Model.reported_of_some hv] at hsize
    refine (lands_change (hr.setIntrinsic_again hv hsize)).bind fun novel p₁ hp₁ => ?_
    cases novel with
    | false => exact lands_pure hp₁.1
    | true =>
      refine (lands_emit _ _ _).bind fun _ p₂ hp₂ => lands_pure ?_
      rw [hp₂, hp₁.1]

theorem lands_feedRequest {c : Child} {r : Request} (ha : Answers s p.model c r)
    (hh : Heeded p.model r.told) : Lands (fun _ m => m = p.model) (feedRequest r p) := by
  obtain ⟨size, hsize⟩ := ha.answered
  rw [feedRequest, hsize]
  have htold : r.told =
      (if r.intrinsicWidth then [(⟨r.name, Axis.horizontal.intrinsic⟩, size.width)] else []) ++
      if r.intrinsicHeight then [(⟨r.name, Axis.vertical.intrinsic⟩, size.height)] else [] := by
    rw [Request.told, hsize]
    rfl
  rw [htold] at hh
  refine (lands_feed hr ha.width.1 (hh.of_subset (by simp))).bind fun _ p₁ hp₁ => ?_
  rw [← hp₁] at hr ha hh ⊢
  refine (lands_feed hr ha.height.1 (hh.of_subset (by simp))).bind fun _ p₂ hp₂ => ?_
  exact lands_pure hp₂

theorem lands_finish {plan : Plan}
    (ha : List.Forall₂ (Answers s p.model) (visibleOf children) plan.requests)
    (hh : Heeded p.model plan.told) :
    Lands (fun _ m => m = p.model.solve) (finish s plan p) := by
  rw [finish]
  have hfeed : Lands (fun _ m => m = p.model) (plan.requests.mapM feedRequest p) := by
    refine lands_mapM (m := p.model) _ (fun r hmem p₁ hp₁ => ?_) rfl
    obtain ⟨c, -, hcr⟩ := child_of_answer ha hmem
    rw [← hp₁] at hr hcr hh ⊢
    exact lands_feedRequest hr hcr (hh.of_subset fun e he => List.mem_flatMap.2 ⟨r, hmem, he⟩)
  refine hfeed.bind fun edits p₁ hp₁ => ?_
  refine (lands_emit _ _ _).bind fun _ p₂ hp₂ => ?_
  refine lands_solve.bind fun _ p₃ hp₃ => ?_
  have hmodel : p₃.model = p.model.solve := by rw [hp₃, hp₂, hp₁]
  have hr₃ := reachable_of_solve hr hmodel
  refine (lands_ask (value_container hr₃ rfl)).bind fun width p₄ hp₄ => ?_
  refine (lands_ask (by rw [hp₄.1]; exact value_container hr₃ rfl)).bind fun height p₅ hp₅ => ?_
  refine (lands_emit _ _ _).bind fun _ p₆ hp₆ => ?_
  rw [work_get_bind]
  refine lands_pure ?_
  rw [hp₆, hp₅.1, hp₄.1, hmodel]

end Again

/-! ## Placing -/

section Placing

/-- A part of a pass has this answer, and leaves the model. -/
def Finds (m : Model Rat) (x : Except LayoutError α) (r : Except LayoutError α × Pass Rat) : Prop :=
  r.1 = x ∧ r.2.model = m

theorem Finds.bind {x : Except LayoutError α} {f : Work Rat α} {y : α → Except LayoutError β}
    {g : α → Work Rat β} (hf : Finds m x (f p))
    (hg : ∀ a p', p'.model = m → Finds m (y a) (g a p')) : Finds m (x >>= y) ((f >>= g) p) := by
  obtain ⟨rfl, hmodel⟩ := hf
  rw [work_bind_apply]
  generalize f p = r at hmodel
  obtain ⟨answer, p₁⟩ := r
  cases answer with
  | error e => exact ⟨rfl, hmodel⟩
  | ok a => exact hg a p₁ hmodel

theorem finds_pure (hp : p.model = m) (a : α) : Finds m (pure a) ((pure a : Work Rat α) p) :=
  ⟨rfl, hp⟩

theorem finds_emit (hp : p.model = m) (topic : Log.Topic) (message : String)
    (fields : List (String × Json)) : Finds m (pure ()) (emit topic message fields p) := ⟨rfl, hp⟩

theorem finds_ask (hp : p.model = m) (f : Model Rat → Except LayoutError α) :
    Finds m (f m) (ask f p) := by
  subst hp
  rw [ask, work_get_bind]
  cases f p.model with
  | ok a => exact ⟨rfl, rfl⟩
  | error e => exact ⟨rfl, rfl⟩

theorem finds_mapM {γ : Type} {x : γ → Except LayoutError α} {f : γ → Work Rat α}
    (h : ∀ a p, p.model = m → Finds m (x a) (f a p)) (l : List γ) (hp : p.model = m) :
    Finds m (l.mapM x) (l.mapM f p) := by
  induction l generalizing p with
  | nil => exact ⟨rfl, hp⟩
  | cons a l ih =>
    rw [List.mapM_cons, List.mapM_cons]
    refine (h a p hp).bind fun b p₁ hp₁ => ?_
    exact (ih hp₁).bind fun bs p₂ hp₂ => finds_pure hp₂ (b :: bs)

/-- Where a child is in the layout that was solved last. -/
def placedAt (s : Setting) (m : Model Rat) (c : Child) : Except LayoutError Placement := do
  let name ← s.names.nameOf c.handle
  let g ← m.geometry name
  return { handle := c.handle, name, rect := rectOf s.padding g }

/-- Where the visible children are in the layout that was solved last. -/
def placed (s : Setting) (children : List Child) (m : Model Rat) :
    Except LayoutError (List Placement) := do
  let _ ← m.geometry containerName
  (visibleOf children).mapM (placedAt s m)

theorem finds_placementOf (hp : p.model = m) (s : Setting) (c : Child) :
    Finds m (placedAt s m c) (placementOf s c p) := by
  unfold placementOf
  refine (finds_ask hp _).bind fun name p₁ hp₁ => ?_
  refine (finds_ask hp₁ (·.geometry name)).bind fun g p₂ hp₂ => ?_
  exact (finds_emit hp₂ _ _ _).bind (y := fun _ => pure _) fun _ p₃ hp₃ => finds_pure hp₃ _

theorem place_apply (s : Setting) (children : List Child) (p : Pass Rat) :
    (place s children p).1 = placed s children p.model.solve := by
  suffices h : Finds p.model.solve (placed s children p.model.solve) (place s children p) from h.1
  unfold place positions
  have hsolve : Finds p.model.solve (pure ()) (solve p) := ⟨rfl, rfl⟩
  refine hsolve.bind (y := fun _ => placed s children p.model.solve) fun _ p₁ hp₁ => ?_
  refine (finds_ask hp₁ (·.geometry containerName)).bind fun g p₂ hp₂ => ?_
  refine (finds_emit hp₂ _ _ _).bind (y := fun _ => (visibleOf children).mapM _) fun _ p₃ hp₃ => ?_
  have hall := finds_mapM (fun c p hp => finds_placementOf hp s c) (visibleOf children) hp₃
  rw [← bind_pure ((visibleOf children).mapM (placedAt s p.model.solve))]
  refine hall.bind fun placements p₄ hp₄ => ?_
  exact (finds_emit hp₄ _ _ _).bind (y := fun _ => pure _) fun _ p₅ hp₅ => finds_pure hp₅ _

/-- How often a model was solved does not show. -/
theorem placed_of_solves (s : Setting) (children : List Child) (m : Model Rat) (n : Nat) :
    placed s children { m with solves := n } = placed s children m := rfl

end Placing

/-! ## Repeated passes -/

section Repeated

variable {host : Handle → MeasureSpec → MeasureSpec → StateM σ Size} {h h' : σ}
  {size : Handle → Size} {plan : Plan}

theorem reported_again (hsolved : ∃ m₀ : Model Rat, m = m₀.solve) :
    m.solve.reported = m.reported := by
  obtain ⟨m₀, rfl⟩ := hsolved
  rw [Model.reported_solve, Model.reported_solve]
  rfl

theorem news_again (hsolved : ∃ m₀ : Model Rat, m = m₀.solve) (told : List (AttributeRef × Int)) :
    news m.solve told = news m told := by
  rw [news, news, reported_again hsolved]

/-- The second pass asks what the first one asked, and finds the layout of the first. -/
theorem Left.begin_again (hl : Left s children width height plan report p.model) :
    ∃ plan' p₁, begin s children width height p = (.ok plan', p₁) ∧ p₁.model = p.model.solve ∧
      List.Forall₂ (Asks s p.model) (visibleOf children) plan'.requests ∧
      plan' = { plan' with width, height, solvesBefore := p.model.solves } := by
  have hconfine := (lands_confine (s := s) hl.reachable hl.bound).ends
  obtain ⟨plan', p₁, hbegin, hp₁, -, hasked, hplan⟩ :=
    (lands_begin hl.reachable hl.bound hl.asked).and (ends_begin_of hconfine children)
  refine ⟨plan', p₁, hbegin, hp₁, hasked.imp fun c r hcr => hcr.1.of_has fun ref => ?_, hplan⟩
  rw [hp₁]
  rfl

/-- Whatever becomes of the second pass, the sizes it counts are those that were not solved. -/
theorem Left.edits_again (hl : Left s children width height plan report p.model)
    (hhost : ∀ handle w h st, (host handle w h st).1 = size handle) (h₀ : σ) {report' : Report}
    (hpass : measure s children width height host p h = (.ok report', p', h')) :
    report'.intrinsicEdits = news p.model (plan.run host h₀).1.told := by
  obtain ⟨_, _, hbegin', hp₁, hasks, -⟩ := hl.begin_again
  obtain ⟨plan', p₁, hbegin, hfinish⟩ := begin_of_measure hpass
  obtain ⟨hplan, rfl⟩ := Prod.mk.inj (hbegin.symm.trans hbegin')
  obtain rfl := Except.ok.inj hplan
  have hr₁ := reachable_of_solve hl.reachable hp₁
  obtain ⟨-, -, hreport⟩ := ends_finish lasts_reachable hr₁ s _ report' p' hfinish
  have htold := told_eq hhost (hl.asked.imp fun c r hcr => hcr.1) hasks h₀ h
  rw [hreport, htold, hp₁, news_again hl.solved]

/-- Where every size is heeded, the second pass reports what the first one did but for the sizes it
tells again, and it leaves the layout as it was. -/
theorem Left.measure_again (hl : Left s children width height plan report p.model)
    (hhost : ∀ handle w h st, (host handle w h st).1 = size handle) (h₀ : σ)
    (hh : Heeded p.model (plan.run host h₀).1.told) (h : σ) :
    ∃ p' h', measure s children width height host p h = (.ok { report with
        intrinsicEdits := news p.model (plan.run host h₀).1.told }, p', h') ∧
      p'.model = p.model.solve.solve := by
  obtain ⟨plan', p₁, hbegin, hp₁, hasks, hplan⟩ := hl.begin_again
  obtain ⟨answered, hrun, hanswers⟩ := run_plan host plan' h
  have hr₁ := reachable_of_solve hl.reachable hp₁
  have htold := told_eq hhost (hl.asked.imp fun c r hcr => hcr.1) hasks h₀ h
  have hall : List.Forall₂ (Answers s p₁.model) (visibleOf children)
      (plan'.run host h).1.requests := by
    rw [hrun]
    refine answers_of_asks (hasks.imp fun c r hcr => hcr.of_has fun ref => ?_) hanswers
    rw [hp₁]
    rfl
  have hh₁ : Heeded p₁.model (plan'.run host h).1.told := by
    unfold Heeded
    rw [htold, hp₁, reported_again hl.solved]
    exact hh
  obtain ⟨report', p₂, hfinish, hp₂, -, -, hreport⟩ :=
    (lands_finish hr₁ hall hh₁).and (ends_finish lasts_reachable hr₁ s _)
  have hlen : (plan'.run host h).1.requests.length = (visibleOf children).length :=
    hall.length_eq.symm
  refine ⟨p₂, (plan'.run host h).2, ?_, by rw [hp₂, hp₁]⟩
  have hsame : p₂.model.reported = p.model.reported := by
    rw [hp₂, hp₁, reported_again ⟨p.model, rfl⟩, reported_again hl.solved]
  have hsolves : p₂.model.solves - p.model.solves = 2 := by
    rw [hp₂, hp₁]
    exact Nat.add_sub_cancel_left p.model.solves 2
  have hedits : news p₁.model (plan'.run host h).1.told = news p.model (plan.run host h₀).1.told := by
    rw [htold, hp₁, news_again hl.solved]
  obtain ⟨hwidth, hheight, hbefore⟩ := run_header host hplan h
  have hresult : report' = { report with
      intrinsicEdits := news p.model (plan.run host h₀).1.told } := by
    rw [hreport, hsame, hedits, hwidth, hheight, hbefore, hsolves, hlen, hl.report]
  rw [← hresult]
  exact measure_of_finish hbegin hfinish

end Repeated

/-- A container as wide as its two labels together, and a hundred pixels at least. -/
def labelPairRun (p : Pass Rat) : Except LayoutError Report × Pass Rat × Unit :=
  measure { names := .ofList [(1, "a"), (2, "b")] } [{ handle := 1 }, { handle := 2 }]
    (.atMost 500) (.exact 50) (fixedHost fun handle => ⟨if handle = 1 then 100 else 50, 10⟩) p ()

-- A size that the first pass has passed over is told in the second one, and can widen the container.
example :
    let p : Pass Rat := { model := modelOf ["parent.width == a.intrinsicWidth + b.intrinsicWidth",
      "parent.width >= 100"] }
    (labelPairRun p).1 = .ok ⟨⟨100, 50⟩, 2, 1, 2⟩ ∧
      (labelPairRun (labelPairRun p).2.1).1 = .ok ⟨⟨150, 50⟩, 2, 1, 2⟩ := by
  decide +kernel

theorem reachable_modelOf (texts : List String)
    (hok : ((Model.Request.addConstraints (some texts)).perform
      (Model.opening 1 100 (Model.blank 1 100)).2).1 = .ok ()) : (modelOf texts).Reachable := by
  unfold modelOf
  exact Model.reachable_opening.call (.addConstraints (some texts)) (by rw [hok]; simp)

theorem fixedHost_answers (size : Handle → Size) (handle : Handle) (w h : MeasureSpec) (st : Unit) :
    (fixedHost size handle w h st).1 = size handle := rfl

/-- A label as wide as the host says, but fifty pixels at least. -/
def boundedLabel : Model Rat :=
  modelOf ["label.width == label.intrinsicWidth", "label.width >= 50"]

theorem reachable_boundedLabel : boundedLabel.Reachable := reachable_modelOf _ (by decide +kernel)

/-- Such a label is measured in a container of five hundred pixels. -/
def boundedLabelRun (label : Size) (p : Pass Rat) : Except LayoutError Report × Pass Rat × Unit :=
  measure { names := .ofList [(1, "label")] } [{ handle := 1 }] (.exact 500) (.exact 50)
    (fixedHost fun _ => label) p ()

/-- The sizes that a pass over the label tells the model. -/
def boundedLabelTold (label : Size) : Option (List (AttributeRef × Int)) :=
  (begin { names := .ofList [(1, "label")] } [{ handle := 1 }] (.exact 500) (.exact 50)
    { model := boundedLabel }).1.toOption.map fun plan =>
      (plan.run (fixedHost fun _ => label) ()).1.told

end Sizing

end RegionLayout
